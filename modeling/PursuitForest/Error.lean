/-!
What can go wrong, by cause.

An `Error` names the cause and carries the labels, scalars and sizes involved; its wording is in
`Error.message`. `Error.misuse` marks calls whose arguments break the contract of the operation:
they have no wording.
-/

namespace PursuitForest

/-- The comparison of two sizes that failed. -/
inductive ShapeContext where
  | labelledData
  | sampleIndex
  | reducedProjector
  | projectorWidth
  | featureCount
  | predictions
deriving DecidableEq

/-- Settings or arguments outside their domain. -/
inductive ParameterFault (F L : Type) where
  /-- A row carries a label outside the declared classes. -/
  | undeclaredLabel (label : L)
  /-- The rows of a class without rows were asked for. -/
  | absentClass (label : L)
  /-- A subset was asked for that lists a class without rows. -/
  | absentSubsetClass (label : L)
  | standardizeWithoutRows
  | scatterWithoutRows
  | growWithoutRows
  | trainWithoutRows
  /-- A column choice larger than the number of columns. -/
  | choiceTooLarge (choice width : Nat)
  /-- The columns per split exceed the columns of the training data. -/
  | splitTooWide (choice width : Nat)
  | lambdaOutOfRange (lambda : F)
  | emptyChoice
  | emptyForest
  | emptyThreadPool
  /-- Fewer than two classes to divide into two groups. -/
  | regroupTooFew (classes : Nat)
  /-- A split is between two groups, not this many. -/
  | splitGroups (groups : Nat)
  /-- A side of a split carries a label that no group has. -/
  | unknownGroup (label : L)
  | nodeWithoutClasses
  | lostSubtree
  | missingRoot
deriving DecidableEq

/-- Why no split exists on the rows of a node. -/
inductive Degeneracy (F L : Type) where
  | constantFeatures
  /-- The smallest eigenvalue, if one is a number, and the largest magnitude. -/
  | singularScatter (smallest : Option F) (largest : F)
  | inseparableClasses
  | equalMeans (first second : L) (mean : F)
deriving DecidableEq

/-- Data that restored models do not have. -/
inductive MissingPart where
  | treeTraining
  | forestTraining
  | bootstrapSample
deriving DecidableEq

/-- Rankings that need the rows a tree was not trained on. -/
inductive OutOfBagRanking where
  | adjusted
  | permutation
deriving DecidableEq

/-- A call that breaks the contract of an operation. -/
inductive Misuse where
  | rowOutOfBounds
  | columnOutOfBounds
  | rowWidth
  | targetLength
  | broadcast
  | emptyInterval
  | cellTooWide
  /-- An order in which values do not compare consistently. -/
  | inconsistentOrder
deriving DecidableEq

/-- Everything that can go wrong, with scalars `F` and labels `L`. -/
inductive Error (F L : Type) where
  | parameter (fault : ParameterFault F L)
  | shapeMismatch (context : ShapeContext) (expected found : Nat)
  /-- The block of `label` goes on at `row` although it ended before. -/
  | splitBlock (label : L) (row : Nat)
  | degenerate (cause : Degeneracy F L)
  | retriesExhausted (retries : Nat) (source : Error F L)
  /-- Threads of its own for the training cannot be had. -/
  | threadPool (cause : String)
  | missing (part : MissingPart)
  | unsupported (ranking : OutOfBagRanking)
  /-- Fewer values than a table of the given shape has cells. -/
  | tooFewValues
  /-- More values than a table of the given shape has cells. -/
  | tooManyValues
  /-- A shape with more cells than a table may have. -/
  | tooManyCells
  /-- A text is not the written form of a value of the expected type. -/
  | malformedText
  | misuse (cause : Misuse)
deriving DecidableEq

namespace Error

variable {F L : Type}

/-- Whether drawing another bootstrap sample may help. -/
def isDegenerate : Error F L → Bool
  | .degenerate _ => true
  | _ => false

end Error

end PursuitForest
