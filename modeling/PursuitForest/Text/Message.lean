import PursuitForest.Error
import PursuitForest.Text.Shown
/-!
The wording of errors.
-/

namespace PursuitForest

variable {F L : Type} [ShownScalar F] [ShownLabel L]

/-- Where a shape mismatch was found. -/
def ShapeContext.message : ShapeContext → String
  | .labelledData => "labelled data"
  | .sampleIndex => "bootstrap sample index"
  | .reducedProjector => "reduced projector"
  | .projectorWidth => "projector width"
  | .featureCount => "number of features"
  | .predictions => "predictions and actual labels"

/-- What is wrong with a parameter. -/
def ParameterFault.message : ParameterFault F L → String
  | .undeclaredLabel label =>
    "label " ++ ShownLabel.shown label ++ " is not part of the class set"
  | .absentClass label => "class " ++ ShownLabel.shown label ++ " has no rows"
  | .absentSubsetClass label =>
    "cannot subset on class " ++ ShownLabel.shown label ++ " without rows"
  | .standardizeWithoutRows => "cannot standardize data without rows"
  | .scatterWithoutRows => "cannot compute scatter without rows"
  | .growWithoutRows => "cannot grow a tree on data without rows"
  | .trainWithoutRows => "cannot train a forest on data without rows"
  | .choiceTooLarge choice width =>
    "cannot select " ++ toString choice ++ " variables out of " ++ toString width
  | .splitTooWide choice width =>
    "cannot select " ++ toString choice ++ " variables per split from " ++ toString width ++
      " features"
  | .lambdaOutOfRange lambda =>
    "lambda should lie in [0, 1], but was " ++ ShownScalar.shown lambda
  | .emptyChoice => "the number of variables per split should be at least one"
  | .emptyForest => "a forest needs at least one tree"
  | .emptyThreadPool => "the thread pool needs at least one thread"
  | .regroupTooFew classes =>
    "regrouping needs at least two classes, got " ++ toString classes
  | .splitGroups groups => "a split needs two groups, got " ++ toString groups
  | .unknownGroup label => "unknown super-group " ++ ShownLabel.shown label
  | .nodeWithoutClasses => "cannot grow a node without classes"
  | .lostSubtree => "tree builder lost a subtree"
  | .missingRoot => "tree builder produced no root"

/-- Why there is no split. -/
def Degeneracy.message : Degeneracy F L → String
  | .constantFeatures => "every feature is constant on the node data"
  | .singularScatter smallest largest =>
    "scatter matrix is singular (smallest eigenvalue " ++ smallest.elim "inf" ShownScalar.shown ++
      ", largest " ++ ShownScalar.shown largest ++ ")"
  | .inseparableClasses => "classes are not separable on the node data"
  | .equalMeans first second mean =>
    "groups " ++ ShownLabel.shown first ++ " and " ++ ShownLabel.shown second ++
      " have the same projected mean " ++ ShownScalar.shown mean

/-- Who misses which data. -/
def MissingPart.message : MissingPart → String
  | .treeTraining => "the tree carries no training data"
  | .forestTraining => "the forest carries no training data"
  | .bootstrapSample => "the tree carries no bootstrap sample"

/-- Which ranking needs out-of-bag rows. -/
def OutOfBagRanking.message : OutOfBagRanking → String
  | .adjusted => "adjusted projector importance needs the out-of-bag rows of a forest tree"
  | .permutation => "permutation importance needs the out-of-bag rows of a forest tree"

namespace Error

/-- The wording of an error. -/
def message : Error F L → String
  | .parameter fault => "invalid parameter " ++ fault.message
  | .shapeMismatch context expected found =>
    "shape mismatch in " ++ context.message ++ ": expected " ++ toString expected ++ ", found " ++
      toString found
  | .splitBlock label row =>
    "labels are not grouped into contiguous blocks: label " ++ ShownLabel.shown label ++
      " at row " ++ toString row ++ " continues a block which ended before"
  | .degenerate cause => "degenerate split: " ++ cause.message
  | .retriesExhausted retries source =>
    "tree training failed after " ++ toString retries ++ " retries: " ++ source.message
  | .threadPool cause => "could not build thread pool: " ++ cause
  | .missing part => "training data is not available: " ++ part.message
  | .unsupported ranking => "unsupported variable importance: " ++ ranking.message
  | .tooFewValues =>
    "invalid ndarray shape ShapeError/OutOfBounds: out of bounds indexing"
  | .tooManyValues =>
    "invalid ndarray shape ShapeError/IncompatibleShape: incompatible shapes"
  | .tooManyCells =>
    "invalid ndarray shape ShapeError/Overflow: arithmetic overflow"
  | .malformedText => "serialization failed"
  | .misuse _ => ""

end Error

end PursuitForest
