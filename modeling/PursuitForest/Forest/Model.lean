import PursuitForest.Forest.Crew
import PursuitForest.Forest.Member
import PursuitForest.Forest.Seed
import PursuitForest.Forest.Settings
import PursuitForest.Forest.Vote
/-!
Fitted forests.

Every tree is grown on a stratified bootstrap sample of the observations. A sample that admits no
split is drawn anew, with the seed of the next attempt, as often as the settings allow. Threads
have no influence on a tree, but training fails where they cannot be had, and where several trees
fail they decide which of them is heard of. The trees vote on every row; the out-of-bag vote on a
row is that of the trees which did not draw it.
-/

namespace PursuitForest

/-- Trees that vote. Restored forests carry no observations. -/
structure Forest (F L : Type) [Label L] where
  members : List (Member F L)
  settings : ForestSettings F
  training : Option (GroupedDataset F L)

namespace Forest

section
variable {F L : Type} [Label L]

/-- Number of trees. -/
def size (f : Forest F L) : Nat := f.members.length

/-- The declared classes of the observations, or else the classes of all trees. -/
def classes (f : Forest F L) : LabelSet L :=
  match f.training with
  | some data => data.classes
  | none => f.members.foldr (fun m s => .union m.tree.classes s) .empty

/-- Width of the first tree. -/
def width (f : Forest F L) : Nat :=
  match f.members with
  | [] => 0
  | m :: _ => m.tree.width

/-- The observations that the forest was grown on. -/
def requireTraining (f : Forest F L) : Except (Error F L) (GroupedDataset F L) :=
  match f.training with
  | some data => .ok data
  | none => .error (.missing .forestTraining)

end

/-! ### Training -/

section
variable {F L : Type} [Scalar F] [Eigensolver F] [Label L] (G : Type) [RandomSource G]

/-- One attempt at the tree at place `index`. -/
def attempt (settings : ForestSettings F) (data : GroupedDataset F L) (index number : Nat) :
    Except (Error F L) (Member F L) := do
  let seed := deriveSeed settings.seed (.ofNat index) (.ofNat number)
  let (draw, g) := BootstrapDraw.stratified data (RandomSource.ofSeed seed : G)
  let sample := draw.sampleData
  let root ← (grow settings.tree sample g).1
  return ⟨⟨root, settings.tree.withSeed seed, sample.width, none⟩, some draw⟩

/-- Attempts from `number` on, until one does not fail for want of a split or no retry is left. -/
def attemptFrom (settings : ForestSettings F) (data : GroupedDataset F L) (index : Nat) :
    (retriesLeft number : Nat) → Except (Error F L) (Member F L)
  | left, number =>
    match attempt G settings data index number with
    | .ok m => .ok m
    | .error e =>
      if e.isDegenerate then
        match left with
        | 0 => .error (.retriesExhausted number e)
        | left + 1 => attemptFrom settings data index left (number + 1)
      else .error e

/-- The tree at place `index`. -/
def trainTree (settings : ForestSettings F) (data : GroupedDataset F L) (index : Nat) :
    Except (Error F L) (Member F L) :=
  attemptFrom G settings data index settings.retries 0

/-- Grows a forest on observations in any order. The trees are trained side by side. If several
fail, the crew decides which of them is reported. -/
def fit (crew : Crew) (settings : ForestSettings.Checked F) (d : Dataset F L) :
    Except (Error F L) (Forest F L) := do
  if d.isEmpty then throw (.parameter .trainWithoutRows)
  settings.val.tree.checkWidth d.width
  let data := GroupedDataset.ofDataset d
  crew.engage settings.val.threads
  let members ← crew.collect
    ((List.range settings.val.size).map (trainTree G settings.val data))
  return ⟨members, settings.val, some data⟩

end

/-! ### Voting -/

section
variable {F L : Type} [Scalar F] [Label L]

/-- The votes of all trees on every row. -/
def votes (f : Forest F L) (x : FeatureTable F) : Except (Error F L) (List (List L)) := do
  let predictions ← f.members.mapM fun m => m.tree.predict x
  let predictions := predictions.map List.toArray
  return (List.range x.size).map fun i => predictions.filterMap (·[i]?)

/-- The class with the most votes on every row. -/
def predict (f : Forest F L) (x : FeatureTable F) : Except (Error F L) (List L) := do
  return (← f.votes x).filterMap winner

/-- The class with the most votes on every row in place of the targets, of which there must be as
many as rows. -/
def predictInto (f : Forest F L) (x : FeatureTable F) (targets : List L) :
    Except (Error F L) (List L) := do
  if x.size ≠ targets.length then throw (.misuse .targetLength)
  return List.zipWith (fun target votes => (winner votes).getD target) targets (← f.votes x)

/-- The share of the votes on every row that each class gets, in class order. -/
def voteProportions (f : Forest F L) (x : FeatureTable F) :
    Except (Error F L) (FeatureTable F) := do
  let rows ← f.votes x
  return {
    width := f.classes.size
    rows := rows.map fun votes =>
      f.classes.toList.map fun c => Scalar.ofNat (votes.count c) / Scalar.ofNat f.size
    shaped := fun r hr => by
      obtain ⟨votes, -, rfl⟩ := List.mem_map.1 hr
      simp [LabelSet.size] }

/-- Predictions against the labels of observations. -/
def confusion (f : Forest F L) (d : Dataset F L) : Except (Error F L) (Confusion L) := do
  match f.members with
  | [] => pure ()
  | m :: _ => m.tree.checkWidth d.width
  Confusion.tally (← f.predict d.features) d.labels

/-- Share of observations that are predicted wrongly. -/
def errorRate {R : Type} [Scalar R] (f : Forest F L) (d : Dataset F L) : Except (Error F L) R := do
  return (← f.confusion d).error

/-- The votes of a tree on its out-of-bag rows. -/
def outOfBagVotes (data : GroupedDataset F L) (m : Member F L) :
    Except (Error F L) (List (Nat × L)) := do
  let draw ← m.requireDraw
  let predictions ← m.tree.predict (data.features.gather draw.outOfBag)
  return draw.outOfBag.zip predictions

/-- The out-of-bag vote on every row that some tree did not draw, against the label of the row. -/
def outOfBagConfusion (f : Forest F L) : Except (Error F L) (Confusion L) := do
  let data ← f.requireTraining
  let votes := (← f.members.mapM (outOfBagVotes data)).flatten
  let outcomes := data.labels.zipIdx.filterMap fun (label, row) =>
    (winner (votes.filterMap fun (i, vote) => if i = row then some vote else none)).map
      fun vote => (vote, label)
  Confusion.tally (outcomes.map (·.1)) (outcomes.map (·.2))

/-- Share of the out-of-bag votes that are wrong. -/
def outOfBagError {R : Type} [Scalar R] (f : Forest F L) : Except (Error F L) R := do
  return (← f.outOfBagConfusion).error

/-- Whether two forests have as many trees, and similar ones place by place. -/
def similar (f g : Forest F L) : Bool :=
  f.members.length == g.members.length &&
    (f.members.zip g.members).all fun (a, b) => a.tree.similar b.tree

end

end Forest

end PursuitForest
