import PursuitForest.Error
import PursuitForest.Label
import PursuitForest.Scalar
import PursuitForest.Sorting.Adaptive
/-!
Two groups of classes out of many.

The classes are put in the order of their projected means and cut at the largest gap between
neighbours, the first of several. Each group is named by its smallest class.

Means that are not numbers compare with nothing. They may spoil the order of the other means, so how
these are sorted can be seen then, and sorting may fail.
-/

namespace PursuitForest

/-- Classes that are treated as one, under the label of the smallest. -/
structure ClassUnion (L : Type) [Label L] where
  label : L
  classes : LabelSet L

/-- Classes divided in two. -/
structure Regrouping (L : Type) [Label L] where
  below : ClassUnion L
  above : ClassUnion L

section
variable {F L : Type} [Scalar F] [Label L]

/-- Order by mean, then by label. Means that do not compare count as equal. -/
def precedes (a b : L × F) : Bool :=
  if a.2 < b.2 then true else if b.2 < a.2 then false else decide (a.1 < b.1)

/-- How classes are sorted: eight at once are brought in order, or four of long labels. -/
def meanOrder : SortOrder (L × F) := ⟨precedes, if Label.isShort L then 8 else 4⟩

/-- Classes by mean, then by label. If some means are not numbers, the classes may not come out once
each, which is noticed. -/
def sortMeans (means : List (L × F)) : Option (List (L × F)) :=
  if means.all fun m => m.2 == m.2 then some (meanOrder.insertion means)
  else
    let sorted := meanOrder.sort means
    if (sorted.map (·.1)).isPerm (means.map (·.1)) then some sorted else none

/-- Differences of neighbours. -/
def gaps (sorted : List (L × F)) : List F :=
  List.zipWith (fun a b => b.2 - a.2) sorted sorted.tail

/-- Place of the first value that no later value exceeds, among `xs` from place `i` on, against
`best` at place `cut`. -/
def firstLargest (cut : Nat) (best : F) : (i : Nat) → List F → Nat
  | _, [] => cut
  | i, x :: xs => if best < x then firstLargest i x (i + 1) xs else firstLargest cut best (i + 1) xs

/-- Number of classes below the largest gap. -/
def cutPoint (sorted : List (L × F)) : Nat :=
  match gaps sorted with
  | [] => 0
  | g :: gs => firstLargest 0 g 1 gs + 1

/-- The union of the classes of some means. -/
def ClassUnion.ofMeans (means : List (L × F)) : Option (ClassUnion L) :=
  let classes := LabelSet.ofList (means.map (·.1))
  classes.min?.map fun label => ⟨label, classes⟩

namespace Regrouping

/-- Cuts two or more classes at the largest gap of their means. -/
def ofMeans (means : List (L × F)) : Except (Error F L) (Regrouping L) :=
  match sortMeans means with
  | none => .error (.misuse .inconsistentOrder)
  | some sorted =>
    let cut := cutPoint sorted
    match ClassUnion.ofMeans (sorted.take cut), ClassUnion.ofMeans (sorted.drop cut) with
    | some below, some above => .ok ⟨below, above⟩
    | _, _ => .error (.parameter (.regroupTooFew means.length))

omit [Scalar F] in
/-- The label a class goes under. -/
def target (r : Regrouping L) (c : L) : L :=
  if c ∈ r.below.classes then r.below.label
  else if c ∈ r.above.classes then r.above.label else c

/-- The classes that go under a label. -/
def classesOf? (r : Regrouping L) (label : L) : Option (LabelSet L) :=
  if label = r.below.label then some r.below.classes
  else if label = r.above.label then some r.above.classes else none

/-- The classes that go under the label of a side. -/
def side {F : Type} (r : Regrouping L) (label : L) : Except (Error F L) (LabelSet L) :=
  match r.classesOf? label with
  | some classes => .ok classes
  | none => .error (.parameter (.unknownGroup label))

end Regrouping

end

end PursuitForest
