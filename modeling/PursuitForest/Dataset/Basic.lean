import PursuitForest.FeatureTable
import PursuitForest.Label
import PursuitForest.Scalar
/-!
Labelled observations.

A `Dataset` keeps every row next to its label, so rows and labels cannot come apart, and declares
the set of classes it is about. Every label is a declared class; a declared class may have no row,
as when a draw misses it.
-/

namespace PursuitForest

/-- One row of features and its class. -/
structure Observation (F L : Type) where
  features : List F
  label : L

/-- Observations of one width, with the classes they are about. -/
structure Dataset (F L : Type) [Label L] where
  width : Nat
  rows : List (Observation F L)
  classes : LabelSet L
  shaped : ∀ o ∈ rows, o.features.length = width
  covered : ∀ o ∈ rows, o.label ∈ classes

namespace Dataset

variable {F L : Type} [Label L]

@[ext] theorem ext {d e : Dataset F L} (hw : d.width = e.width) (hr : d.rows = e.rows)
    (hc : d.classes = e.classes) : d = e := by
  cases d; cases e; cases hw; cases hr; cases hc; rfl

/-- Number of observations. -/
def size (d : Dataset F L) : Nat := d.rows.length

/-- Whether there is no observation. -/
def isEmpty (d : Dataset F L) : Bool := d.rows.isEmpty

/-- The label of every row. -/
def labels (d : Dataset F L) : List L := d.rows.map (·.label)

/-- The features without the labels. -/
def features (d : Dataset F L) : FeatureTable F where
  width := d.width
  rows := d.rows.map (·.features)
  shaped r hr := by
    obtain ⟨o, ho, rfl⟩ := List.mem_map.1 hr
    exact d.shaped o ho

/-- The labels that occur. -/
def presentClasses (d : Dataset F L) : LabelSet L := LabelSet.ofList d.labels

/-- Pairs rows with labels under declared classes. The numbers of both must agree and every label
must be declared; the numbers are compared first. -/
def withClasses (x : FeatureTable F) (y : List L) (classes : LabelSet L) :
    Except (Error F L) (Dataset F L) :=
  if x.size ≠ y.length then .error (.shapeMismatch .labelledData x.size y.length)
  else match h : y.find? fun label => decide (label ∉ classes) with
    | some label => .error (.parameter (.undeclaredLabel label))
    | none => .ok {
        width := x.width
        rows := List.zipWith Observation.mk x.rows y
        classes
        shaped := fun o ho => by
          obtain ⟨i, hi, rfl⟩ := List.mem_iff_getElem.1 ho
          rw [List.getElem_zipWith]
          exact x.shaped _ (List.getElem_mem _)
        covered := fun o ho => by
          obtain ⟨i, hi, rfl⟩ := List.mem_iff_getElem.1 ho
          rw [List.getElem_zipWith]
          simpa using List.find?_eq_none.1 h _ (List.getElem_mem _) }

/-- Pairs rows with labels; the classes are the labels that occur. -/
def ofParts (x : FeatureTable F) (y : List L) : Except (Error F L) (Dataset F L) :=
  withClasses x y (LabelSet.ofList y)

/-- The rows at the given places, repetitions allowed; places beyond the data are left out. The
declared classes stay. -/
def gather (d : Dataset F L) (places : List Nat) : Dataset F L :=
  let picked := let rows := d.rows.toArray; places.filterMap (rows[·]?)
  have mem {o} (ho : o ∈ picked) : o ∈ d.rows := by
    obtain ⟨i, -, hi⟩ := List.mem_filterMap.1 ho
    exact List.mem_of_getElem? (by simpa using hi)
  { width := d.width
    rows := picked
    classes := d.classes
    shaped := fun o ho => d.shaped o (mem ho)
    covered := fun o ho => d.covered o (mem ho) }

/-- The rows at the given places, all of which must exist. -/
def select (d : Dataset F L) (places : List Nat) : Except (Error F L) (Dataset F L) :=
  if ∀ i ∈ places, i < d.size then .ok (d.gather places) else .error (.misuse .rowOutOfBounds)

/-- The given columns in the given order; columns beyond the width are left out. -/
def keepColumns (d : Dataset F L) (columns : List Nat) : Dataset F L where
  width := (columns.filter (· < d.width)).length
  rows := d.rows.map fun o => { o with features := columns.filterMap (o.features[·]?) }
  classes := d.classes
  shaped o ho := by
    obtain ⟨p, hp, rfl⟩ := List.mem_map.1 ho
    rw [length_filterMap_getElem?, d.shaped p hp]
  covered o ho := by
    obtain ⟨p, hp, rfl⟩ := List.mem_map.1 ho
    exact d.covered p hp

/-- The given columns, all of which must exist. -/
def selectColumns (d : Dataset F L) (columns : List Nat) : Except (Error F L) (Dataset F L) :=
  if ∀ c ∈ columns, c < d.width then .ok (d.keepColumns columns)
  else .error (.misuse .columnOutOfBounds)

/-- Other features for the same labels and classes. -/
def withFeatures (d : Dataset F L) (x : FeatureTable F) : Except (Error F L) (Dataset F L) :=
  withClasses x d.labels d.classes

/-- Every label and declared class replaced by its image. -/
def relabel {L' : Type} [Label L'] (d : Dataset F L) (f : L → L') : Dataset F L' where
  width := d.width
  rows := d.rows.map fun o => ⟨o.features, f o.label⟩
  classes := d.classes.map f
  shaped o ho := by
    obtain ⟨p, hp, rfl⟩ := List.mem_map.1 ho
    exact d.shaped p hp
  covered o ho := by
    obtain ⟨p, hp, rfl⟩ := List.mem_map.1 ho
    exact LabelSet.mem_map.2 ⟨p.label, d.covered p hp, rfl⟩

/-- Same shape, labels and classes, and features that compare as equal. -/
def same [Scalar F] (d e : Dataset F L) : Bool :=
  d.width == e.width && d.rows.map (·.features) == e.rows.map (·.features) &&
    d.labels == e.labels && decide (d.classes = e.classes)

end Dataset

end PursuitForest
