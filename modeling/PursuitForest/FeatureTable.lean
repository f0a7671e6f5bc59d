import PursuitForest.Error
/-!
Feature tables: rows of equal length.

The width is part of the table, so that a table without rows still has one. Tables are read off a
flat list of values row by row; the list must fill the shape exactly (`FeatureTable.ofValues`).
Shapes of more than `FeatureTable.maxCells` cells are refused.
-/

namespace PursuitForest

/-- Rows of `width` values each. -/
structure FeatureTable (F : Type) where
  width : Nat
  rows : List (List F)
  shaped : ∀ r ∈ rows, r.length = width

/-- The first `n` runs of `width` values. -/
def chunks {F : Type} (width : Nat) : (n : Nat) → List F → List (List F)
  | 0, _ => []
  | n + 1, values => values.take width :: chunks width n (values.drop width)

theorem length_of_mem_chunks {F : Type} {width : Nat} : ∀ {n : Nat} {values r : List F},
    values.length = n * width → r ∈ chunks width n values → r.length = width
  | 0, _, _, _, hr => by simp [chunks] at hr
  | n + 1, values, r, h, hr => by
      have hle : width ≤ values.length := by rw [h, Nat.succ_mul]; omega
      rcases List.mem_cons.1 hr with rfl | hr
      · rw [List.length_take]; omega
      · refine length_of_mem_chunks ?_ hr
        rw [List.length_drop, h, Nat.succ_mul]; omega

/-- What is read of a row at valid columns is as long as the columns. -/
theorem length_filterMap_getElem? {α : Type} (r : List α) : ∀ columns : List Nat,
    (columns.filterMap (r[·]?)).length = (columns.filter (· < r.length)).length
  | [] => rfl
  | c :: cs => by
      have ih := length_filterMap_getElem? r cs
      by_cases h : c < r.length <;> simp [h, ih]

namespace FeatureTable

variable {F L : Type}

@[ext] theorem ext {s t : FeatureTable F} (hw : s.width = t.width) (hr : s.rows = t.rows) :
    s = t := by
  cases s; cases t; cases hw; cases hr; rfl

/-- Number of rows. -/
def size (t : FeatureTable F) : Nat := t.rows.length

/-- Most cells of a table. -/
def maxCells : Nat := 1 <<< 63 - 1

/-- How large a shape is: the product of its sizes, where a size of zero is left out. -/
def extent (n width : Nat) : Nat := max n 1 * max width 1

/-- The table of `n` rows of `width` values that `values` lists row by row. -/
def ofValues (n width : Nat) (values : List F) : Except (Error F L) (FeatureTable F) :=
  if maxCells < extent n width then .error .tooManyCells
  else if h : values.length = n * width then
    .ok ⟨width, chunks width n values, fun _ hr => length_of_mem_chunks h hr⟩
  else if values.length < n * width then .error .tooFewValues
  else .error .tooManyValues

/-- The rows at the given places, repetitions allowed; places beyond the table are left out. -/
def gather (t : FeatureTable F) (places : List Nat) : FeatureTable F where
  width := t.width
  rows := let rows := t.rows.toArray; places.filterMap (rows[·]?)
  shaped r hr := by
    obtain ⟨i, -, hi⟩ := List.mem_filterMap.1 hr
    exact t.shaped r (List.mem_of_getElem? (by simpa using hi))

/-- The given columns in the given order; columns beyond the table are left out. -/
def keepColumns (t : FeatureTable F) (columns : List Nat) : FeatureTable F where
  width := (columns.filter (· < t.width)).length
  rows := t.rows.map fun r => columns.filterMap (r[·]?)
  shaped r hr := by
    obtain ⟨s, hs, rfl⟩ := List.mem_map.1 hr
    rw [length_filterMap_getElem?, t.shaped s hs]

/-- The values of column `j`, top to bottom. -/
def column (t : FeatureTable F) (j : Nat) : List F := t.rows.filterMap (·[j]?)

end FeatureTable

end PursuitForest
