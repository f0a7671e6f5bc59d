import PursuitForest.Proofs.OrderedScalar
import PursuitForest.Proofs.Tree.Shape
import PursuitForest.Tree.Model
/-!
Columns that no condition weighs.

A coefficient of zero hides what a row holds in its column, so rows that differ there only are sent
the same way by every condition and are predicted alike (`Tree.predict_eq_of_changedAt`).
-/

namespace PursuitForest

section
variable {F : Type}

/-- Vectors of one length that differ in component `j` at most. -/
structure AgreeOff (j : Nat) (u v : List F) : Prop where
  length_eq : u.length = v.length
  getElem?_eq : ∀ i, i ≠ j → u[i]? = v[i]?

/-- Tables of one width that differ in column `j` at most. -/
structure FeatureTable.ChangedAt (j : Nat) (x y : FeatureTable F) : Prop where
  width_eq : x.width = y.width
  rows : List.Forall₂ (AgreeOff j) x.rows y.rows

theorem FeatureTable.ChangedAt.size_eq {j : Nat} {x y : FeatureTable F} (h : ChangedAt j x y) :
    x.size = y.size :=
  h.rows.length_eq

end

variable {K L : Type} [OrderedScalar K] [Label L] {j : Nat}

omit [Label L] in
/-- A component that counts with zero does not matter for an inner product. -/
theorem innerProduct_eq_of_agreeOff {u v projector : List K} (h : AgreeOff j u v)
    (hj : projector.getD j 0 = 0) : innerProduct u projector = innerProduct v projector := by
  refine congrArg List.sum (List.ext_getElem? fun i => ?_)
  rw [List.getElem?_zipWith, List.getElem?_zipWith]
  by_cases hi : i = j
  · subst hi
    cases hp : projector[i]? with
    | none => cases u[i]? <;> cases v[i]? <;> rfl
    | some a =>
      obtain rfl : a = 0 := by simpa [List.getD_eq_getElem?_getD, hp] using hj
      cases hu : u[i]? with
      | none =>
        have hv : v[i]? = none := by
          rw [List.getElem?_eq_none_iff, ← h.length_eq, ← List.getElem?_eq_none_iff, hu]
        rw [hv]
      | some b =>
        obtain ⟨c, hc⟩ : ∃ c, v[i]? = some c := by
          obtain ⟨hlt, -⟩ := List.getElem?_eq_some_iff.1 hu
          exact ⟨_, List.getElem?_eq_getElem (h.length_eq ▸ hlt)⟩
        rw [hc]
        exact congrArg some ((mul_zero b).trans (mul_zero c).symm)
  · rw [h.getElem?_eq i hi]

namespace Node

/-- No condition weighs column `j`. -/
def Ignores (root : Node K L) (j : Nat) : Prop :=
  ∀ c ∈ root.conditions, c.projector.getD j 0 = 0

instance (root : Node K L) (j : Nat) : Decidable (root.Ignores j) :=
  inferInstanceAs (Decidable (∀ c ∈ root.conditions, c.projector.getD j 0 = 0))

theorem ignores_condition_iff {projector : List K} {threshold : K} {classes : LabelSet L}
    {lower upper : Node K L} : (condition projector threshold classes lower upper).Ignores j ↔
      projector.getD j 0 = 0 ∧ lower.Ignores j ∧ upper.Ignores j :=
  forall_conditions_condition

/-- Rows that differ in the ignored column only go the same way. -/
theorem Ignores.predictRow_eq {r s : List K} (hrs : AgreeOff j r s) : ∀ {root : Node K L},
    root.Ignores j → root.predictRow r = root.predictRow s
  | .response _, _ => rfl
  | .condition projector threshold classes lower upper, h => by
      obtain ⟨hself, hlower, hupper⟩ := ignores_condition_iff.1 h
      have hproject : project (L := L) projector r = project projector s := by
        rw [project, project, hrs.length_eq, OrderedScalar.dot_eq_innerProduct,
          OrderedScalar.dot_eq_innerProduct, innerProduct_eq_of_agreeOff hrs hself]
      rw [predictRow, predictRow, hproject, hlower.predictRow_eq hrs, hupper.predictRow_eq hrs]

end Node

/-- A tree that ignores a column predicts the same whatever the column holds. -/
theorem Tree.predict_eq_of_changedAt {t : Tree K L} (h : t.root.Ignores j) {x y : FeatureTable K}
    (hxy : x.ChangedAt j y) :
    t.predict x = t.predict y ∧ ∀ targets, t.predictInto x targets = t.predictInto y targets := by
  have hpredict : t.predict x = t.predict y := by
    refine Alike.eq ((Alike.mapM (P := Eq) hxy.rows fun r _ s hrs => ?_).mono fun xs ys hxs => ?_)
    · rw [predictRow, predictRow, h.predictRow_eq hrs]
      exact Alike.refl _
    · rwa [List.forall₂_eq_eq_eq] at hxs
  refine ⟨hpredict, fun targets => ?_⟩
  rw [predictInto, predictInto, hxy.size_eq, hpredict]

end PursuitForest
