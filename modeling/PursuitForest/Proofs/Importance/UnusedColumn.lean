import PursuitForest.Proofs.OrderedScalar
import PursuitForest.Proofs.Importance.Vectors
import PursuitForest.Random.Xoshiro
/-!
Columns that no condition weighs have no importance.

Vectors that are zero in the column are a kind that the rankings by projectors keep to, however they
weigh them (`Blank.vectorKind`). The ranking by permutation predicts rows again in which the column is
shuffled, and predicts them as before, so no accuracy is lost, whatever the order of the rows is by then.
-/

namespace PursuitForest

/-! ### Vectors that are zero in a component -/

section
variable {F : Type} [Scalar F]

/-- As many components as there are columns, of which that of column `j` is zero. -/
structure Blank (width j : Nat) (v : List F) : Prop where
  length_eq : v.length = width
  zero : v.getD j 0 = 0

namespace Blank

variable {width j : Nat} {u v : List F}

theorem replicate (width j : Nat) : Blank width j (List.replicate width (0 : F)) where
  length_eq := List.length_replicate
  zero := by
    rw [List.getD_eq_getElem?_getD, List.getElem?_replicate]
    split <;> rfl

theorem map (h : Blank width j v) {f : F → F} (hf : f 0 = 0) : Blank width j (v.map f) where
  length_eq := by rw [List.length_map, h.length_eq]
  zero := by
    have hzero := h.zero
    rw [List.getD_eq_getElem?_getD] at hzero ⊢
    rw [List.getElem?_map]
    cases hv : v[j]? with
    | none => rfl
    | some a =>
      rw [hv] at hzero
      obtain rfl : a = 0 := hzero
      exact hf

/-- A component is zero in a combination if it is zero in the first vector and zero absorbs, or if
it is zero in both. -/
theorem zipWith (hu : Blank width j u) (hlength : v.length = width) {f : F → F → F}
    (hf : ∀ a, v[j]? = some a → f 0 a = 0) : Blank width j (List.zipWith f u v) where
  length_eq := by rw [List.length_zipWith, hu.length_eq, hlength, Nat.min_self]
  zero := by
    have hzero := hu.zero
    rw [List.getD_eq_getElem?_getD] at hzero ⊢
    rw [List.getElem?_zipWith]
    cases hj : u[j]? with
    | none => rfl
    | some a =>
      rw [hj] at hzero
      obtain rfl : a = 0 := hzero
      cases hv : v[j]? with
      | none => rfl
      | some b => exact hf b hv

theorem getElem?_eq (h : Blank width j v) (hj : j < width) : v[j]? = some 0 := by
  have hlt : j < v.length := h.length_eq ▸ hj
  have hzero := h.zero
  rw [List.getD_eq_getElem?_getD, List.getElem?_eq_getElem hlt] at hzero
  rw [List.getElem?_eq_getElem hlt]
  exact congrArg some hzero

end Blank

end

variable {K L : Type} [OrderedScalar K] [Label L] {width j : Nat} {scale : ColumnScale K}

omit [Label L] in
/-- Whatever zero is added to zero, multiplied by or divided by, it stays zero. -/
theorem Blank.vectorKind (width j : Nat) : VectorKind width (Blank (F := K) width j) where
  length_eq h := h.length_eq
  zeros := .replicate width j
  add hu hv := hu.zipWith hv.length_eq fun a ha => by
    obtain rfl : a = 0 := by simpa [List.getD_eq_getElem?_getD, ha] using hv.zero
    exact add_zero 0
  scale _ hd hv := hv.zipWith hd fun a _ => zero_mul a
  divide count hv := hv.map (by rw [show Scalar.abs (0 : K) = 0 from abs_zero]; exact zero_div _)
  weigh index hv := hv.map (by rw [show Scalar.abs (0 : K) = 0 from abs_zero]; exact mul_zero index)
  rate weight hv := hv.map (zero_mul weight)

variable {R : Type} [OrderedScalar R] [Rated K R]

/-! ### Trees of a forest -/

section
variable [Eigensolver K] {G : Type} [RandomSource G] {settings : ForestSettings K}
  {data : GroupedDataset K L} {m : Member K L}

namespace Forest.Trained

/-- All coefficients of a column are zero if no condition weighs it. -/
theorem blank (h : Trained G settings data m) (hj : m.tree.root.Ignores j) :
    ∀ c ∈ m.tree.root.conditions, Blank data.width j c.projector := by
  obtain ⟨g', hgrow⟩ := h.grows
  exact fun c hc => ⟨length_projector_of_grow hgrow hc, hj c hc⟩

/-- Reordering an ignored column loses no accuracy. -/
theorem exists_blankLosses (h : Trained G settings data m) (hj : m.tree.root.Ignores j)
    (hrate : Rated.ofRate (0 : R) = (0 : K)) (hdeviation : scale.deviation.length = data.width)
    (G' : Type) [RandomSource G'] (seed : UInt64) :
    ∃ v, permutationImportance G' seed m scale = .ok v ∧ Blank data.width j v := by
  obtain ⟨v, hv, hlosses⟩ := h.exists_permutationImportance hdeviation
    (Q := fun k loss => k = j → loss = 0) (fun _ _ => rfl)
    (fun x z y k baseline a hchanged hbaseline ha hkj => by
      subst hkj
      -- the ignored column hides the change, so the accuracy is that of the rows as they are
      rw [accuracyOn, ← (Tree.predict_eq_of_changedAt hj hchanged).1, ← accuracyOn, hbaseline] at ha
      cases ha
      rw [sub_self, hrate]) G' seed
  have hlength : v.length = data.width := hlosses.length_eq.symm.trans List.length_range
  refine ⟨v, hv, hlength, ?_⟩
  rw [List.getD_eq_getElem?_getD]
  cases hloss : v[j]? with
  | none => rfl
  | some loss =>
    obtain ⟨hlt, rfl⟩ := List.getElem?_eq_some_iff.1 hloss
    exact hlosses.get (by rwa [hlosses.length_eq]) hlt (List.getElem_range _)

/-- A tree of a forest gives a column that it ignores no importance, however importance is
measured. -/
theorem exists_importance (h : Trained G settings data m) (hj : m.tree.root.Ignores j)
    (hrate : Rated.ofRate (0 : R) = (0 : K)) (hmean : scale.mean.length = data.width)
    (hdeviation : scale.deviation.length = data.width) (G' : Type) [RandomSource G'] (r : Ranking) :
    ∃ v, r.ofMember G' m scale = .ok v ∧ Blank data.width j v := by
  have hkind := Blank.vectorKind (K := K) data.width j
  cases r with
  | projector => exact hkind.exists_projectorImportance h.width_eq hdeviation (h.blank hj)
  | adjusted => exact h.exists_adjustedImportance hkind (h.blank hj) hmean hdeviation
  | permutation seed => exact h.exists_blankLosses hj hrate hdeviation G' seed

end Forest.Trained

end

/-- A column that no condition weighs has no influence on the predictions of a tree, and no
importance in a tree of a forest, however importance is measured. -/
theorem ignored_column_spec [Eigensolver K] (G G' : Type) [RandomSource G] [RandomSource G']
    (hrate : Rated.ofRate (0 : R) = (0 : K)) (j : Nat) :
    (∀ (t : Tree K L) (x y : FeatureTable K), t.root.Ignores j → x.ChangedAt j y →
      t.predict x = t.predict y ∧ ∀ targets, t.predictInto x targets = t.predictInto y targets) ∧
    ∀ (crew : Crew) (settings : ForestSettings.Checked K) (d : Dataset K L) (f : Forest K L),
      Forest.fit G crew settings d = .ok f → ∀ m ∈ f.members, m.tree.root.Ignores j → j < d.width →
        ∀ scale : ColumnScale K, scale.mean.length = d.width → scale.deviation.length = d.width →
          ∀ r : Ranking, ∃ v, r.ofMember G' m scale = .ok v ∧ v.length = d.width ∧
            v[j]? = some 0 := by
  refine ⟨fun t x y ht hxy => Tree.predict_eq_of_changedAt ht hxy, ?_⟩
  intro crew settings d f hf m hm hj hlt scale hmean hdeviation r
  have htrained := (Forest.grown_of_fit hf).trained m hm
  obtain ⟨v, hv, hblank⟩ := htrained.exists_importance hj hrate hmean hdeviation G' r
  exact ⟨v, hv, hblank.length_eq, hblank.getElem?_eq hlt⟩

/-! ### An example of rational scalars -/

instance : Rated ℚ ℚ := ⟨id⟩

/-- Two classes of four rows each; the third column is the same throughout. -/
def twoCorners : Dataset ℚ Nat where
  width := 3
  rows := [⟨[0, 1, 7], 0⟩, ⟨[1, 0, 7], 0⟩, ⟨[2, 2, 7], 0⟩, ⟨[1, 3, 7], 0⟩,
    ⟨[8, 9, 7], 1⟩, ⟨[9, 7, 7], 1⟩, ⟨[7, 8, 7], 1⟩, ⟨[9, 9, 7], 1⟩]
  classes := .ofList [0, 1]
  shaped := by decide
  covered := by decide

/-- A tree with a condition does not see the third column, which has no importance. -/
theorem ignored_column_twoCorners : ∃ f m scale,
    Forest.fit Xoshiro .orderly ⟨⟨2, 0, none, 3, ⟨0, .all, 0⟩⟩, by decide⟩ twoCorners = .ok f ∧
      ColumnScale.fit (L := Nat) twoCorners.features = .ok scale ∧
      m ∈ f.members ∧ m.tree.root.Ignores 2 ∧ m.tree.root.conditions.length = 1 ∧
      m.tree.predict ⟨3, [[1, 2, 3]], by decide⟩ = m.tree.predict ⟨3, [[1, 2, -5]], by decide⟩ ∧
      ∀ r : Ranking, ∃ v, r.ofMember Xoshiro m scale = .ok v ∧ v.length = 3 ∧ v[2]? = some 0 := by
  have hfits : ((Forest.fit Xoshiro .orderly ⟨⟨2, 0, none, 3, ⟨0, .all, 0⟩⟩, by decide⟩
      twoCorners).toOption.any fun f => f.members.any fun m =>
        decide (m.tree.root.conditions.length = 1 ∧ m.tree.root.Ignores 2)) = true := by
    decide +kernel
  cases hf : Forest.fit Xoshiro .orderly ⟨⟨2, 0, none, 3, ⟨0, .all, 0⟩⟩, by decide⟩ twoCorners with
  | error e => rw [hf] at hfits; cases hfits
  | ok f =>
    rw [hf] at hfits
    obtain ⟨m, hm, hshape⟩ := List.any_eq_true.1 hfits
    obtain ⟨hcount, hignores⟩ := of_decide_eq_true hshape
    obtain ⟨scale, hscale⟩ : ∃ scale,
        ColumnScale.fit (L := Nat) twoCorners.features = .ok scale := ⟨_, rfl⟩
    have hchanged : FeatureTable.ChangedAt 2 (⟨3, [[1, 2, 3]], by decide⟩ : FeatureTable ℚ)
        ⟨3, [[1, 2, -5]], by decide⟩ := by
      refine ⟨rfl, .cons ⟨rfl, fun i hi => ?_⟩ .nil⟩
      match i with
      | 0 | 1 | i + 3 => rfl
      | 2 => exact absurd rfl hi
    obtain ⟨hpredict, himportance⟩ :=
      ignored_column_spec (K := ℚ) (L := Nat) (R := ℚ) Xoshiro Xoshiro rfl 2
    exact ⟨f, m, scale, rfl, hscale, hm, hignores, hcount, (hpredict m.tree _ _ hignores hchanged).1,
      himportance _ _ twoCorners f hf m hm hignores (by decide) scale (length_of_fit hscale).1
        (length_of_fit hscale).2⟩

end PursuitForest
