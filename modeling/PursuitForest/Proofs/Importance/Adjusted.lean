import Mathlib.Data.List.GetD
import PursuitForest.Proofs.Importance.UnusedColumn
import PursuitForest.Proofs.Pursuit.Separability
/-!
Importance by projectors and separability, of exact scalars.

The share of a condition is an index times magnitudes, and the weight of a tree is its accuracy over a
count, so neither is negative, and nothing negative is added up (`adjustedImportance_nonneg`).

The index of a condition is taken on standardized rows, along its projector in units of the deviations.
The means drop out of the scatter and the deviations cancel, so it is the index on the rows as they are,
along the projector as it was fitted (`Discriminant.index_eq_of_scaled`).
-/

namespace PursuitForest

variable {K L : Type} [OrderedScalar K]

/-! ### Vectors without negative components -/

theorem component_nonneg {v : List K} (hv : ∀ a ∈ v, 0 ≤ a) (j : Nat) : 0 ≤ component v j := by
  have hgetD : 0 ≤ v.getD j 0 := by
    rw [List.getD_eq_getElem?_getD]
    cases hj : v[j]? with
    | none => exact le_rfl
    | some a => exact hv a (List.mem_of_getElem? hj)
  unfold component
  split
  · next x => exact hv x List.mem_cons_self
  · exact hgetD

theorem zeros_nonneg (width : Nat) : ∀ a ∈ zeros (F := K) width, 0 ≤ a := fun _ ha =>
  (List.eq_of_mem_replicate ha).ge

theorem addVectors_nonneg {u v : List K} (hu : ∀ a ∈ u, 0 ≤ a) (hv : ∀ a ∈ v, 0 ≤ a) :
    Ends (fun _ => True) (fun w => ∀ a ∈ w, 0 ≤ a) (addVectors (L := L) u v) := by
  unfold addVectors broadcast
  split
  · refine .ok fun a ha => ?_
    obtain ⟨j, -, rfl⟩ := List.mem_map.1 ha
    exact add_nonneg (component_nonneg hu j) (component_nonneg hv j)
  · exact .error trivial

section
variable [Label L] {lambda : K} {d : GroupedDataset K L} {scale : ColumnScale K}

/-! ### Shares and weights -/

/-- The index of the two sides of a condition weighs magnitudes. -/
theorem conditionImportance_nonneg (h₀ : 0 ≤ lambda) (h₁ : lambda ≤ 1) {c : Node.Condition K L}
    {share : List K} (h : conditionImportance lambda d scale c = .ok (some share)) :
    ∀ a ∈ share, 0 ≤ a := by
  unfold conditionImportance at h
  split at h
  · cases h
  · obtain ⟨data, -, h⟩ := bind_eq_ok_iff.1 h
    obtain ⟨projector, -, h⟩ := bind_eq_ok_iff.1 h
    obtain ⟨i, hi, h⟩ := bind_eq_ok_iff.1 h
    cases h
    have hindex := Discriminant.mem_unit_of_index_eq_ok (p := ⟨lambda⟩) h₀ h₁ hi
    intro a ha
    obtain ⟨b, -, rfl⟩ := List.mem_map.1 ha
    exact mul_nonneg hindex.1 (abs_nonneg b)

variable {R : Type} [OrderedScalar R]

/-- No more than all predictions are wrong. -/
theorem Confusion.error_le_one (m : Confusion L) : (m.error : R) ≤ 1 := by
  unfold Confusion.error
  split
  · exact zero_le_one
  · exact sub_le_self 1 (div_nonneg (Nat.cast_nonneg _) (Nat.cast_nonneg _))

/-- Adding up shares leaves no component negative. -/
theorem foldlM_conditionImportance_nonneg (h₀ : 0 ≤ lambda) (h₁ : lambda ≤ 1)
    (conditions : List (Node.Condition K L)) (width : Nat) :
    Ends (fun _ => True) (fun v => ∀ a ∈ v, 0 ≤ a)
      (conditions.foldlM (fun total c => do
        match ← conditionImportance lambda d scale c with
        | none => return total
        | some share => addVectors total share) (zeros width)) := by
  refine Ends.foldlM (zeros_nonneg width) fun c _ total htotal => ?_
  cases hshare : conditionImportance lambda d scale c with
  | error e => exact .error trivial
  | ok share =>
    cases share with
    | none => exact .ok htotal
    | some share => exact addVectors_nonneg htotal (conditionImportance_nonneg h₀ h₁ hshare)

/-- No component of the importance is negative, in whatever units the rows are. -/
theorem adjustedImportance_nonneg [Rated K R] (hrate : ∀ r : R, r ≤ 1 → (Rated.ofRate r : K) ≤ 1)
    {m : Member K L} (h₀ : 0 ≤ m.tree.settings.lambda) (h₁ : m.tree.settings.lambda ≤ 1) {v : List K}
    (h : adjustedImportance m scale = .ok v) : ∀ a ∈ v, 0 ≤ a := by
  obtain ⟨-, -, h⟩ := bind_eq_ok_iff.1 h
  obtain ⟨sample, -, h⟩ := bind_eq_ok_iff.1 h
  split at h
  · cases h
    exact zeros_nonneg _
  · obtain ⟨standardized, -, h⟩ := bind_eq_ok_iff.1 h
    obtain ⟨total, htotal, h⟩ := bind_eq_ok_iff.1 h
    obtain ⟨error, herror, h⟩ := bind_eq_ok_iff.1 h
    cases h
    have hnonneg : ∀ a ∈ total, 0 ≤ a :=
      (foldlM_conditionImportance_nonneg h₀ h₁ m.tree.root.conditions _).of_eq_ok htotal
    obtain ⟨tally, -, herror⟩ := bind_eq_ok_iff.1 herror
    cases herror
    have hweight : 0 ≤ (1 - Rated.ofRate (tally.error : R) : K) / Scalar.ofNat (sample.groupCount - 1) :=
      div_nonneg (sub_nonneg.2 (hrate _ tally.error_le_one)) (Nat.cast_nonneg _)
    intro a ha
    obtain ⟨b, hb, rfl⟩ := List.mem_map.1 ha
    exact mul_nonneg (hnonneg b hb) hweight

end

/-! ### Standardized rows -/

section
variable {scale : ColumnScale K}

/-- Every column of standardized rows is shifted by its mean and in units of its deviation. -/
theorem ColumnScale.recolumned [Label L] {d : GroupedDataset K L} {width : Nat}
    (hmean : scale.mean.length = d.width) (hdeviation : scale.deviation.length = d.width)
    (hwidth : width = d.width) :
    Recolumned d width (Fin.cast hwidth) (fun i => scale.mean.getD i 0)
      (fun i => scale.deviation.getD i 0) (scale.scaleRow d.width) where
  getD_eq r hr i := by
    have hi : (i : Nat) < d.width := hwidth ▸ i.isLt
    have hget : ∀ {v : List K}, v.length = d.width → component v i = v.getD i 0 := fun hv => by
      rw [component_of_lt (hv ▸ hi), List.getD_eq_getElem]
    rw [scaleRow, List.getD_eq_getElem _ _ (by simpa using hi), List.getElem_map, List.getElem_range,
      hget hr, hget hmean, hget hdeviation]
    rfl

theorem spread_pos (xs : List K) : 0 < ColumnScale.spread xs := by
  unfold ColumnScale.spread
  split
  · exact zero_lt_one
  · dsimp only
    split
    · next h => exact h
    · exact zero_lt_one

/-- A column without spread is scaled by one, so deviations are positive. -/
theorem deviation_pos_of_fit {x : FeatureTable K} (h : ColumnScale.fit (L := L) x = .ok scale) :
    ∀ s ∈ scale.deviation, 0 < s := by
  unfold ColumnScale.fit at h
  split at h
  · cases h
  · cases h
    intro s hs
    obtain ⟨j, -, rfl⟩ := List.mem_map.1 hs
    exact spread_pos _

variable [Label L] {d e : GroupedDataset K L} {projector scaled : List K} {p : Discriminant K}

/-- The index of standardized rows along a projector in units of the deviations is the index of the rows
along the projector. -/
theorem Discriminant.index_eq_of_scaled (hmean : scale.mean.length = d.width)
    (hdeviation : scale.deviation.length = d.width) (hpos : ∀ s ∈ scale.deviation, 0 < s)
    (h : GroupedDataset.ImageOf (scale.scaleRow d.width) e d) (hwidth : e.width = d.width)
    (hscaled : scaledProjector (L := L) projector scale = .ok scaled)
    (hlength : scaled.length = projector.length) :
    p.index e scaled = p.index d projector := by
  by_cases hp : projector.length = d.width
  · cases hd : d.isEmpty with
    | true =>
      rw [index_of_isEmpty hd hp,
        index_of_isEmpty (h.isEmpty_eq.trans hd) (hlength.trans (hp.trans hwidth.symm))]
    | false =>
      rw [scaledProjector, broadcast_eq_zipWith _ (hp.trans hdeviation.symm)] at hscaled
      cases hscaled
      have hlt : ∀ i : Fin e.width, (i : Nat) < d.width := fun i => hwidth ▸ i.isLt
      refine index_eq_of_image (ColumnScale.recolumned hmean hdeviation hwidth) h
        (Fin.cast_injective hwidth) (fun i => ?_) (fun i => ?_) (fun j hj => ?_) hd hp
        (hlength.trans (hp.trans hwidth.symm))
      · rw [List.getD_eq_getElem _ _ (by rw [hdeviation]; exact hlt i)]
        exact (hpos _ (List.getElem_mem _)).ne'
      · rw [List.getD_eq_getElem _ _ (by simpa [hp, hdeviation] using hlt i), List.getElem_zipWith,
          List.getD_eq_getElem _ _ (by rw [hp]; exact hlt i),
          List.getD_eq_getElem _ _ (by rw [hdeviation]; exact hlt i)]
        rfl
      · exact absurd ⟨Fin.cast hwidth.symm j, rfl⟩ hj
  · rw [index_of_length_ne hp, index_of_length_ne (by rwa [hlength, hwidth]), hlength, hwidth]

end

/-! ### Trees of a forest -/

section
variable [Label L] [Eigensolver K] {G : Type} [RandomSource G] {settings : ForestSettings K}
  {data : GroupedDataset K L} {m : Member K L} {scale : ColumnScale K}

/-- The index of a condition is that of the two groups it separates, in the units they come in. -/
theorem Forest.Trained.exists_index (h : Forest.Trained G settings data m)
    (hmean : scale.mean.length = data.width) (hdeviation : scale.deviation.length = data.width)
    (hpos : ∀ s ∈ scale.deviation, 0 < s) {c : Node.Condition K L}
    (hc : c ∈ m.tree.root.conditions) :
    ∃ sample standardized node rebuilt scaled i, m.sample = .ok sample ∧
      scale.standardize sample = .ok standardized ∧ nodeData sample c = .ok node ∧
      nodeData standardized c = .ok rebuilt ∧
      scaledProjector (L := L) c.projector scale = .ok scaled ∧
      (Discriminant.mk m.tree.settings.lambda).index rebuilt scaled = .ok i ∧
      (Discriminant.mk m.tree.settings.lambda).index node c.projector = .ok i ∧
      conditionImportance m.tree.settings.lambda standardized scale c =
        .ok (some (scaled.map fun a => i * Scalar.abs a)) := by
  obtain ⟨g', hgrow⟩ := h.grows
  obtain ⟨two, hfit⟩ := exists_fitted hgrow hc
  have hsplits := (spans_of_grow hgrow).splits hc
  obtain ⟨standardized, hstandardized, hwidth, himage⟩ := ColumnScale.standardize_eq_ok
    (d := (BootstrapDraw.stratified data (RandomSource.ofSeed m.seed : G)).1.sampleData) hmean
  obtain ⟨rebuilt, hrebuilt, hrebuiltWidth, hrebuiltImage, hpresent, -⟩ :=
    nodeData_of_fitted hsplits hfit himage
  obtain ⟨node, hnode, hnodeWidth, hnodeImage, -, hempty⟩ :=
    nodeData_of_fitted hsplits hfit (GroupedDataset.imageOf_id_iff.2 rfl)
  -- both are images of the groups that the projector was fitted on
  have hrows : GroupedDataset.ImageOf (scale.scaleRow node.width) rebuilt node := by
    rw [GroupedDataset.ImageOf, GroupedDataset.imageOf_id_iff.1 hnodeImage, hnodeWidth]
    exact hrebuiltImage
  have hlength : c.projector.length = data.width := length_projector_of_grow hgrow hc
  obtain ⟨scaled, hscaled, hscaledLength⟩ :=
    exists_scaledProjector (L := L) (hlength.trans hdeviation.symm)
  obtain ⟨i, hi⟩ := (Discriminant.mk m.tree.settings.lambda).exists_index hempty
    (hlength.trans hnodeWidth.symm)
  have hindex : (Discriminant.mk m.tree.settings.lambda).index rebuilt scaled = .ok i :=
    (Discriminant.index_eq_of_scaled (hmean.trans hnodeWidth.symm) (hdeviation.trans hnodeWidth.symm)
      hpos hrows (hrebuiltWidth.trans (hwidth.trans hnodeWidth.symm)) hscaled hscaledLength).trans hi
  exact ⟨_, standardized, node, rebuilt, scaled, i, h.sample_eq, hstandardized, hnode, hrebuilt,
    hscaled, hindex, hi, conditionImportance_eq_ok hpresent hrebuilt hscaled hindex⟩

end

/-- Data with rows have an index along every projector of their width, between zero and one, and no
importance of a column in a tree of a forest is negative. -/
theorem index_mem_unit_and_importance_nonneg [Label L] [Eigensolver K] {R : Type} [OrderedScalar R]
    [Rated K R] (G : Type) [RandomSource G] (hrate : ∀ r : R, r ≤ 1 → (Rated.ofRate r : K) ≤ 1) :
    (∀ lambda : K, 0 ≤ lambda → lambda ≤ 1 → ∀ d : GroupedDataset K L, d.isEmpty = false →
      ∀ projector : List K, projector.length = d.width →
        ∃ i, (Discriminant.mk lambda).index d projector = .ok i ∧ 0 ≤ i ∧ i ≤ 1) ∧
    ∀ (crew : Crew) (settings : ForestSettings.Checked K) (d : Dataset K L) (f : Forest K L),
      Forest.fit G crew settings d = .ok f → ∀ m ∈ f.members, ∀ scale : ColumnScale K,
        (∀ v, adjustedImportance m scale = .ok v → ∀ a ∈ v, 0 ≤ a) ∧
        (scale.mean.length = d.width → scale.deviation.length = d.width →
          ∃ v, adjustedImportance m scale = .ok v ∧ v.length = d.width) := by
  refine ⟨fun lambda h₀ h₁ d hd projector hp =>
    Discriminant.exists_index_mem_unit (p := ⟨lambda⟩) h₀ h₁ hd hp, ?_⟩
  intro crew settings d f hf m hm scale
  obtain ⟨index, htrain⟩ := Forest.exists_trainTree_of_fit hf hm
  have hlambda : m.tree.settings.lambda = settings.val.tree.lambda := by
    rw [Forest.settings_of_trainTree htrain]
    rfl
  obtain ⟨-, -, ⟨h₀, h₁⟩, -⟩ := settings.property
  refine ⟨fun v hv => adjustedImportance_nonneg hrate (hlambda ▸ h₀) (hlambda ▸ h₁) hv, ?_⟩
  intro hmean hdeviation
  have htrained := Forest.trained_of_trainTree htrain
  obtain ⟨g', hgrow⟩ := htrained.grows
  exact htrained.exists_adjustedImportance (vectorKind_length d.width)
    (fun c hc => length_projector_of_grow hgrow hc) hmean hdeviation

/-- The trees grown on two corners, half on the spread of the single columns, and the index of a
diagonal. -/
theorem importance_nonneg_twoCorners : ∃ f m scale v i,
    Forest.fit Xoshiro .orderly ⟨⟨2, 0, none, 3, ⟨1 / 2, .all, 0⟩⟩, by decide +kernel⟩ twoCorners = .ok f ∧
      m ∈ f.members ∧ m.tree.root.conditions.length = 1 ∧
      ColumnScale.fit (L := Nat) twoCorners.features = .ok scale ∧
      adjustedImportance m scale = .ok v ∧ v.length = 3 ∧ (∀ a ∈ v, 0 ≤ a) ∧
      (Discriminant.mk (1 / 2)).index (.ofDataset twoCorners) [1, 1, 0] = .ok i ∧ 0 ≤ i ∧ i ≤ 1 := by
  obtain ⟨hindex, himportance⟩ := index_mem_unit_and_importance_nonneg (K := ℚ) (L := Nat) (R := ℚ)
    Xoshiro fun r hr => hr
  obtain ⟨f, hf, hgrown⟩ := exists_ok_of_any (p := fun f : Forest ℚ Nat =>
      ∃ m ∈ f.members, m.tree.root.conditions.length = 1)
    (x := Forest.fit Xoshiro .orderly ⟨⟨2, 0, none, 3, ⟨1 / 2, .all, 0⟩⟩, by decide +kernel⟩ twoCorners)
    (by decide +kernel)
  obtain ⟨m, hm, hcount⟩ := hgrown
  obtain ⟨scale, hscale⟩ : ∃ scale,
      ColumnScale.fit (L := Nat) twoCorners.features = .ok scale := ⟨_, rfl⟩
  obtain ⟨hnonneg, hexists⟩ := himportance _ _ twoCorners f hf m hm scale
  obtain ⟨v, hv, hlength⟩ := hexists (length_of_fit hscale).1 (length_of_fit hscale).2
  obtain ⟨i, hi, hmem⟩ := hindex (1 / 2) (by decide +kernel) (by decide +kernel)
    (.ofDataset twoCorners) rfl [1, 1, 0] rfl
  exact ⟨f, m, scale, v, i, hf, hm, hcount, hscale, hv, hlength, hnonneg v hv, hi, hmem⟩

/-- The index of standardized data along a projector in units of the deviations is the index of the data
along the projector, and so is every index that the importance in a tree of a forest is weighed with. -/
theorem index_standardized [Label L] [Eigensolver K] (G : Type) [RandomSource G] :
    (∀ (d : GroupedDataset K L) (scale : ColumnScale K), scale.mean.length = d.width →
      scale.deviation.length = d.width → (∀ s ∈ scale.deviation, 0 < s) →
        ∃ e, scale.standardize d = .ok e ∧ e.width = d.width ∧
          GroupedDataset.ImageOf (scale.scaleRow d.width) e d ∧
          ∀ (lambda : K) (projector : List K),
            (projector.length = d.width → scaledProjector (L := L) projector scale =
              .ok (List.zipWith (· * ·) projector scale.deviation)) ∧
            ∀ scaled, scaledProjector (L := L) projector scale = .ok scaled →
              scaled.length = projector.length → (Discriminant.mk lambda).index e scaled =
                (Discriminant.mk lambda).index d projector) ∧
    ∀ (settings : ForestSettings K) (data : GroupedDataset K L) (index : Nat) (m : Member K L)
      (x : FeatureTable K) (scale : ColumnScale K), Forest.trainTree G settings data index = .ok m →
        ColumnScale.fit (L := L) x = .ok scale →
          m.tree.checkWidth scale.deviation.length = .ok () →
            ∀ c ∈ m.tree.root.conditions,
              ∃ sample standardized node rebuilt scaled i, m.sample = .ok sample ∧
                scale.standardize sample = .ok standardized ∧ nodeData sample c = .ok node ∧
                nodeData standardized c = .ok rebuilt ∧
                scaledProjector (L := L) c.projector scale = .ok scaled ∧
                (Discriminant.mk m.tree.settings.lambda).index rebuilt scaled = .ok i ∧
                (Discriminant.mk m.tree.settings.lambda).index node c.projector = .ok i ∧
                conditionImportance m.tree.settings.lambda standardized scale c =
                  .ok (some (scaled.map fun a => i * Scalar.abs a)) := by
  constructor
  · intro d scale hmean hdeviation hpos
    obtain ⟨e, he, hwidth, himage⟩ := ColumnScale.standardize_eq_ok hmean
    refine ⟨e, he, hwidth, himage, fun lambda projector => ⟨fun hp => ?_, fun scaled hscaled hlength =>
      Discriminant.index_eq_of_scaled hmean hdeviation hpos himage hwidth hscaled hlength⟩⟩
    exact broadcast_eq_zipWith _ (hp.trans hdeviation.symm)
  · intro settings data index m x scale hm hscale hcheck c hc
    have htrained := Forest.trained_of_trainTree hm
    have hpos := deviation_pos_of_fit hscale
    obtain ⟨g', hgrow⟩ := htrained.grows
    obtain ⟨two, hfit⟩ := exists_fitted hgrow hc
    have hdeviation : scale.deviation.length = data.width := by
      rw [← htrained.width_eq]
      refine width_of_checkWidth hcheck ?_
      rw [htrained.width_eq]
      exact (hfit.length_projector (count_le_of_checkWidth (checkWidth_of_grow hgrow))).2
    have hmean : scale.mean.length = data.width :=
      (length_of_fit hscale).1.trans ((length_of_fit hscale).2.symm.trans hdeviation)
    exact htrained.exists_index hmean hdeviation hpos hc

/-- Two corners in the units of their columns, of which the last has no spread, and the condition of a
tree grown on them. -/
theorem index_standardized_twoCorners : ∃ scale e m c sample standardized node rebuilt scaled i,
    ColumnScale.fit (L := Nat) twoCorners.features = .ok scale ∧
      scale.standardize (.ofDataset twoCorners) = .ok e ∧
      (Discriminant.mk (1 / 2)).index e (List.zipWith (· * ·) [1, 1, 0] scale.deviation) =
        (Discriminant.mk (1 / 2)).index (.ofDataset twoCorners) [1, 1, 0] ∧
      Forest.trainTree Xoshiro ⟨2, 0, none, 3, ⟨1 / 2, .all, 0⟩⟩ (.ofDataset twoCorners) 0 = .ok m ∧
      c ∈ m.tree.root.conditions ∧ m.sample = .ok sample ∧
      scale.standardize sample = .ok standardized ∧ nodeData sample c = .ok node ∧
      nodeData standardized c = .ok rebuilt ∧
      scaledProjector (L := Nat) c.projector scale = .ok scaled ∧
      (Discriminant.mk m.tree.settings.lambda).index rebuilt scaled = .ok i ∧
      (Discriminant.mk m.tree.settings.lambda).index node c.projector = .ok i := by
  obtain ⟨hdata, htree⟩ := index_standardized (K := ℚ) (L := Nat) Xoshiro
  obtain ⟨m, hm, hcount, hwidth⟩ := exists_ok_of_any (p := fun m : Member ℚ Nat =>
      m.tree.root.conditions.length = 1 ∧ m.tree.width = 3)
    (x := Forest.trainTree Xoshiro ⟨2, 0, none, 3, ⟨1 / 2, .all, 0⟩⟩ (.ofDataset twoCorners) 0)
    (by decide +kernel)
  obtain ⟨scale, hscale⟩ : ∃ scale,
      ColumnScale.fit (L := Nat) twoCorners.features = .ok scale := ⟨_, rfl⟩
  obtain ⟨hmean, hdeviation⟩ := length_of_fit hscale
  obtain ⟨e, he, -, -, hindex⟩ :=
    hdata (.ofDataset twoCorners) scale hmean hdeviation (deviation_pos_of_fit hscale)
  obtain ⟨hscaled, heq⟩ := hindex (1 / 2) [1, 1, 0]
  obtain ⟨c, hc⟩ := List.exists_mem_of_length_pos (by rw [hcount]; exact Nat.one_pos)
  have hcheck : m.tree.checkWidth scale.deviation.length = .ok () := by
    rw [hdeviation, Tree.checkWidth, hwidth]
    rfl
  obtain ⟨sample, standardized, node, rebuilt, scaled, i, hsample, hstandardized, hnode, hrebuilt,
    hprojector, hi, hi', -⟩ := htree _ _ 0 m _ scale hm hscale hcheck c hc
  have hlength : scale.deviation.length = 3 := hdeviation
  exact ⟨scale, e, m, c, sample, standardized, node, rebuilt, scaled, i, hscale, he,
    heq _ (hscaled rfl) (by rw [List.length_zipWith, hlength]; rfl), hm, hc, hsample, hstandardized,
    hnode, hrebuilt, hprojector, hi, hi'⟩

end PursuitForest
