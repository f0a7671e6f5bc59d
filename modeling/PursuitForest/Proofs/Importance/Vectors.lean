import PursuitForest.Importance.Model
import PursuitForest.Proofs.Confusion.Tally
import PursuitForest.Proofs.Dataset.StableSort
import PursuitForest.Proofs.Importance.NodeData
import PursuitForest.Proofs.Tree.Folding
import PursuitForest.Proofs.Tree.Prediction
import PursuitForest.Proofs.Tree.UnusedColumn
/-!
What the rankings come to.

The rankings by projectors scale the projectors of all conditions, weigh them and add them up. They come
to a vector, of any kind that the projectors are of and that is closed under these steps
(`VectorKind`): vectors of one length are such a kind, whatever the scalars, and so are vectors that
vanish in a column. The ranking by permutation comes to a loss for every column
(`Forest.Trained.exists_permutationImportance`).
-/

namespace PursuitForest

/-! ### Vectors of one length -/

section
variable {F L : Type} [Scalar F]

theorem component_of_lt {v : List F} {i : Nat} (h : i < v.length) : component v i = v[i] := by
  unfold component
  split
  · next x =>
    obtain rfl : i = 0 := Nat.lt_one_iff.1 h
    rfl
  · simp [h]

/-- Vectors of one length are combined place by place. -/
theorem broadcast_eq_zipWith (f : F → F → F) {u v : List F} (h : u.length = v.length) :
    broadcast (L := L) f u v = .ok (List.zipWith f u v) := by
  have hlength : commonLength u.length v.length = some u.length := if_pos h
  rw [broadcast, hlength]
  refine congrArg Except.ok (List.ext_getElem (by simp [h]) fun i hi hi' => ?_)
  have hu : i < u.length := by simpa using hi
  rw [List.getElem_map, List.getElem_range, List.getElem_zipWith, component_of_lt hu,
    component_of_lt (h ▸ hu)]

/-- A kind of vectors of one length that is closed under what is done with the shares of conditions.
-/
structure VectorKind (width : Nat) (P : List F → Prop) : Prop where
  length_eq : ∀ {v}, P v → v.length = width
  zeros : P (zeros width)
  add : ∀ {u v}, P u → P v → P (List.zipWith (· + ·) u v)
  scale : ∀ {v} (deviation : List F), deviation.length = width → P v →
    P (List.zipWith (· * ·) v deviation)
  divide : ∀ {v} (count : Nat), P v → P (v.map fun a => Scalar.abs a / Scalar.ofNat count)
  weigh : ∀ {v} (index : F), P v → P (v.map fun a => index * Scalar.abs a)
  rate : ∀ {v} (weight : F), P v → P (v.map (· * weight))

/-- All vectors of a length. -/
theorem vectorKind_length (width : Nat) : VectorKind width fun v : List F => v.length = width where
  length_eq h := h
  zeros := List.length_replicate
  add hu hv := by rw [List.length_zipWith, hu, hv, Nat.min_self]
  scale deviation hd hv := by rw [List.length_zipWith, hv, hd, Nat.min_self]
  divide count hv := by rw [List.length_map, hv]
  weigh index hv := by rw [List.length_map, hv]
  rate weight hv := by rw [List.length_map, hv]

namespace VectorKind

variable {width : Nat} {P : List F → Prop}

theorem exists_addVectors (hP : VectorKind width P) {u v : List F} (hu : P u) (hv : P v) :
    ∃ w, addVectors (L := L) u v = .ok w ∧ P w :=
  ⟨_, broadcast_eq_zipWith _ ((hP.length_eq hu).trans (hP.length_eq hv).symm), hP.add hu hv⟩

theorem exists_scaledProjector (hP : VectorKind width P) {projector : List F} {scale : ColumnScale F}
    (h : P projector) (hdeviation : scale.deviation.length = width) :
    ∃ p, scaledProjector (L := L) projector scale = .ok p ∧ P p :=
  ⟨_, broadcast_eq_zipWith _ ((hP.length_eq h).trans hdeviation.symm), hP.scale _ hdeviation h⟩

end VectorKind

end

variable {F L : Type} [Scalar F] [Label L] {width : Nat} {P : List F → Prop} {scale : ColumnScale F}

/-! ### By projectors -/

/-- The fold over conditions with projectors of a kind ends with a vector of that kind. -/
theorem VectorKind.exists_foldM (hP : VectorKind width P) (hdeviation : scale.deviation.length = width) :
    ∀ {node : Node F L}, (∀ c : Node.Condition F L, c.toNode ∈ node.subtrees → P c.projector) →
      ∃ v, node.foldM (m := Except (Error F L)) (fun _ => pure (PursuitForest.zeros width))
        (fun c lower upper => do
          let scaled ← scaledProjector c.projector scale
          let own := scaled.map fun a => Scalar.abs a / Scalar.ofNat c.classes.size
          addVectors (← addVectors lower upper) own) = .ok v ∧ P v
  | .response value, _ => ⟨PursuitForest.zeros width, rfl, hP.zeros⟩
  | .condition projector threshold classes lower upper, h => by
      obtain ⟨u, hu, hPu⟩ := hP.exists_foldM hdeviation fun c hc =>
        h c (List.mem_cons_of_mem _ (List.mem_append_left _ hc))
      obtain ⟨v, hv, hPv⟩ := hP.exists_foldM hdeviation fun c hc =>
        h c (List.mem_cons_of_mem _ (List.mem_append_right _ hc))
      have hself := h ⟨projector, threshold, classes, lower, upper⟩ List.mem_cons_self
      obtain ⟨scaled, hscaled, hPscaled⟩ := hP.exists_scaledProjector (L := L) hself hdeviation
      obtain ⟨sum, hsum, hPsum⟩ := hP.exists_addVectors (L := L) hPu hPv
      obtain ⟨w, hw, hPw⟩ := hP.exists_addVectors (L := L) hPsum
        (hP.divide (LabelSet.size classes) hPscaled)
      refine ⟨w, ?_, hPw⟩
      rw [Node.foldM, hu, hv]
      simp only [bind, Except.bind, hscaled, hsum, hw]

theorem VectorKind.exists_projectorImportance (hP : VectorKind width P) {t : Tree F L}
    (hwidth : t.width = width) (hdeviation : scale.deviation.length = width)
    (h : ∀ c ∈ t.root.conditions, P c.projector) :
    ∃ v, projectorImportance t scale = .ok v ∧ P v := by
  obtain ⟨v, hv, hPv⟩ := hP.exists_foldM hdeviation fun c hc => h c (Node.mem_conditions.2 hc)
  have hcheck : t.checkWidth width = .ok () := if_neg fun hne => hne.1 hwidth.symm
  refine ⟨v, ?_, hPv⟩
  rw [projectorImportance, hdeviation, hcheck, Node.foldStack_eq, hv]
  rfl

/-! ### By projectors and separability -/

section
variable [Eigensolver F] {G : Type} [RandomSource G] {settings : TreeSettings F}
  {sample two : GroupedDataset F L} {g : G} {c : Node.Condition F L}

/-- The share of a condition is of the kind of its projector. -/
theorem VectorKind.exists_conditionImportance (hP : VectorKind width P) {lambda : F}
    {f : List F → List F} {d : GroupedDataset F L}
    (hsplits : c.classes.Splits c.lower.classes c.upper.classes)
    (hfit : Fitted settings (Builder.start sample g) c two) (hd : GroupedDataset.ImageOf f d sample)
    (hwidth : d.width = width) (hdeviation : scale.deviation.length = width)
    (h : P c.projector) :
    ∃ share, conditionImportance lambda d scale c = .ok (some share) ∧ P share := by
  obtain ⟨rebuilt, hrebuilt, hrebuiltWidth, -, hpresent, hempty⟩ := nodeData_of_fitted hsplits hfit hd
  obtain ⟨projector, hprojector, hPprojector⟩ := hP.exists_scaledProjector (L := L) h hdeviation
  have hlength : projector.length = rebuilt.width := by
    rw [hP.length_eq hPprojector, hrebuiltWidth, hwidth]
  obtain ⟨index, hindex⟩ := (Discriminant.mk lambda).exists_index hempty hlength
  exact ⟨_, conditionImportance_eq_ok hpresent hrebuilt hprojector hindex,
    hP.weigh index hPprojector⟩

end

/-! ### By permutation -/

section
variable {R : Type} [Scalar R] {t : Tree F L}

theorem exists_accuracyOn {x : FeatureTable F} {y : List L}
    (h : ∀ r ∈ x.rows, ∃ label, t.predictRow r = .ok label) (hsize : x.size = y.length) :
    ∃ a : R, accuracyOn t x y = .ok a := by
  obtain ⟨labels, hlabels, hlength⟩ := exists_predict h
  obtain ⟨tally, htally, -⟩ := Confusion.exists_tally (F := F) (hlength.trans hsize)
  exact ⟨tally.accuracy, by rw [accuracyOn, hlabels]; simp only [bind, Except.bind, htally]; rfl⟩

/-- Reordering a column changes nothing but the column. -/
theorem changedAt_of_reorderColumn {F L : Type} {j : Nat} {x y : FeatureTable F} {order : List Nat}
    (h : x.reorderColumn (L := L) j order = .ok y) (horder : order.length = x.size) :
    x.ChangedAt j y := by
  unfold FeatureTable.reorderColumn at h
  split at h
  · cases h
  · cases h
    refine ⟨rfl, List.forall₂_iff_get.2 ⟨by simp [horder, FeatureTable.size], fun i hi hi' => ?_⟩⟩
    simp only [List.get_eq_getElem, List.getElem_zipWith]
    split
    · exact ⟨(List.length_set ..).symm, fun k hk => (List.getElem?_set_ne (Ne.symm hk)).symm⟩
    · exact ⟨rfl, fun _ _ => rfl⟩

variable {G : Type} [RandomSource G] [Rated F R]

/-- The loss of each column is that of a table which differs in the column at most. There is no error
on the way, where rows of the given width are predicted. -/
theorem exists_columnLosses {x : FeatureTable F} {y : List L} {baseline : R} {Q : Nat → F → Prop}
    (hpredict : ∀ r : List F, r.length = x.width → ∃ label, t.predictRow r = .ok label)
    (hsize : x.size = y.length)
    (hQ : ∀ k z (a : R), x.ChangedAt k z → accuracyOn t z y = .ok a →
      Q k (Rated.ofRate (baseline - a))) :
    ∀ {columns order : List Nat} {g : G}, (∀ k ∈ columns, k < x.width) → order.length = x.size →
      ∃ losses, columnLosses t x y baseline columns order g = .ok losses ∧
        List.Forall₂ Q columns losses
  | [], _, _, _, _ => ⟨[], rfl, .nil⟩
  | k :: columns, order, g, hcolumns, horder => by
      obtain ⟨hk, hcolumns⟩ := List.forall_mem_cons.1 hcolumns
      obtain ⟨next, g', hshuffle⟩ : ∃ next g', shuffle order g = (next, g') := ⟨_, _, rfl⟩
      have hshuffled : next.length = x.size := by
        have hlength := (shuffle_perm order g).length_eq
        rw [hshuffle] at hlength
        exact hlength.trans horder
      obtain ⟨z, hz⟩ : ∃ z, x.reorderColumn (L := L) k next = .ok z :=
        ⟨_, if_neg (Nat.not_le.2 hk)⟩
      have hchanged := changedAt_of_reorderColumn hz hshuffled
      obtain ⟨a, ha⟩ : ∃ a : R, accuracyOn t z y = .ok a :=
        exists_accuracyOn (fun r hr => hpredict r ((z.shaped r hr).trans hchanged.width_eq.symm))
          (hchanged.size_eq.symm.trans hsize)
      obtain ⟨losses, hlosses, hall⟩ := exists_columnLosses hpredict hsize hQ
        (g := g') hcolumns hshuffled
      refine ⟨Rated.ofRate (baseline - a) :: losses, ?_, .cons (hQ k z a hchanged ha) hall⟩
      rw [columnLosses, hshuffle]
      simp only [bind, Except.bind, hz, ha, hlosses]
      rfl

end

/-! ### Trees of a forest -/

namespace Forest.Trained

variable [Eigensolver F] {G : Type} [RandomSource G] {settings : ForestSettings F}
  {data : GroupedDataset F L} {m : Member F L}

theorem checkWidth_eq (h : Trained G settings data m) (hwidth : width = data.width) :
    m.tree.checkWidth width = .ok () :=
  if_neg fun hne => hne.1 (hwidth.trans h.width_eq.symm)

theorem exists_predictRow_of_width (h : Trained G settings data m) {r : List F}
    (hr : r.length = data.width) : ∃ label, m.tree.predictRow r = .ok label := by
  obtain ⟨g', hgrow⟩ := h.grows
  exact exists_predictRow_of_grow hgrow hr

theorem outOfBag_eq (h : Trained G settings data m) : m.outOfBag = .ok
    (BootstrapDraw.stratified data (RandomSource.ofSeed m.seed : G)).1.outOfBagData := by
  rw [Member.outOfBag, Member.requireDraw, h.draw_eq]
  rfl

theorem sample_eq (h : Trained G settings data m) : m.sample = .ok
    (BootstrapDraw.stratified data (RandomSource.ofSeed m.seed : G)).1.sampleData := by
  rw [Member.sample, Member.requireDraw, h.draw_eq]
  rfl

/-- The error on the rows that a tree was not grown on can be had. -/
theorem exists_outOfBagError {R : Type} [Scalar R] (h : Trained G settings data m) :
    ∃ e : R, m.outOfBagError = .ok e := by
  obtain ⟨labels, hlabels, hlength⟩ := exists_predict (t := m.tree)
    (x := (BootstrapDraw.stratified data (RandomSource.ofSeed m.seed : G)).1.outOfBagData.features)
    fun r hr => h.exists_predictRow_of_width (FeatureTable.shaped _ r hr)
  obtain ⟨tally, htally, -⟩ := Confusion.exists_tally (F := F)
    (hlength.trans (GroupedDataset.length_labels _).symm)
  refine ⟨tally.error, ?_⟩
  rw [Member.outOfBagError, Member.outOfBagConfusion, h.outOfBag_eq]
  simp only [bind, Except.bind, hlabels, htally]
  rfl

variable {R : Type} [Scalar R] [Rated F R]

/-- The importance by projectors and separability is of the kind of the projectors. -/
theorem exists_adjustedImportance (h : Trained G settings data m) (hP : VectorKind data.width P)
    (hprojectors : ∀ c ∈ m.tree.root.conditions, P c.projector)
    (hmean : scale.mean.length = data.width) (hdeviation : scale.deviation.length = data.width) :
    ∃ v, adjustedImportance m scale = .ok v ∧ P v := by
  obtain ⟨g', hgrow⟩ := h.grows
  obtain ⟨standardized, hstandardized, hwidth, himage⟩ := ColumnScale.standardize_eq_ok
    (d := (BootstrapDraw.stratified data (RandomSource.ofSeed m.seed : G)).1.sampleData) hmean
  obtain ⟨e, he⟩ := h.exists_outOfBagError (R := R)
  rw [adjustedImportance, h.checkWidth_eq hdeviation, h.sample_eq, hdeviation]
  refine Ends.exists_ok (Ends.ite (fun _ => hP.zeros) fun _ => ?_)
  rw [hstandardized]
  refine Ends.bind (P := P) (Ends.foldlM hP.zeros fun c hc total htotal => ?_) ?_
  · obtain ⟨two, hfit⟩ := exists_fitted hgrow hc
    obtain ⟨share, hshare, hPshare⟩ := hP.exists_conditionImportance
      ((spans_of_grow hgrow).splits hc) hfit himage hwidth hdeviation (hprojectors c hc)
    obtain ⟨next, hnext, hPnext⟩ := hP.exists_addVectors (L := L) htotal hPshare
    rw [hshare]
    show Ends _ _ (addVectors total share)
    rw [hnext]
    exact hPnext
  · intro total htotal
    rw [he]
    exact hP.rate _ htotal

/-- The importance by permutation is a loss for every column: zero if no row was left out, and that of
a table which differs in the column at most otherwise. -/
theorem exists_permutationImportance (h : Trained G settings data m)
    (hdeviation : scale.deviation.length = data.width) {Q : Nat → F → Prop} (hzero : ∀ k, Q k 0)
    (hQ : ∀ (x z : FeatureTable F) (y : List L) (k : Nat) (baseline a : R), x.ChangedAt k z →
      accuracyOn m.tree x y = .ok baseline → accuracyOn m.tree z y = .ok a →
        Q k (Rated.ofRate (baseline - a)))
    (G' : Type) [RandomSource G'] (seed : UInt64) :
    ∃ v, permutationImportance G' seed m scale = .ok v ∧ List.Forall₂ Q (List.range data.width) v := by
  rw [permutationImportance, h.checkWidth_eq hdeviation, h.outOfBag_eq, hdeviation]
  simp only [bind, Except.bind]
  split
  · refine ⟨_, rfl, List.forall₂_iff_get.2 ⟨by simp, fun i hi hi' => ?_⟩⟩
    simpa using hzero i
  · generalize hrows :
      (BootstrapDraw.stratified data (RandomSource.ofSeed m.seed : G)).1.outOfBagData = rows
    have hwidth : rows.width = data.width := by rw [← hrows]; rfl
    have hsize : rows.features.size = rows.labels.length := rows.length_labels.symm
    have hpredict : ∀ r : List F, r.length = rows.width →
        ∃ label, m.tree.predictRow r = .ok label := fun r hr =>
      h.exists_predictRow_of_width (hr.trans hwidth)
    obtain ⟨baseline, hbaseline⟩ := exists_accuracyOn (R := R)
      (fun r hr => hpredict r (rows.features.shaped r hr)) hsize
    have hcolumns : ∀ k ∈ List.range data.width, k < rows.features.width := fun k hk =>
      (List.mem_range.1 hk).trans_eq hwidth.symm
    have horder : (List.range rows.size).length = rows.features.size := List.length_range
    rw [hbaseline]
    exact exists_columnLosses hpredict hsize
      (fun k z a hchanged ha => hQ rows.features z rows.labels k baseline a hchanged hbaseline ha)
      hcolumns horder

/-- However importance is measured, a tree of a forest gives one to every column. -/
theorem exists_ranked (h : Trained G settings data m) (hmean : scale.mean.length = data.width)
    (hdeviation : scale.deviation.length = data.width) (G' : Type) [RandomSource G'] (r : Ranking) :
    ∃ v, r.ofMember G' m scale = .ok v ∧ v.length = data.width := by
  have hkind := vectorKind_length (F := F) data.width
  obtain ⟨g', hgrow⟩ := h.grows
  have hprojectors : ∀ c ∈ m.tree.root.conditions, c.projector.length = data.width :=
    fun c hc => length_projector_of_grow hgrow hc
  cases r with
  | projector => exact hkind.exists_projectorImportance h.width_eq hdeviation hprojectors
  | adjusted => exact h.exists_adjustedImportance hkind hprojectors hmean hdeviation
  | permutation seed =>
    obtain ⟨v, hv, hlosses⟩ := h.exists_permutationImportance hdeviation (Q := fun _ _ => True)
      (fun _ => trivial) (fun _ _ _ _ _ _ _ _ _ => trivial) G' seed
    exact ⟨v, hv, hlosses.length_eq.symm.trans List.length_range⟩

end Forest.Trained

end PursuitForest
