import PursuitForest.Proofs.Archive.Nodes
import PursuitForest.Proofs.Outcomes
/-!
Models that are written and read again.

A tree is restored from its own text exactly if its scalars are finite and it is at most 125
conditions deep, and a forest exactly if that holds of its trees with two conditions less
(`ofText_toText`). Nothing is assumed of scalars and labels but that those in the model are kept.
-/

namespace PursuitForest

/-! ### Settings -/

section
variable {F : Type} (L : Type) [Scalar F]

theorem TreeSettings.exists_check {s : TreeSettings F} (h : s.Valid) :
    ∃ c, s.check (L := L) = .ok c := by
  rw [check, dif_pos h.1, dif_pos h.2]
  exact ⟨_, rfl⟩

theorem ForestSettings.exists_check {s : ForestSettings F} (h : s.Valid) :
    ∃ c, s.check (L := L) = .ok c := by
  obtain ⟨c, hc⟩ := TreeSettings.exists_check L h.2.2
  rw [check, dif_neg h.1, dif_neg h.2.1, hc]
  exact ⟨_, rfl⟩

end

/-! ### Trees -/

variable {F L : Type} [ScalarCodec F] [LabelCodec L] [Label L] {finite : F → Prop}

namespace Tree

variable {t : Tree F L}

/-- A tree of a node that can be written, with projectors of one length. -/
structure Archivable (finite : F → Prop) (t : Tree F L) : Prop where
  root : t.root.Archivable finite
  lengths_eq : ∀ b ∈ t.root.conditions, ∀ c ∈ t.root.conditions,
    b.projector.length = c.projector.length

theorem Archivable.wellFormed (h : t.Archivable finite) : t.toJson.WellFormed :=
  Json.wellFormed_object (List.forall_mem_singleton.2 h.root.wellFormed)

/-- A root is read back exactly if its scalars are finite and it is not too deep. -/
theorem Archivable.rootOfJson_eq_some_iff (h : t.Archivable finite) {depth : Nat} {root : Node F L} :
    rootOfJson depth t.toJson = some root ↔
      (t.root.AllFinite finite ∧ t.root.depth < Json.maxNesting - (depth + 1)) ∧ root = t.root := by
  have hread : (rootOfJson depth t.toJson : Option (Node F L)) =
      if t.root.toJson.sound (Json.maxNesting - (depth + 1)) then Node.ofJson t.root.toJson
      else none := by
    rw [rootOfJson, toJson]
    simp [Json.record?, Json.field?]
  rw [hread, Option.ite_none_right_eq_some, h.root.sound_iff, h.root.ofJson_eq_some_iff]
  tauto

/-- Of 127 containers the tree takes one, and the responses at the bottom take one. -/
theorem Archivable.readAlone_iff (h : t.Archivable finite) {root : Node F L} :
    rootOfJson 0 t.toJson = some root ↔
      (t.root.AllFinite finite ∧ t.depth ≤ 125) ∧ root = t.root := by
  rw [h.rootOfJson_eq_some_iff, depth_eq]
  exact Iff.and (Iff.and Iff.rfl Nat.lt_succ_iff) Iff.rfl

variable [Scalar F]

omit [ScalarCodec F] [LabelCodec L] [Scalar F] in
/-- Projectors of one length have a common width. -/
theorem exists_commonWidth {width : Nat} : ∀ {first : Option Nat} {cs : List (Node.Condition F L)},
    (∀ w ∈ first, w = width) → (∀ c ∈ cs, c.projector.length = width) →
      ∃ w, commonWidth first cs = .ok w
  | first, [], _, _ => ⟨first.getD 0, rfl⟩
  | none, c :: cs, _, hcs => by
      obtain ⟨hc, hcs⟩ := List.forall_mem_cons.1 hcs
      have hfirst : ∀ w ∈ some c.projector.length, w = width := by
        rintro w ⟨⟩
        exact hc
      show ∃ w, commonWidth (some c.projector.length) cs = .ok w
      exact exists_commonWidth hfirst hcs
  | some w, c :: cs, hfirst, hcs => by
      obtain ⟨hc, hcs⟩ := List.forall_mem_cons.1 hcs
      rw [commonWidth, if_pos (hc.trans (hfirst w rfl).symm)]
      exact exists_commonWidth hfirst hcs

/-- A tree with projectors of one length is restored with its root. -/
theorem Archivable.exists_restore (h : t.Archivable finite) :
    ∃ r, restore t.root = .ok r ∧ r.root = t.root := by
  obtain ⟨w, hw⟩ : ∃ w, commonWidth none t.root.conditions = .ok w := by
    cases hcs : t.root.conditions with
    | nil => exact ⟨0, rfl⟩
    | cons c cs =>
      have hall := h.lengths_eq
      rw [hcs] at hall
      exact exists_commonWidth (fun w hw => nomatch hw) fun b hb => hall b hb c List.mem_cons_self
  rw [restore, hw]
  exact ⟨_, rfl, rfl⟩

/-- What becomes of a tree that is written and read again. -/
structure RoundTrips (finite : F → Prop) (t : Tree F L) : Prop where
  /-- Writing succeeds, with a text that spells the folded root. -/
  written : ∃ v, Node.foldStack (m := Id) Node.responseToJson Node.conditionToJson t.root = some v ∧
    Json.parse t.toText = some (.object [("root", v)])
  restored_iff : (∃ r : Tree F L, ofText t.toText = .ok r) ↔
    t.root.AllFinite finite ∧ t.depth ≤ 125
  root_eq : ∀ r : Tree F L, ofText t.toText = .ok r → r.root = t.root
  predictRow_eq : ∀ r : Tree F L, ofText t.toText = .ok r →
    ∀ row, r.predictRow row = t.predictRow row

/-- Reading what was written comes to the root that the written value has. -/
theorem Archivable.ofText_eq (h : t.Archivable finite) : ofText t.toText =
    match (rootOfJson 0 t.toJson : Option (Node F L)) with
    | some root => restore root
    | none => .error .malformedText := by
  rw [ofText, Json.readAs, toText, Json.parse_print h.wellFormed, Option.bind_some]
  cases (rootOfJson 0 t.toJson : Option (Node F L)) <;> rfl

theorem Archivable.ofText_eq_ok_iff (h : t.Archivable finite) {r : Tree F L} :
    ofText t.toText = .ok r ↔
      (t.root.AllFinite finite ∧ t.depth ≤ 125) ∧ restore t.root = .ok r := by
  rw [h.ofText_eq]
  cases hread : (rootOfJson 0 t.toJson : Option (Node F L)) with
  | some root =>
    obtain ⟨hallowed, rfl⟩ := h.readAlone_iff.1 hread
    exact ⟨fun hr => ⟨hallowed, hr⟩, fun hr => hr.2⟩
  | none =>
    refine ⟨fun hr => (nomatch hr), fun hr => ?_⟩
    rw [h.readAlone_iff.2 ⟨hr.1, rfl⟩] at hread
    cases hread

/-- What cannot be read back is refused. -/
theorem Archivable.ofText_eq_error (h : t.Archivable finite)
    (hnot : ¬ (t.root.AllFinite finite ∧ t.depth ≤ 125)) :
    (ofText t.toText : Except (Error F L) (Tree F L)) = .error .malformedText := by
  rw [h.ofText_eq]
  cases hread : (rootOfJson 0 t.toJson : Option (Node F L)) with
  | none => rfl
  | some root => exact absurd (h.readAlone_iff.1 hread).1 hnot

theorem Archivable.roundTrips (h : t.Archivable finite) : t.RoundTrips finite := by
  obtain ⟨restored, hrestored, hroot⟩ := h.exists_restore
  have hroot_eq : ∀ r : Tree F L, ofText t.toText = .ok r → r.root = t.root := fun r hr => by
    have hr := (h.ofText_eq_ok_iff.1 hr).2
    rw [hrestored] at hr
    cases hr
    exact hroot
  refine ⟨⟨t.root.toJson, t.root.foldStack_toJson, Json.parse_print h.wellFormed⟩, ⟨?_, ?_⟩,
    hroot_eq, fun r hr row => ?_⟩
  · rintro ⟨r, hr⟩
    exact (h.ofText_eq_ok_iff.1 hr).1
  · intro hallowed
    exact ⟨restored, h.ofText_eq_ok_iff.2 ⟨hallowed, hrestored⟩⟩
  · rw [predictRow, predictRow, hroot_eq r hr]

end Tree

/-! ### Forests -/

namespace Forest

variable {f : Forest F L}

theorem wellFormed_toJson (h : ∀ m ∈ f.members, m.tree.Archivable finite) : f.toJson.WellFormed := by
  refine Json.wellFormed_object (List.forall_mem_singleton.2 (Json.wellFormed_array fun v hv => ?_))
  obtain ⟨m, hm, rfl⟩ := List.mem_map.1 hv
  exact (h m hm).wellFormed

/-- The roots of all trees are read back in order, or none is. -/
theorem rootsOfJson_eq_some_iff (h : ∀ m ∈ f.members, m.tree.Archivable finite)
    {roots : List (Node F L)} : rootsOfJson f.toJson = some roots ↔
      (∀ m ∈ f.members, m.tree.root.AllFinite finite ∧ m.tree.depth ≤ 123) ∧
        roots = f.members.map (·.tree.root) := by
  have hread : (rootsOfJson f.toJson : Option (List (Node F L))) =
      f.members.mapM fun m => Tree.rootOfJson 2 m.tree.toJson := by
    rw [rootsOfJson, toJson]
    simp [Json.record?, Json.field?, Function.comp_def]
  rw [hread]
  refine mapM_eq_some_iff fun m hm root => ?_
  rw [(h m hm).rootOfJson_eq_some_iff, Tree.depth_eq]
  exact Iff.and (Iff.and Iff.rfl Nat.lt_succ_iff) Iff.rfl

variable [Scalar F]

/-- What becomes of a forest that is written and read again. -/
structure RoundTrips (finite : F → Prop) (f : Forest F L) : Prop where
  /-- Writing succeeds, with a text that spells the folded roots. -/
  written : ∃ vs : List Json, (f.members.map fun m => Node.foldStack (m := Id) Node.responseToJson
      Node.conditionToJson m.tree.root) = vs.map some ∧
    Json.parse f.toText = some (.object [("trees", .array (vs.map fun v => .object [("root", v)]))])
  restored_iff : (∃ r : Forest F L, ofText f.toText = .ok r) ↔
    ∀ m ∈ f.members, m.tree.root.AllFinite finite ∧ m.tree.depth ≤ 123
  roots_eq : ∀ r : Forest F L, ofText f.toText = .ok r →
    r.members.map (·.tree.root) = f.members.map (·.tree.root)
  votes_eq : ∀ r : Forest F L, ofText f.toText = .ok r → ∀ x, r.votes x = f.votes x

omit [ScalarCodec F] [LabelCodec L] in
/-- Forests of the same roots vote alike. -/
theorem votes_congr {f g : Forest F L}
    (h : f.members.map (·.tree.root) = g.members.map (·.tree.root)) (x : FeatureTable F) :
    f.votes x = g.votes x := by
  have hpredict : ∀ f : Forest F L, (f.members.mapM fun m => m.tree.predict x) =
      (f.members.map (·.tree.root)).mapM fun root => x.rows.mapM root.predictRow := fun f => by
    rw [List.mapM_map]
    rfl
  rw [votes, votes, hpredict, hpredict, h]

omit [Scalar F] in
theorem readAs_toText (h : ∀ m ∈ f.members, m.tree.Archivable finite) {roots : List (Node F L)} :
    (Json.readAs rootsOfJson f.toText : Except (Error F L) (List (Node F L))) = .ok roots ↔
      rootsOfJson f.toJson = some roots := by
  rw [Json.readAs, toText, Json.parse_print (wellFormed_toJson h), Option.bind_some]
  cases (rootsOfJson f.toJson : Option (List (Node F L))) <;> simp

/-- What is read back is restored, with the same roots in the same order. -/
theorem exists_ofText (hdefault : (TreeSettings.default : TreeSettings F).Valid)
    (hf : f.members ≠ []) (h : ∀ m ∈ f.members, m.tree.Archivable finite)
    (hallowed : ∀ m ∈ f.members, m.tree.root.AllFinite finite ∧ m.tree.depth ≤ 123) :
    ∃ r : Forest F L, ofText f.toText = .ok r ∧
      r.members.map (·.tree.root) = f.members.map (·.tree.root) := by
  have hroots := (readAs_toText h).2 ((rootsOfJson_eq_some_iff h).2 ⟨hallowed, rfl⟩)
  have hsize : (f.members.map (·.tree.root)).length ≠ 0 := by simpa using hf
  have hvalid : (ForestSettings.ofSize (f.members.map (·.tree.root)).length : ForestSettings F).Valid :=
    ⟨hsize, nofun, hdefault⟩
  obtain ⟨settings, hsettings⟩ := ForestSettings.exists_check L hvalid
  obtain ⟨trees, htrees, hmap⟩ : ∃ trees, (f.members.map (·.tree.root)).mapM Tree.restore = .ok trees ∧
      trees.map (·.root) = f.members.map (·.tree.root) := by
    rw [List.mapM_map]
    exact exists_mapM_eq_ok fun m hm => (h m hm).exists_restore
  refine ⟨⟨trees.map fun t => ⟨t, none⟩, settings.val, none⟩, ?_, ?_⟩
  · rw [ofText, hroots]
    show ((ForestSettings.ofSize _).check >>= _) = _
    rw [hsettings]
    show (List.mapM Tree.restore _ >>= _) = _
    rw [htrees]
    rfl
  · rw [List.map_map]
    exact hmap

theorem roundTrips (hdefault : (TreeSettings.default : TreeSettings F).Valid)
    (hf : f.members ≠ []) (h : ∀ m ∈ f.members, m.tree.Archivable finite) : f.RoundTrips finite := by
  have hallowed : ∀ r : Forest F L, ofText f.toText = .ok r →
      ∀ m ∈ f.members, m.tree.root.AllFinite finite ∧ m.tree.depth ≤ 123 := fun r hr => by
    obtain ⟨roots, hroots, -⟩ := bind_eq_ok_iff.1 hr
    exact ((rootsOfJson_eq_some_iff h).1 ((readAs_toText h).1 hroots)).1
  have hroots : ∀ r : Forest F L, ofText f.toText = .ok r →
      r.members.map (·.tree.root) = f.members.map (·.tree.root) := fun r hr => by
    obtain ⟨restored, hrestored, hroots⟩ := exists_ofText hdefault hf h (hallowed r hr)
    rw [hrestored] at hr
    cases hr
    exact hroots
  refine ⟨⟨f.members.map fun m => m.tree.root.toJson, ?_, ?_⟩, ⟨?_, ?_⟩, hroots, ?_⟩
  · rw [List.map_map]
    exact List.map_congr_left fun m _ => m.tree.root.foldStack_toJson
  · rw [toText, Json.parse_print (wellFormed_toJson h), List.map_map]
    rfl
  · rintro ⟨r, hr⟩
    exact hallowed r hr
  · intro hall
    obtain ⟨r, hr, -⟩ := exists_ofText hdefault hf h hall
    exact ⟨r, hr⟩
  · exact fun r hr => votes_congr (hroots r hr)

end Forest

/-- What is written of trees and forests is read back exactly as far as scalars are finite and trees
are not too deep: 125 conditions deep for a tree that stands alone, 123 in a forest. What is read
back has the same roots, in the same order. -/
theorem ofText_toText (finite : F → Prop) [Scalar F]
    (hdefault : (TreeSettings.default : TreeSettings F).Valid) :
    (∀ t : Tree F L, t.Archivable finite → t.RoundTrips finite) ∧
      ∀ f : Forest F L, f.members ≠ [] → (∀ m ∈ f.members, m.tree.Archivable finite) →
        f.RoundTrips finite :=
  ⟨fun _ => Tree.Archivable.roundTrips, fun _ => Forest.roundTrips hdefault⟩

namespace Exact

/-- Two cuts. -/
def letters : Node Exact String :=
  .join [.number 1, .number (-5 / 2)] (.number 1)
    (.join [.number 0, .number 1] (.number (-5 / 2)) (.response "a") (.response "b"))
    (.response "c")

/-- A cut at no number, over the two others. -/
def nowhere : Node Exact String :=
  .join [.number 0, .number 1] .undefined letters (.response "d")

/-- The tree of a node with projectors of two coefficients. -/
def planar (root : Node Exact String) : Tree Exact String := ⟨root, .default, 2, none⟩

/-- Two trees that have been restored before. -/
def twice : Forest Exact String :=
  ⟨[⟨planar letters, none⟩, ⟨planar (.response "c"), none⟩], .ofSize 2, none⟩

theorem archivable_text (s : String) :
    (.response s : Node Exact String).Archivable (· ≠ undefined) :=
  .response (LabelCodec.keeps_text s)

theorem archivable_letters : letters.Archivable (· ≠ undefined) := by
  refine .join ?_ keeps_one (.join ?_ keeps_negative (archivable_text _) (archivable_text _))
    (archivable_text _)
  · simp [keeps_one, keeps_negative]
  · simp [keeps_zero, keeps_one]

theorem archivable_nowhere : nowhere.Archivable (· ≠ undefined) := by
  refine .join ?_ keeps_undefined archivable_letters (archivable_text _)
  simp [keeps_zero, keeps_one]

end Exact

open Exact in
/-- A tree that comes back, one that is refused for its threshold, and a forest. -/
theorem ofText_toText_letters :
    ((planar letters).Archivable (· ≠ undefined) ∧ (planar nowhere).Archivable (· ≠ undefined)) ∧
      ((∃ r, Tree.ofText (planar letters).toText = .ok r ∧ r.root = letters) ∧
        ¬ ∃ r : Tree Exact String, Tree.ofText (planar nowhere).toText = .ok r) ∧
      ∃ r, Forest.ofText twice.toText = .ok r ∧
        r.members.map (·.tree.root) = [letters, .response "c"] := by
  have hletters : (planar letters).Archivable (· ≠ undefined) := ⟨archivable_letters, by decide +kernel⟩
  have hnowhere : (planar nowhere).Archivable (· ≠ undefined) := ⟨archivable_nowhere, by decide +kernel⟩
  have hresponse : (planar (.response "c")).Archivable (· ≠ undefined) :=
    ⟨archivable_text _, by decide +kernel⟩
  have hfinite : letters.AllFinite (· ≠ undefined) := by
    unfold Node.AllFinite
    decide +kernel
  have hinfinite : ¬ nowhere.AllFinite (· ≠ undefined) := by
    unfold Node.AllFinite
    decide +kernel
  obtain ⟨htree, hforest⟩ := ofText_toText (L := String) (· ≠ undefined) (by decide +kernel)
  refine ⟨⟨hletters, hnowhere⟩, ⟨?_, fun hr => ?_⟩, ?_⟩
  · obtain ⟨r, hr⟩ := (htree _ hletters).restored_iff.2 ⟨hfinite, by decide +kernel⟩
    exact ⟨r, hr, (htree _ hletters).root_eq r hr⟩
  · exact hinfinite ((htree _ hnowhere).restored_iff.1 hr).1
  · have htwice : twice.RoundTrips (· ≠ undefined) := hforest twice nofun
      (List.forall_mem_cons.2 ⟨hletters, List.forall_mem_singleton.2 hresponse⟩)
    obtain ⟨r, hr⟩ := htwice.restored_iff.2 (List.forall_mem_cons.2 ⟨⟨hfinite, by decide +kernel⟩,
      List.forall_mem_singleton.2 ⟨Node.allFinite_response, by decide +kernel⟩⟩)
    exact ⟨r, hr, htwice.roots_eq r hr⟩

end PursuitForest
