import PursuitForest.Proofs.Archive.MachineScalars
import PursuitForest.Proofs.Archive.Widths
/-!
Models that are read, written, and read again.

A node that was read is one that can be written: it is put together of responses and conditions, it is less
deep than the text that spelled it (`Node.Spells.depth_lt`), and its projectors have been found to be of one
length. So whatever text a model was restored from, it is restored once more from its own text, exactly as it
is, unless one of its scalars is infinite. No text spells an infinite double. But a text may spell a number
that is too large for a single, and then the model is read once and refused the second time
(`restored_reads_again`).
-/

namespace PursuitForest

variable {F L : Type} [ScalarCodec F] [LabelCodec L] [Label L] {finite : F → Prop}

/-! ### Nodes that were read -/

theorem Json.sound_of_mem_fields {room : Nat} {name : String} {v : Json} :
    ∀ {fields : List (String × Json)}, Json.soundFields room fields = true → (name, v) ∈ fields →
      v.sound room = true
  | (first, w) :: fields, h, hv => by
      rw [Json.soundFields, Bool.and_eq_true] at h
      rcases List.mem_cons.1 hv with heq | hv
      · cases heq
        exact h.1
      · exact sound_of_mem_fields h.2 hv

omit [LabelCodec L] [Label L] in
theorem ScalarCodec.exists_numeral {v : Json} {a : F} (h : ScalarCodec.ofJson v = some a) :
    ∃ n, ScalarCodec.ofNumeral n = some a := by
  cases v with
  | number n => exact ⟨n, h⟩
  | _ => cases h

namespace Node

/-- All coefficients and thresholds of a node are read from numerals. -/
def FromNumerals (node : Node F L) : Prop :=
  ∀ c ∈ node.conditions, (∀ a ∈ c.projector, ∃ n, ScalarCodec.ofNumeral n = some a) ∧
    ∃ n, ScalarCodec.ofNumeral n = some c.threshold

namespace Spells

variable {v : Json} {node : Node F L}

/-- Every condition takes a container around those of its children. -/
theorem depth_lt (h : Spells v node) : ∀ {room : Nat}, v.sound room = true → node.depth < room := by
  induction h with
  | response =>
    intro room hsound
    cases room with
    | zero => cases hsound
    | succ room => exact Nat.succ_pos room
  | join hfields _ _ _ _ ihl ihu =>
    intro room hsound
    cases room with
    | zero => cases hsound
    | succ room =>
      rw [Json.sound] at hsound
      obtain ⟨-, -, hl, hu⟩ := hfields
      have hlower := ihl (Json.sound_of_mem_fields hsound hl)
      have hupper := ihu (Json.sound_of_mem_fields hsound hu)
      rw [Node.join, depth]
      omega

theorem fromNumerals (h : Spells v node) : node.FromNumerals := by
  induction h with
  | response =>
    unfold FromNumerals
    rw [conditions_response]
    nofun
  | join _ hprojector hthreshold _ _ ihl ihu =>
    refine forall_conditions_join.2 ⟨⟨?_, ScalarCodec.exists_numeral hthreshold⟩, ihl, ihu⟩
    intro a ha
    obtain ⟨w, -, hw⟩ := exists_of_mem_mapM_some hprojector ha
    exact ScalarCodec.exists_numeral hw

/-- A node that was read can be written if its scalars and labels are kept. -/
theorem archivable (h : Spells v node) (hnode : node.Kept finite) : node.Archivable finite := by
  induction h with
  | response => exact .response (hnode.labels _ (List.mem_singleton_self _))
  | join _ _ _ _ _ ihl ihu =>
    obtain ⟨hself, hlower, hupper⟩ := hnode.of_join
    exact .join hself.1 hself.2 (ihl hlower) (ihu hupper)

end Spells
end Node

/-! ### Models that were read -/

variable [Scalar F]

namespace Tree

variable {s : String} {t : Tree F L}

/-- A restored tree is made of its root, which some value spells. -/
theorem exists_spells_of_ofText (h : ofText s = .ok t) : restore t.root = .ok t ∧
    ∃ v : Json, v.sound 126 = true ∧ Node.Spells v t.root := by
  obtain ⟨root, hroot, hrestore⟩ := bind_eq_ok_iff.1 h
  obtain ⟨v, hv⟩ := Json.exists_of_readAs hroot
  obtain rfl := root_of_restore hrestore
  exact ⟨hrestore, exists_spells_of_rootOfJson hv⟩

omit [ScalarCodec F] [LabelCodec L] in
theorem lengths_of_restore {root : Node F L} (h : restore root = .ok t) :
    ∀ b ∈ t.root.conditions, ∀ c ∈ t.root.conditions, b.projector.length = c.projector.length := by
  obtain ⟨rfl, htakes, -⟩ := width_of_restore h
  intro b hb c hc
  rw [htakes b hb, htakes c hc]

/-- A tree that was read once is read again as it is, unless one of its scalars is infinite. -/
theorem readAgain (h : ofText s = .ok t) (hroot : t.root.Kept finite) :
    (t.root.AllFinite finite → ofText t.toText = .ok t) ∧
      (¬ t.root.AllFinite finite →
        (ofText t.toText : Except (Error F L) (Tree F L)) = .error .malformedText) := by
  obtain ⟨hrestore, v, hsound, hspells⟩ := exists_spells_of_ofText h
  have harchivable : t.Archivable finite := ⟨hspells.archivable hroot, lengths_of_restore hrestore⟩
  refine ⟨?_, ?_⟩
  · intro hfinite
    have hdepth : t.depth ≤ 125 := by
      rw [depth_eq]
      exact Nat.le_of_lt_succ (hspells.depth_lt hsound)
    exact harchivable.ofText_eq_ok_iff.2 ⟨⟨hfinite, hdepth⟩, hrestore⟩
  · intro hinfinite
    exact harchivable.ofText_eq_error fun hallowed => hinfinite hallowed.1

end Tree

namespace Forest

variable {s : String} {f : Forest F L}

/-- What cannot be read back is refused. -/
theorem ofText_eq_error (h : ∀ m ∈ f.members, m.tree.Archivable finite)
    (hnot : ¬ ∀ m ∈ f.members, m.tree.root.AllFinite finite ∧ m.tree.depth ≤ 123) :
    (ofText f.toText : Except (Error F L) (Forest F L)) = .error .malformedText := by
  have hread : (Json.readAs rootsOfJson f.toText : Except (Error F L) (List (Node F L))) =
      .error .malformedText := by
    rw [Json.readAs, toText, Json.parse_print (wellFormed_toJson h), Option.bind_some]
    cases hroots : (rootsOfJson f.toJson : Option (List (Node F L))) with
    | none => rfl
    | some roots => exact absurd ((rootsOfJson_eq_some_iff h).1 hroots).1 hnot
  rw [ofText, hread]
  rfl

/-- A forest that was read once is read again as it is, unless a scalar of a tree is infinite. -/
theorem readAgain (h : ofText s = .ok f) (hroots : ∀ m ∈ f.members, m.tree.root.Kept finite) :
    ((∀ m ∈ f.members, m.tree.root.AllFinite finite) → ofText f.toText = .ok f) ∧
      (¬ (∀ m ∈ f.members, m.tree.root.AllFinite finite) →
        (ofText f.toText : Except (Error F L) (Forest F L)) = .error .malformedText) := by
  obtain ⟨roots, hrestored⟩ := exists_restoredOf h
  have harchivable : ∀ m ∈ f.members, m.tree.Archivable finite := by
    intro m hm
    obtain ⟨v, -, hv⟩ := hrestored.exists_spells hm
    obtain ⟨root, hrestore⟩ := exists_restore_of_ofText h hm
    exact ⟨hv.archivable (hroots m hm), Tree.lengths_of_restore hrestore⟩
  refine ⟨?_, ?_⟩
  · intro hfinite
    have hallowed : ∀ m ∈ f.members, m.tree.root.AllFinite finite ∧ m.tree.depth ≤ 123 := by
      intro m hm
      obtain ⟨v, hsound, hv⟩ := hrestored.exists_spells hm
      refine ⟨hfinite m hm, ?_⟩
      rw [Tree.depth_eq]
      exact Nat.le_of_lt_succ (hv.depth_lt hsound)
    refine hrestored.ofText_eq ((readAs_toText harchivable).2 ?_)
    exact (rootsOfJson_eq_some_iff harchivable).2 ⟨hallowed, hrestored.map_root.symm⟩
  · intro hinfinite
    refine ofText_eq_error harchivable ?_
    intro hallowed
    exact hinfinite fun m hm => (hallowed m hm).1

end Forest

/-! ### Doubles and singles -/

/-- The finite scalars of a node, and its labels, are kept when they are written. -/
structure Node.FiniteKept (finite : F → Prop) (node : Node F L) : Prop where
  scalars : ∀ c ∈ node.conditions, (∀ a ∈ c.projector, finite a → ScalarCodec.Keeps finite a) ∧
    (finite c.threshold → ScalarCodec.Keeps finite c.threshold)
  labels : ∀ value ∈ node.responses, LabelCodec.Keeps value

omit [Scalar F] in
/-- Where infinite scalars are written as null, nothing more has to be kept. -/
theorem Node.FiniteKept.kept {node : Node F L} (h : node.FiniteKept finite)
    (hnull : ∀ a : F, ¬ finite a → ScalarCodec.toJson a = .null) : node.Kept finite := by
  have hkeeps : ∀ a : F, (finite a → ScalarCodec.Keeps finite a) → ScalarCodec.Keeps finite a := by
    intro a ha
    by_cases hfinite : finite a
    · exact ha hfinite
    · exact .null hfinite (hnull a hfinite)
  refine ⟨?_, h.labels⟩
  intro c hc
  obtain ⟨hprojector, hthreshold⟩ := h.scalars c hc
  exact ⟨fun a ha => hkeeps a (hprojector a ha), hkeeps _ hthreshold⟩

omit [LabelCodec L] [Scalar F] in
/-- What is read from numerals is finite if no numeral is read as anything else. -/
theorem Node.FromNumerals.allFinite {node : Node F L} (h : node.FromNumerals)
    (hread : ∀ (n : Numeral) (a : F), ScalarCodec.ofNumeral n = some a → finite a) :
    node.AllFinite finite := by
  intro c hc
  obtain ⟨hprojector, n, hn⟩ := h c hc
  refine ⟨?_, hread n _ hn⟩
  intro a ha
  obtain ⟨m, hm⟩ := hprojector a ha
  exact hread m a hm

/-- Whatever a model was restored from, it is written and restored once more as it is, if its scalars are
doubles. If they are singles, it is restored once more exactly if they are all finite, and its own text is
refused as malformed otherwise. This takes that the finite scalars of the model and its labels are kept. -/
theorem restored_reads_again (L : Type) [LabelCodec L] [Label L] :
    (∀ (s : String) (t : Tree Float L), Tree.ofText s = .ok t →
      t.root.FiniteKept (·.isFinite = true) → Tree.ofText t.toText = .ok t) ∧
    (∀ (s : String) (f : Forest Float L), Forest.ofText s = .ok f →
      (∀ m ∈ f.members, m.tree.root.FiniteKept (·.isFinite = true)) → Forest.ofText f.toText = .ok f) ∧
    (∀ (s : String) (t : Tree Float32 L), Tree.ofText s = .ok t →
      t.root.FiniteKept (·.isFinite = true) →
      (t.root.AllFinite (·.isFinite = true) → Tree.ofText t.toText = .ok t) ∧
      (¬ t.root.AllFinite (·.isFinite = true) →
        (Tree.ofText t.toText : Except (Error Float32 L) (Tree Float32 L)) = .error .malformedText)) ∧
    ∀ (s : String) (f : Forest Float32 L), Forest.ofText s = .ok f →
      (∀ m ∈ f.members, m.tree.root.FiniteKept (·.isFinite = true)) →
      ((∀ m ∈ f.members, m.tree.root.AllFinite (·.isFinite = true)) → Forest.ofText f.toText = .ok f) ∧
      (¬ (∀ m ∈ f.members, m.tree.root.AllFinite (·.isFinite = true)) →
        (Forest.ofText f.toText : Except (Error Float32 L) (Forest Float32 L)) =
          .error .malformedText) := by
  refine ⟨?_, ?_, ?_, ?_⟩
  · intro s t h hroot
    obtain ⟨-, v, -, hspells⟩ := Tree.exists_spells_of_ofText h
    have hfinite := hspells.fromNumerals.allFinite fun _ _ => isFinite_of_ofNumeral
    exact (Tree.readAgain h (hroot.kept fun _ => toJson_double)).1 hfinite
  · intro s f h hroots
    obtain ⟨roots, hrestored⟩ := Forest.exists_restoredOf h
    refine (Forest.readAgain h fun m hm => (hroots m hm).kept fun _ => toJson_double).1 ?_
    intro m hm
    obtain ⟨v, -, hspells⟩ := hrestored.exists_spells hm
    exact hspells.fromNumerals.allFinite fun _ _ => isFinite_of_ofNumeral
  · intro s t h hroot
    exact Tree.readAgain h (hroot.kept fun _ => toJson_single)
  · intro s f h hroots
    exact Forest.readAgain h fun m hm => (hroots m hm).kept fun _ => toJson_single

/-! ### Cuts at one half -/

/-- One half. -/
def Numeral.half : Numeral := ⟨false, [0], [5], none⟩

/-- A number that a double holds and a single does not. -/
def Numeral.beyondSingle : Numeral := ⟨false, [1], [], some 39⟩

theorem Numeral.wellFormed_half : Numeral.half.WellFormed :=
  ⟨by decide, by decide, nofun, fun _ h => by cases h; rfl⟩

theorem Numeral.wellFormed_beyondSingle : Numeral.beyondSingle.WellFormed :=
  ⟨by decide, by decide, nofun, nofun⟩

/-- The value that spells a cut at one half by one coefficient. -/
def cutValue (n : Numeral) : Json :=
  .object [("root", .object [("projector", .array [.number n]), ("threshold", .number .half),
    ("lower", .object [("value", .text "a")]), ("upper", .object [("value", .text "b")])])]

theorem wellFormed_cutValue {n : Numeral} (hn : n.WellFormed) : (cutValue n).WellFormed := by
  have hresponse : ∀ s, (Json.object [("value", .text s)]).WellFormed := fun s =>
    Json.wellFormed_object (List.forall_mem_singleton.2 (LabelCodec.keeps_text s).wellFormed)
  refine Json.wellFormed_object (List.forall_mem_singleton.2 (Json.wellFormed_object ?_))
  simp only [List.forall_mem_cons, List.not_mem_nil, false_implies, implies_true, and_true]
  refine ⟨?_, Json.wellFormed_number Numeral.wellFormed_half, hresponse "a", hresponse "b"⟩
  exact Json.wellFormed_array (List.forall_mem_singleton.2 (Json.wellFormed_number hn))

section
variable {F : Type} [Scalar F]

/-- The tree of a cut by one coefficient. -/
def cutAt (a threshold : F) : Tree F String :=
  ⟨.join [a] threshold (.response "a") (.response "b"), .default, 1, none⟩

theorem forall_conditions_cutAt {a threshold : F} {p : Node.Condition F String → Prop} :
    (∀ c ∈ (cutAt a threshold).root.conditions, p c) ↔
      p ⟨[a], threshold, .union (.singleton "a") (.singleton "b"), .response "a", .response "b"⟩ := by
  refine Node.forall_conditions_join.trans (and_iff_left ⟨?_, ?_⟩) <;>
    · rw [Node.conditions_response]
      nofun

theorem restore_cutAt (a threshold : F) :
    Tree.restore (cutAt a threshold).root = .ok (cutAt a threshold) := by
  have hsome : (cutAt a threshold).root.conditions ≠ [] := by
    intro hnone
    have hall : ∀ c ∈ (cutAt a threshold).root.conditions, False := by simp [hnone]
    exact forall_conditions_cutAt.1 hall
  have hwidth : Tree.commonWidth none (cutAt a threshold).root.conditions = .ok 1 :=
    Tree.commonWidth_eq_ok_iff.2 ⟨nofun, forall_conditions_cutAt.2 rfl, fun _ hnone => absurd hnone hsome⟩
  rw [Tree.restore, hwidth]
  rfl

/-- A cut is read from the value that spells it. -/
theorem ofText_cutValue [ScalarCodec F] {n : Numeral} {a threshold : F} (hn : n.WellFormed)
    (hdouble : n.double?.isSome = true) (ha : ScalarCodec.ofNumeral n = some a)
    (hthreshold : ScalarCodec.ofNumeral .half = some threshold) :
    Tree.ofText (cutValue n).print = .ok (cutAt a threshold) := by
  have hhalf : Numeral.half.double?.isSome = true := by decide
  have hroot : Tree.rootOfJson 0 (cutValue n) = some (cutAt a threshold).root := by
    simp [Tree.rootOfJson, cutValue, Json.record?, Json.field?, Json.sound, Json.soundFields,
      Json.soundItems, Json.maxNesting, hdouble, hhalf, Node.ofJson, Node.readFields,
      Node.conditionOfFields, Node.responseOfFields, Node.readField?, Node.scalars?, ScalarCodec.ofJson,
      LabelCodec.ofJson, ha, hthreshold, cutAt]
  rw [Tree.ofText, Json.readAs, Json.parse_print (wellFormed_cutValue hn), Option.bind_some, hroot]
  exact restore_cutAt a threshold

/-- A cut is kept if its two scalars are. -/
theorem finiteKept_cutAt [ScalarCodec F] {finite : F → Prop} {a threshold : F}
    (ha : finite a → ScalarCodec.Keeps finite a)
    (hthreshold : finite threshold → ScalarCodec.Keeps finite threshold) :
    (cutAt a threshold).root.FiniteKept finite :=
  ⟨forall_conditions_cutAt.2 ⟨List.forall_mem_singleton.2 ha, hthreshold⟩,
    fun value _ => LabelCodec.keeps_text value⟩

/-- A forest of a single cut is restored from its own text, with that cut. -/
theorem exists_ofText_oneCut [ScalarCodec F] {finite : F → Prop} {a : F} (ha : ScalarCodec.Keeps finite a)
    (hfinite : finite a) (hdefault : (TreeSettings.default : TreeSettings F).Valid) :
    ∃ s, ∃ f : Forest F String, Forest.ofText s = .ok f ∧
      ∀ m ∈ f.members, m.tree.root = (cutAt a a).root := by
  let single : Forest F String := ⟨[⟨cutAt a a, none⟩], .ofSize 1, none⟩
  have harchivable : (cutAt a a).Archivable finite :=
    ⟨.join (List.forall_mem_singleton.2 ha) ha (.response (LabelCodec.keeps_text _))
      (.response (LabelCodec.keeps_text _)), Tree.lengths_of_restore (restore_cutAt a a)⟩
  have hdepth : (cutAt a a).depth ≤ 123 := by
    rw [Tree.depth_eq]
    exact Nat.one_le_ofNat
  have hall : (cutAt a a).root.AllFinite finite :=
    forall_conditions_cutAt.2 ⟨List.forall_mem_singleton.2 hfinite, hfinite⟩
  obtain ⟨f, hf, hroots⟩ := Forest.exists_ofText (f := single) hdefault (List.cons_ne_nil _ _)
    (List.forall_mem_singleton.2 harchivable) (List.forall_mem_singleton.2 ⟨hall, hdepth⟩)
  refine ⟨_, f, hf, ?_⟩
  intro m hm
  have hroot : m.tree.root ∈ f.members.map (·.tree.root) := List.mem_map_of_mem hm
  rw [hroots] at hroot
  exact List.mem_singleton.1 hroot

end

/-- One half as a double. -/
def halfDouble : Float := Float.ofBits 0x3fe0000000000000

/-- One half as a single. -/
def halfSingle : Float32 := Float32.ofBits 0x3f000000

/-- Infinity as a single. -/
def infiniteSingle : Float32 := Float32.ofBits 0x7f800000

theorem ofNumeral_halfDouble : ScalarCodec.ofNumeral .half = some halfDouble := by
  have hbits : Numeral.half.doubleBits? = some 0x3fe0000000000000 := by decide
  exact Option.map_eq_some_iff.2 ⟨_, hbits, rfl⟩

theorem ofNumeral_halfSingle : ScalarCodec.ofNumeral .half = some halfSingle := by
  have hbits : Numeral.half.singleBits? = some 0x3f000000 := by decide
  exact Option.map_eq_some_iff.2 ⟨_, hbits, rfl⟩

theorem ofNumeral_infiniteSingle : ScalarCodec.ofNumeral .beyondSingle = some infiniteSingle := by
  have hbits : Numeral.beyondSingle.singleBits? = some 0x7f800000 := by decide
  exact Option.map_eq_some_iff.2 ⟨_, hbits, rfl⟩

theorem keeps_halfDouble : ScalarCodec.Keeps (·.isFinite = true) halfDouble := by
  have hdecode : BinaryFormat.double.decode halfDouble.toBits.toNat = .finite false (2 ^ 52) (-53) := by
    decide
  exact .number (by decide) (doubleLayout.toJson_eq_number hdecode (by decide))
    Numeral.wellFormed_half (by decide) ofNumeral_halfDouble

theorem keeps_halfSingle : ScalarCodec.Keeps (·.isFinite = true) halfSingle := by
  have hdecode : BinaryFormat.single.decode halfSingle.toBits.toNat = .finite false (2 ^ 23) (-24) := by
    decide
  exact .number (by decide) (singleLayout.toJson_eq_number hdecode (by decide))
    Numeral.wellFormed_half (by decide) ofNumeral_halfSingle

theorem not_isFinite_infiniteSingle : ¬ infiniteSingle.isFinite = true := by
  decide

/-- Cuts of doubles and cuts of singles are read again as they are, alone and in forests. -/
theorem restored_reads_again_half :
    (∃ t : Tree Float String, Tree.ofText (cutValue .half).print = .ok t ∧
      Tree.ofText t.toText = .ok t) ∧
    (∃ s, ∃ f : Forest Float String, Forest.ofText s = .ok f ∧ Forest.ofText f.toText = .ok f) ∧
    (∃ t : Tree Float32 String, Tree.ofText (cutValue .half).print = .ok t ∧
      Tree.ofText t.toText = .ok t) ∧
    ∃ s, ∃ f : Forest Float32 String, Forest.ofText s = .ok f ∧ Forest.ofText f.toText = .ok f := by
  have hdouble : Numeral.half.double?.isSome = true := by decide +kernel
  have hfinite : halfSingle.isFinite = true := by decide +kernel
  have hdoubles : (cutAt halfDouble halfDouble).root.FiniteKept (·.isFinite = true) :=
    finiteKept_cutAt (fun _ => keeps_halfDouble) fun _ => keeps_halfDouble
  have hsingles : (cutAt halfSingle halfSingle).root.FiniteKept (·.isFinite = true) :=
    finiteKept_cutAt (fun _ => keeps_halfSingle) fun _ => keeps_halfSingle
  have hall : (cutAt halfSingle halfSingle).root.AllFinite (·.isFinite = true) :=
    forall_conditions_cutAt.2 ⟨List.forall_mem_singleton.2 hfinite, hfinite⟩
  obtain ⟨hdoubleTree, hdoubleForest, hsingleTree, hsingleForest⟩ := restored_reads_again String
  refine ⟨?_, ?_, ?_, ?_⟩
  · have ht := ofText_cutValue Numeral.wellFormed_half hdouble ofNumeral_halfDouble ofNumeral_halfDouble
    exact ⟨_, ht, hdoubleTree _ _ ht hdoubles⟩
  · obtain ⟨s, f, hf, hroots⟩ :=
      exists_ofText_oneCut keeps_halfDouble (by decide +kernel) (by decide +kernel)
    exact ⟨s, f, hf, hdoubleForest s f hf fun m hm => (hroots m hm).symm ▸ hdoubles⟩
  · have ht := ofText_cutValue Numeral.wellFormed_half hdouble ofNumeral_halfSingle ofNumeral_halfSingle
    exact ⟨_, ht, (hsingleTree _ _ ht hsingles).1 hall⟩
  · obtain ⟨s, f, hf, hroots⟩ := exists_ofText_oneCut keeps_halfSingle hfinite (by decide +kernel)
    have hagain := hsingleForest s f hf fun m hm => (hroots m hm).symm ▸ hsingles
    exact ⟨s, f, hf, hagain.1 fun m hm => (hroots m hm).symm ▸ hall⟩

/-- A text with a number too large for a single is read as a tree of singles, and what is written of this
tree is refused. -/
theorem refused_again_beyondSingle : ∃ t : Tree Float32 String,
    Tree.ofText (cutValue .beyondSingle).print = .ok t ∧
      (Tree.ofText t.toText : Except (Error Float32 String) (Tree Float32 String)) =
        .error .malformedText := by
  have ht := ofText_cutValue Numeral.wellFormed_beyondSingle (by decide +kernel) ofNumeral_infiniteSingle
    ofNumeral_halfSingle
  have hkept : (cutAt infiniteSingle halfSingle).root.FiniteKept (·.isFinite = true) :=
    finiteKept_cutAt (fun hfinite => absurd hfinite not_isFinite_infiniteSingle) fun _ => keeps_halfSingle
  refine ⟨_, ht, (Tree.readAgain ht (hkept.kept fun _ => toJson_single)).2 ?_⟩
  intro hfinite
  obtain ⟨hprojector, -⟩ := forall_conditions_cutAt.1 hfinite
  exact not_isFinite_infiniteSingle (hprojector infiniteSingle List.mem_cons_self)

end PursuitForest
