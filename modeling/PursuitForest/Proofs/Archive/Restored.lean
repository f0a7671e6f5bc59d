import PursuitForest.Archive.Model
import PursuitForest.Proofs.LabelSets
import PursuitForest.Proofs.Outcomes
/-!
What can be restored.

A node is read as a response, or joined of two nodes that were read from values inside its own
(`Node.Spells`). So whatever text a forest is restored from, it has trees, without observations or draws,
and every tree names the classes of its responses, for joining computes them (`Forest.bare_of_ofText`).
-/

namespace PursuitForest

variable {F L : Type} [Label L]

namespace Node

/-- The classes of a node are those of its responses at least. -/
def NamesResponses (node : Node F L) : Prop := ∀ x ∈ node.responses, x ∈ node.classes

theorem namesResponses_response (value : L) : (response value : Node F L).NamesResponses := by
  intro x hx
  simpa [responses, classes] using hx

theorem NamesResponses.join {projector : List F} {threshold : F} {lower upper : Node F L}
    (hlower : lower.NamesResponses) (hupper : upper.NamesResponses) :
    (join projector threshold lower upper).NamesResponses := by
  intro x hx
  rw [Node.join, responses, List.mem_append] at hx
  rw [Node.join, classes, LabelSet.mem_union]
  rcases hx with hx | hx
  · exact .inl (hlower x hx)
  · exact .inr (hupper x hx)

/-! ### What nodes are read from -/

section
variable [ScalarCodec F] [LabelCodec L]

/-- A value that spells a node: an object with the label of a response, or with the scalars of a condition
and two values that spell its children. What else is in the object does not matter. -/
inductive Spells : Json → Node F L → Prop
  | response {fields : List (String × Json)} {v : Json} {value : L} (hfield : ("value", v) ∈ fields)
      (hvalue : LabelCodec.ofJson v = some value) : Spells (.object fields) (.response value)
  | join {fields : List (String × Json)} {items : List Json} {t l u : Json} {projector : List F}
      {threshold : F} {lower upper : Node F L} (hfields : ("projector", .array items) ∈ fields ∧
        ("threshold", t) ∈ fields ∧ ("lower", l) ∈ fields ∧ ("upper", u) ∈ fields)
      (hprojector : items.mapM ScalarCodec.ofJson = some projector)
      (hthreshold : ScalarCodec.ofJson t = some threshold)
      (hlower : Spells l lower) (hupper : Spells u upper) :
      Spells (.object fields) (.join projector threshold lower upper)

/-- The node that a field was read as is spelled by its value. -/
structure ReadOff (fields : List (String × Json)) (field : ReadField F L) : Prop where
  mem : (field.name, field.value) ∈ fields
  spells : ∀ node, field.node = some node → Spells field.value node

omit [ScalarCodec F] [LabelCodec L] in
/-- A field that occurs once is one of the fields. -/
theorem mem_of_readField? {fields : List (ReadField F L)} {name : String} {field : ReadField F L}
    (h : readField? fields name = some field) : field ∈ fields ∧ field.name = name := by
  unfold readField? at h
  split at h
  · next only honly =>
    cases h
    have hmem : field ∈ fields.filter (·.name = name) := by
      rw [honly]
      exact List.mem_singleton_self field
    obtain ⟨hfield, hname⟩ := List.mem_filter.1 hmem
    exact ⟨hfield, of_decide_eq_true hname⟩
  · cases h

theorem ReadOff.mem_of_readField? {fields : List (String × Json)} {read : List (ReadField F L)}
    (hread : ∀ field ∈ read, ReadOff fields field) {name : String} {field : ReadField F L}
    (h : readField? read name = some field) : (name, field.value) ∈ fields := by
  obtain ⟨hfield, rfl⟩ := Node.mem_of_readField? h
  exact (hread field hfield).mem

/-- A condition that is read is joined of the nodes that two fields were read as. -/
theorem spells_of_conditionOfFields {fields : List (String × Json)} {read : List (ReadField F L)}
    {node : Node F L} (hread : ∀ field ∈ read, ReadOff fields field)
    (h : conditionOfFields read = some node) : Spells (.object fields) node := by
  simp only [conditionOfFields, bind, pure, Option.bind_eq_some_iff] at h
  obtain ⟨p, hp, projector, hprojector, t, ht, threshold, hthreshold, l, hl, lower, hlower, u, hu,
    upper, hupper, hnode⟩ := h
  cases hnode
  cases hvalue : p.value with
  | array items =>
    rw [hvalue] at hprojector
    have hitems := ReadOff.mem_of_readField? hread hp
    rw [hvalue] at hitems
    have hfields := And.intro (ReadOff.mem_of_readField? hread ht)
      (And.intro (ReadOff.mem_of_readField? hread hl) (ReadOff.mem_of_readField? hread hu))
    have hlower := (hread l (mem_of_readField? hl).1).spells lower hlower
    have hupper := (hread u (mem_of_readField? hu).1).spells upper hupper
    exact .join ⟨hitems, hfields⟩ hprojector hthreshold hlower hupper
  | _ =>
    rw [hvalue] at hprojector
    cases hprojector

theorem spells_of_responseOfFields {fields : List (String × Json)} {read : List (ReadField F L)}
    {node : Node F L} (hread : ∀ field ∈ read, ReadOff fields field)
    (h : responseOfFields read = some node) : Spells (.object fields) node := by
  simp only [responseOfFields, bind, pure, Option.bind_eq_some_iff] at h
  obtain ⟨field, hfield, value, hvalue, hnode⟩ := h
  cases hnode
  exact .response (ReadOff.mem_of_readField? hread hfield) hvalue

mutual

/-- A value spells the node that it is read as. -/
theorem spells_of_ofJson : ∀ (v : Json) (node : Node F L), ofJson v = some node → Spells v node
  | .null, _, h | .bool _, _, h | .number _, _, h | .text _, _, h | .broken, _, h
  | .array _, _, h => nomatch h
  | .object fields, node, h => by
      have hread := readOff_readFields fields
      rw [ofJson] at h
      cases hcondition : (conditionOfFields (readFields fields) : Option (Node F L)) with
      | some read =>
        rw [hcondition] at h
        cases h
        exact spells_of_conditionOfFields hread hcondition
      | none =>
        rw [hcondition] at h
        exact spells_of_responseOfFields hread h

theorem readOff_readFields : ∀ (fields : List (String × Json)),
    ∀ field ∈ (readFields fields : List (ReadField F L)), ReadOff fields field
  | [], _, h => nomatch h
  | (name, value) :: fields, field, h => by
      rw [readFields] at h
      rcases List.mem_cons.1 h with rfl | h
      · exact ⟨List.mem_cons_self, fun node => spells_of_ofJson value node⟩
      · obtain ⟨hmem, hspells⟩ := readOff_readFields fields field h
        exact ⟨List.mem_cons_of_mem _ hmem, hspells⟩

end

/-- A node that is spelled names the classes of its responses. -/
theorem Spells.namesResponses {v : Json} {node : Node F L} (h : Spells v node) :
    node.NamesResponses := by
  induction h with
  | response => exact namesResponses_response _
  | join _ _ _ _ _ ihl ihu => exact ihl.join ihu

end

end Node

section
variable [ScalarCodec F] [LabelCodec L]

/-- A root is spelled by a value that is sound. -/
theorem Tree.exists_spells_of_rootOfJson {depth : Nat} {v : Json} {root : Node F L}
    (h : rootOfJson depth v = some root) :
    ∃ r : Json, r.sound (Json.maxNesting - (depth + 1)) = true ∧ Node.Spells r root := by
  simp only [rootOfJson, bind, Option.bind_eq_some_iff] at h
  obtain ⟨values, -, h⟩ := h
  split at h
  · next value =>
    split at h
    · next hsound => exact ⟨value, hsound, Node.spells_of_ofJson value root h⟩
    · cases h
  · cases h

omit [Label L] [ScalarCodec F] [LabelCodec L] in
/-- What a text is read as, some value is read as. -/
theorem Json.exists_of_readAs {α : Type} {read : Json → Option α} {s : String} {a : α}
    (h : (Json.readAs read s : Except (Error F L) α) = .ok a) : ∃ v, read v = some a := by
  unfold Json.readAs at h
  split at h
  · next hread =>
    cases h
    obtain ⟨v, -, hv⟩ := Option.bind_eq_some_iff.1 hread
    exact ⟨v, hv⟩
  · cases h

end

theorem Tree.root_of_restore [Scalar F] {root : Node F L} {t : Tree F L} (h : restore root = .ok t) :
    t.root = root := by
  obtain ⟨width, -, h⟩ := bind_eq_ok_iff.1 h
  cases h
  rfl

/-! ### Forests -/

namespace Forest

/-- A forest without observations, with trees that have no draws and name the classes of their
responses. -/
structure Bare (f : Forest F L) : Prop where
  size_pos : 0 < f.size
  training_eq : f.training = none
  draw_eq : ∀ m ∈ f.members, m.draw = none
  namesResponses : ∀ m ∈ f.members, m.tree.root.NamesResponses

variable [ScalarCodec F] [LabelCodec L]

/-- The roots of a forest are spelled by values that are sound. -/
theorem exists_spells_of_rootsOfJson {v : Json} {roots : List (Node F L)}
    (h : rootsOfJson v = some roots) : ∀ root ∈ roots,
      ∃ r : Json, r.sound (Json.maxNesting - (2 + 1)) = true ∧ Node.Spells r root := by
  simp only [rootsOfJson, bind, Option.bind_eq_some_iff] at h
  obtain ⟨values, -, h⟩ := h
  split at h
  · intro root hroot
    obtain ⟨tree, -, htree⟩ := exists_of_mem_mapM_some h hroot
    exact Tree.exists_spells_of_rootOfJson htree
  · cases h

variable [Scalar F]

/-- A forest that was restored of some roots, each of which a sound value spells: its trees are the restored
roots in their order, it has default settings, and there are no observations. -/
structure RestoredOf (roots : List (Node F L)) (f : Forest F L) : Prop where
  spells : ∀ root ∈ roots, ∃ v : Json, v.sound 124 = true ∧ Node.Spells v root
  settings_eq : ∃ settings : ForestSettings.Checked F,
    (ForestSettings.ofSize roots.length).check (L := L) = .ok settings ∧ f.settings = settings.val
  members_eq : ∃ trees, roots.mapM Tree.restore = .ok trees ∧ f.members = trees.map fun t => ⟨t, none⟩
  training_eq : f.training = none

variable {s : String} {f : Forest F L} {roots : List (Node F L)}

theorem exists_restoredOf (h : ofText s = .ok f) : ∃ roots, f.RestoredOf roots := by
  obtain ⟨roots, hroots, h⟩ := bind_eq_ok_iff.1 h
  obtain ⟨settings, hsettings, h⟩ := bind_eq_ok_iff.1 h
  obtain ⟨trees, htrees, h⟩ := bind_eq_ok_iff.1 h
  cases h
  obtain ⟨v, hv⟩ := Json.exists_of_readAs hroots
  exact ⟨roots, exists_spells_of_rootsOfJson hv, ⟨settings, hsettings, rfl⟩, ⟨trees, htrees, rfl⟩, rfl⟩

/-- A text that is read as the same roots restores the same forest. -/
theorem RestoredOf.ofText_eq (h : f.RestoredOf roots)
    (hread : (Json.readAs rootsOfJson s : Except (Error F L) (List (Node F L))) = .ok roots) :
    ofText s = .ok f := by
  obtain ⟨members, settings, training⟩ := f
  obtain ⟨-, ⟨checked, hchecked, hsettings⟩, ⟨trees, htrees, hmembers⟩, htraining⟩ := h
  cases hsettings
  cases hmembers
  cases htraining
  exact bind_eq_ok_iff.2 ⟨roots, hread, bind_eq_ok_iff.2
    ⟨checked, hchecked, bind_eq_ok_iff.2 ⟨trees, htrees, rfl⟩⟩⟩

/-- The trees have the roots that they were restored of. -/
theorem RestoredOf.map_root (h : f.RestoredOf roots) : f.members.map (·.tree.root) = roots := by
  obtain ⟨-, -, ⟨trees, htrees, hmembers⟩, -⟩ := h
  rw [hmembers, List.map_map]
  exact map_eq_of_mapM (fun _ _ _ => Tree.root_of_restore) htrees

theorem RestoredOf.exists_spells (h : f.RestoredOf roots) {m : Member F L} (hm : m ∈ f.members) :
    ∃ v : Json, v.sound 124 = true ∧ Node.Spells v m.tree.root := by
  refine h.spells _ ?_
  rw [← h.map_root]
  exact List.mem_map_of_mem hm

/-- Whatever is restored is bare. -/
theorem bare_of_ofText (h : ofText s = .ok f) : f.Bare := by
  obtain ⟨roots, hrestored⟩ := exists_restoredOf h
  have hspells := fun m hm => hrestored.exists_spells (m := m) hm
  obtain ⟨-, ⟨settings, hsettings, -⟩, ⟨trees, htrees, hmembers⟩, htraining⟩ := hrestored
  have hcount : roots.length ≠ 0 := by
    intro hzero
    rw [ForestSettings.check, dif_pos (show (ForestSettings.ofSize roots.length).size = 0 from hzero)]
      at hsettings
    cases hsettings
  refine ⟨?_, htraining, ?_, ?_⟩
  · rw [size, hmembers, List.length_map, length_of_mapM htrees]
    exact Nat.pos_of_ne_zero hcount
  · rw [hmembers]
    exact List.forall_mem_map.2 fun _ _ => rfl
  · intro m hm
    obtain ⟨v, -, hv⟩ := hspells m hm
    exact hv.namesResponses

end Forest
end PursuitForest
