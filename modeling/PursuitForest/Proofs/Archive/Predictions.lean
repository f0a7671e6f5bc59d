import PursuitForest.Proofs.Archive.SecondReading
import PursuitForest.Proofs.Tree.Descent
/-!
Predictions of grown and of restored trees.

Whether a tree is grown or read from a text, its nodes are put together by joining
(`Grows.joined`, `Node.Spells.joined`). So the classes of each of them are those of the responses below it,
and what it predicts is one of them (`predictions_stay_below`).
-/

namespace PursuitForest

section
variable {F L G : Type} [Scalar F] [Eigensolver F] [Label L] [RandomSource G]
  {settings : TreeSettings F} {d : GroupedDataset F L} {g g' : G}

/-- A grown node is put together by joining. -/
theorem Grows.joined {outcome : Except (Error F L) (Node F L)} {root : Node F L}
    (h : Grows settings d g outcome g') (ho : outcome = .ok root) : root.Joined := by
  induction h generalizing root with
  | none | twoFails | branchFails | lowerFails | upperFails => cases ho
  | one =>
    cases ho
    exact .response _
  | two =>
    cases ho
    exact .join (.response _) (.response _)
  | many _ _ _ _ ihl ihu =>
    cases ho
    exact .join (ihl rfl) (ihu rfl)

theorem joined_of_grow {root : Node F L} (h : grow settings d g = (.ok root, g')) : root.Joined := by
  rw [grow_eq_growRec, growRec] at h
  split at h
  · cases h
  · have hgrows := growNode_grows settings d g
    rw [h] at hgrows
    exact hgrows.joined rfl

end

section
variable {F L : Type} [ScalarCodec F] [LabelCodec L] [Label L]

/-- A node that is read from a value is put together by joining. -/
theorem Node.Spells.joined {v : Json} {node : Node F L} (h : Spells v node) : node.Joined := by
  induction h with
  | response => exact .response _
  | join _ _ _ _ _ ihl ihu => exact .join ihl ihu

variable [Scalar F]

theorem Tree.joined_of_ofText {s : String} {t : Tree F L} (h : Tree.ofText s = .ok t) :
    t.root.Joined := by
  obtain ⟨-, v, -, hspells⟩ := Tree.exists_spells_of_ofText h
  exact hspells.joined

theorem Forest.joined_of_ofText {s : String} {f : Forest F L} (h : Forest.ofText s = .ok f) :
    ∀ m ∈ f.members, m.tree.root.Joined := by
  intro m hm
  obtain ⟨roots, hrestored⟩ := Forest.exists_restoredOf h
  obtain ⟨v, -, hspells⟩ := hrestored.exists_spells hm
  exact hspells.joined

/-- All nodes of grown trees and of restored trees and forests are joined. A joined node names exactly the
classes of the responses below it. A row that is as long as the projectors that it meets is led to a
response below, in no more steps than the node is deep, and every node on its way predicts the value of
this response, which is one of the classes of each. Any other row breaks off. -/
theorem predictions_stay_below (G : Type) [Eigensolver F] [RandomSource G] :
    (∀ (settings : TreeSettings F) (d : GroupedDataset F L) (g g' : G) (root : Node F L),
      grow settings d g = (.ok root, g') → ∀ node ∈ root.subtrees, node.Joined) ∧
    (∀ (s : String) (t : Tree F L), Tree.ofText s = .ok t →
      ∀ node ∈ t.root.subtrees, node.Joined) ∧
    (∀ (s : String) (f : Forest F L), Forest.ofText s = .ok f →
      ∀ m ∈ f.members, ∀ node ∈ m.tree.root.subtrees, node.Joined) ∧
    ∀ node : Node F L, node.Joined →
      (∀ label, label ∈ node.classes ↔ label ∈ node.responses) ∧
      ∀ row, (node.Fits row → ∃ sides value, node.Descends row sides value ∧
          node.predictRow row = .ok value ∧ ∀ t ∈ node.way row, value ∈ t.classes) ∧
        (¬ node.Fits row → node.predictRow row = .error (.misuse .rowWidth)) := by
  refine ⟨?_, ?_, ?_, ?_⟩
  · intro settings d g g' root h
    exact (joined_of_grow h).of_mem_subtrees
  · intro s t h
    exact (Tree.joined_of_ofText h).of_mem_subtrees
  · intro s f h m hm
    exact (Forest.joined_of_ofText h m hm).of_mem_subtrees
  · intro node hnode
    refine ⟨fun label => hnode.mem_classes_iff, fun row => ⟨fun hfits => ?_, ?_⟩⟩
    · obtain ⟨sides, value, hd⟩ := Node.exists_descends hfits
      refine ⟨sides, value, hd, hd.predictRow_eq node (Node.self_mem_way node), fun t ht => ?_⟩
      have ht' := hnode.of_mem_subtrees t (Node.mem_subtrees_of_mem_way ht)
      exact ht'.mem_classes_iff.2 (Node.mem_responses_of_predictRow (hd.predictRow_eq t ht))
    · exact Node.predictRow_eq_error_iff.2

end

namespace Exact

/-- A cut in the first column, and one in the second above it. -/
def twoCuts : Node Exact String :=
  .join [.number 1, .number 0] (.number (1 / 2)) (.response "a")
    (.join [.number 0, .number 1] (.number 2) (.response "a") (.response "b"))

end Exact

open Exact in
/-- A row without a number falls above at both cuts. -/
theorem predictions_stay_below_twoCuts :
    twoCuts.Joined ∧ twoCuts.Fits [.undefined, .number 1] ∧ ∃ sides,
      twoCuts.Descends [.undefined, .number 1] sides "b" ∧ "b" ∈ twoCuts.classes := by
  have hjoined : twoCuts.Joined := .join (.response _) (.join (.response _) (.response _))
  have hfits : twoCuts.Fits [.undefined, .number 1] := by decide +kernel
  obtain ⟨-, -, -, h⟩ := predictions_stay_below (F := Exact) (L := String) Xoshiro
  obtain ⟨sides, value, hd, hpredict, hclasses⟩ := ((h twoCuts hjoined).2 _).1 hfits
  have hvalue : twoCuts.predictRow [.undefined, .number 1] = .ok "b" := by decide +kernel
  obtain rfl : "b" = value := Except.ok.inj (hvalue.symm.trans hpredict)
  exact ⟨hjoined, hfits, sides, hd, hclasses _ (Node.self_mem_way twoCuts)⟩

end PursuitForest
