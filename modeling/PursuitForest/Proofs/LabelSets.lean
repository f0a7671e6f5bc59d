import PursuitForest.Label
/-!
Sets of classes in parts.

`LabelSet.Splits` says that a set is made of two parts that are not empty and have no class in
common. The members of the parts one after the other are then the members of the set, in another
order, so sizes add up and both parts are smaller than the set.
-/

namespace PursuitForest
namespace LabelSet

variable {L : Type} [Label L]

/-- No member is listed twice. -/
theorem nodup (s : LabelSet L) : s.toList.Nodup :=
  s.ascending.imp Label.ne_of_lt

theorem min?_mem {s : LabelSet L} {x : L} (h : s.min? = some x) : x ∈ s :=
  List.mem_of_head? h

/-- No member is smaller than the smallest. -/
theorem min?_le {s : LabelSet L} {x y : L} (h : s.min? = some x) (hy : y ∈ s) : x ≤ y := by
  obtain ⟨rest, hs⟩ := List.head?_eq_some_iff.1 h
  have hascending := s.ascending
  rw [hs] at hascending
  rw [mem_def, hs] at hy
  rcases List.mem_cons.1 hy with rfl | hy
  · exact Std.le_refl y
  · exact Label.le_of_lt ((List.pairwise_cons.1 hascending).1 y hy)

theorem exists_min? {s : LabelSet L} {x : L} (h : x ∈ s) : ∃ y, s.min? = some y := by
  obtain ⟨y, hy⟩ : ∃ y, s.toList.head? = some y := by
    cases hs : s.toList with
    | nil => rw [mem_def, hs] at h; simp at h
    | cons y ys => exact ⟨y, rfl⟩
  exact ⟨y, hy⟩

theorem isEmpty_eq_false {s : LabelSet L} {x : L} (h : x ∈ s) : s.isEmpty = false := by
  cases hs : s.toList with
  | nil => rw [mem_def, hs] at h; simp at h
  | cons y ys => simp [isEmpty, hs]

/-- A set made of two parts, neither of them empty, with no class in both. -/
structure Splits (s lower upper : LabelSet L) : Prop where
  lower_inhabited : ∃ x, x ∈ lower
  upper_inhabited : ∃ x, x ∈ upper
  disjoint : ∀ x ∈ lower, x ∉ upper
  covers : ∀ x, x ∈ s ↔ x ∈ lower ∨ x ∈ upper

namespace Splits

variable {s lower upper : LabelSet L}

theorem symm (h : s.Splits lower upper) : s.Splits upper lower where
  lower_inhabited := h.upper_inhabited
  upper_inhabited := h.lower_inhabited
  disjoint x hu hl := h.disjoint x hl hu
  covers x := (h.covers x).trans or_comm

/-- The set is the union of its parts. -/
theorem union_eq (h : s.Splits lower upper) : lower.union upper = s :=
  ext_mem fun x => by rw [mem_union, h.covers]

/-- The members of both parts are the members of the set. -/
theorem perm (h : s.Splits lower upper) : (lower.toList ++ upper.toList).Perm s.toList := by
  have hnodup : (lower.toList ++ upper.toList).Nodup := by
    refine List.nodup_append.2 ⟨lower.nodup, upper.nodup, ?_⟩
    rintro x hx y hy rfl
    exact h.disjoint x hx hy
  refine (List.perm_ext_iff_of_nodup hnodup s.nodup).2 fun x => ?_
  rw [List.mem_append]
  exact (h.covers x).symm

theorem size_eq (h : s.Splits lower upper) : lower.size + upper.size = s.size := by
  have := h.perm.length_eq
  rwa [List.length_append] at this

theorem size_lower_pos (h : s.Splits lower upper) : 0 < lower.size := by
  obtain ⟨x, hx⟩ := h.lower_inhabited
  exact List.length_pos_of_mem hx

theorem size_upper_pos (h : s.Splits lower upper) : 0 < upper.size := h.symm.size_lower_pos

end Splits

end LabelSet
end PursuitForest
