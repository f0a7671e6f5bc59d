import Mathlib.Data.List.Perm.Subperm
import PursuitForest.Proofs.LabelSets
import PursuitForest.Random.Choice
/-!
Random choices are distinct numbers below the bound.

Whichever method draws them, and whatever the source, as many numbers come out as were asked for,
none of them twice (`Picks`). In ascending order they are what `choose` answers with
(`choose_spec`), so a choice of all numbers is all of them in order (`choose_self`).
-/

namespace PursuitForest

variable {G : Type} [RandomSource G]

/-! ### Exchanges -/

theorem swapIfInBounds_perm {α : Type} (xs : Array α) (i j : Nat) :
    (xs.swapIfInBounds i j).toList.Perm xs.toList := by
  unfold Array.swapIfInBounds
  split
  · split
    · exact (Array.swap_perm _ _).toList
    · exact List.Perm.refl _
  · exact List.Perm.refl _

theorem shuffleDown_perm {α : Type} : ∀ (i : Nat) (xs : Array α) (g : G),
    (shuffleDown i xs g).1.toList.Perm xs.toList
  | 0, _, _ => List.Perm.refl _
  | i + 1, xs, g => by
      rw [shuffleDown]
      exact (shuffleDown_perm i _ _).trans (swapIfInBounds_perm xs _ _)

theorem shuffle_perm {α : Type} (xs : List α) (g : G) : (shuffle xs g).1.Perm xs :=
  shuffleDown_perm _ xs.toArray g

theorem exchangePlaces_perm (bound : Nat) : ∀ (places : List Nat) (xs : Array Nat) (g : G),
    (exchangePlaces bound places xs g).1.toList.Perm xs.toList
  | [], _, _ => List.Perm.refl _
  | i :: is, xs, g => by
      rw [exchangePlaces]
      exact (exchangePlaces_perm bound is _ _).trans (swapIfInBounds_perm xs _ _)

/-! ### Choices -/

/-- `amount` numbers below `bound`, none of them twice. -/
structure Picks (bound amount : Nat) (chosen : List Nat) : Prop where
  nodup : chosen.Nodup
  length_eq : chosen.length = amount
  lt_bound : ∀ i ∈ chosen, i < bound

theorem Picks.perm {bound amount : Nat} {xs ys : List Nat} (h : Picks bound amount xs)
    (hperm : ys.Perm xs) : Picks bound amount ys where
  nodup := hperm.nodup_iff.2 h.nodup
  length_eq := hperm.length_eq.trans h.length_eq
  lt_bound i hi := h.lt_bound i (hperm.mem_iff.1 hi)

theorem picks_cons {bound amount i : Nat} {chosen : List Nat} (h : Picks bound amount chosen)
    (hi : i ∉ chosen) (hlt : i < bound) : Picks bound (amount + 1) (i :: chosen) where
  nodup := List.nodup_cons.2 ⟨hi, h.nodup⟩
  length_eq := by rw [List.length_cons, h.length_eq]
  lt_bound j hj := by
    rcases List.mem_cons.1 hj with rfl | hj
    · exact hlt
    · exact h.lt_bound j hj

theorem picks_exchangePlaces {bound amount : Nat} (h : amount ≤ bound) (places : List Nat) (g : G) :
    Picks bound amount
      ((exchangePlaces bound places (Array.range bound) g).1.toList.take amount) := by
  have hperm := exchangePlaces_perm bound places (Array.range bound) g
  rw [Array.toList_range] at hperm
  refine ⟨(hperm.nodup_iff.2 List.nodup_range).sublist (List.take_sublist _ _), ?_, fun i hi => ?_⟩
  · rw [List.length_take, hperm.length_eq, List.length_range]
    omega
  · exact List.mem_range.1 (hperm.mem_iff.1 (List.mem_of_mem_take hi))

/-- Numbers drawn for the places from `low` on: what was chosen before lies below the next place, so
a place whose number is taken can take itself. -/
theorem picks_growingRanges : ∀ (count low amount : Nat) (chosen : List Nat) (g : G),
    Picks low amount chosen → Picks (low + count) (amount + count)
      (growingRanges ((List.range count).map (low + ·)) chosen g).1
  | 0, _, _, _, _, h => h
  | count + 1, low, amount, chosen, g, h => by
      rw [List.range_succ_eq_map, List.map_cons, List.map_map, growingRanges]
      have hshift : (fun i => low + i) ∘ Nat.succ = fun i => low + 1 + i := by
        funext i
        simp only [Function.comp]
        omega
      rw [hshift, show low + (count + 1) = low + 1 + count by omega,
        show amount + (count + 1) = amount + 1 + count by omega]
      have ht := below_lt (w := .half) (Nat.succ_pos (low + 0)) g
      cases hdraw : below .half (low + 0 + 1) g with
      | mk t g' =>
      rw [hdraw] at ht
      refine picks_growingRanges count (low + 1) (amount + 1) _ _ ?_
      have hwide : Picks (low + 1) amount chosen :=
        ⟨h.nodup, h.length_eq, fun i hi => Nat.lt_succ_of_lt (h.lt_bound i hi)⟩
      split
      · exact picks_cons hwide (fun hi => Nat.lt_irrefl _ (h.lt_bound _ hi)) (Nat.lt_succ_self _)
      · next htaken =>
        exact picks_cons hwide (by simpa using htaken) ht

/-- While fewer numbers than the bound are chosen, another one is found. -/
theorem drawFresh_spec {w : WordWidth} {bound amount : Nat} {chosen : List Nat}
    (h : Picks bound amount chosen) (hlt : amount < bound) : ∀ (tries : Nat) (g : G),
    (drawFresh w bound chosen tries g).1 ∉ chosen ∧ (drawFresh w bound chosen tries g).1 < bound
  | 0, g => by
      rw [drawFresh]
      cases hfind : (List.range bound).find? fun i => !chosen.contains i with
      | none =>
        -- all numbers would be chosen, more than there are
        have hsub : List.range bound ⊆ chosen := fun i hi => by
          simpa using List.find?_eq_none.1 hfind i hi
        have hle := List.nodup_range.length_le_of_subset hsub
        rw [List.length_range, h.length_eq] at hle
        omega
      | some i =>
        refine ⟨by simpa using List.find?_some hfind, ?_⟩
        exact List.mem_range.1 (List.mem_of_find?_eq_some hfind)
  | k + 1, g => by
      have hpos : 0 < bound := by omega
      have hi := belowRepeated_lt (w := w) hpos g
      rw [drawFresh]
      cases hdraw : belowRepeated w bound g with
      | mk i g' =>
      rw [hdraw] at hi
      dsimp only
      split
      · exact drawFresh_spec h hlt k g'
      · next hnew => exact ⟨by simpa using hnew, hi⟩

theorem picks_redrawDistinct {w : WordWidth} {bound : Nat} : ∀ (count amount : Nat)
    (chosen : List Nat) (g : G), Picks bound amount chosen → amount + count ≤ bound →
      Picks bound (amount + count) (redrawDistinct w bound count chosen g).1
  | 0, _, _, _, h, _ => h
  | count + 1, amount, chosen, g, h, hle => by
      rw [redrawDistinct, show amount + (count + 1) = amount + 1 + count by omega]
      obtain ⟨hnew, hlt⟩ := drawFresh_spec (w := w) h (by omega) (patience * bound) g
      exact picks_redrawDistinct count (amount + 1) _ _ (picks_cons h hnew hlt) (by omega)

theorem picks_nil (bound : Nat) : Picks bound 0 [] := ⟨List.nodup_nil, rfl, by simp⟩

/-- What is chosen, in ascending order. -/
theorem choose_spec {bound amount : Nat} (h : amount ≤ bound) (g : G) :
    Picks bound amount (choose bound amount g).1 := by
  have hascending : ∀ {xs : List Nat}, Picks bound amount xs →
      Picks bound amount (LabelSet.ofList xs).toList := fun {xs} hxs => by
    refine hxs.perm ((List.perm_ext_iff_of_nodup (LabelSet.ofList xs).nodup hxs.nodup).2 fun i => ?_)
    rw [← LabelSet.mem_def, LabelSet.mem_ofList]
  cases hmethod : choiceMethod bound amount with
  | exchange =>
    simp only [choose, hmethod]
    exact hascending (picks_exchangePlaces h _ g)
  | growing =>
    simp only [choose, hmethod]
    have hpicks := picks_growingRanges amount (bound - amount) 0 [] g (picks_nil _)
    rw [Nat.sub_add_cancel h, Nat.zero_add] at hpicks
    split
    · exact hascending (hpicks.perm (shuffle_perm _ _))
    · exact hascending hpicks
  | redraw w =>
    simp only [choose, hmethod]
    have hpicks := picks_redrawDistinct (w := w) amount 0 [] g (picks_nil bound) (by omega)
    rw [Nat.zero_add] at hpicks
    exact hascending hpicks

/-- Chosen numbers are in ascending order. -/
theorem choose_ascending (bound amount : Nat) (g : G) : (choose bound amount g).1.Pairwise (· < ·) := by
  unfold choose
  exact LabelSet.ascending _

/-- As many numbers as there are below the bound are all of them, so in ascending order each stands at its
own place. -/
theorem Picks.eq_range {bound : Nat} {xs : List Nat} (h : Picks bound bound xs)
    (hascending : xs.Pairwise (· < ·)) : xs = List.range bound := by
  have hsub : xs ⊆ List.range bound := fun i hi => List.mem_range.2 (h.lt_bound i hi)
  have hperm : xs.Perm (List.range bound) :=
    (h.nodup.subperm hsub).perm_of_length_le (by simp [h.length_eq])
  exact eq_of_ascending hascending List.pairwise_lt_range fun i => hperm.mem_iff

/-- A choice of all numbers below a bound is all of them. -/
theorem choose_self (bound : Nat) (g : G) : (choose bound bound g).1 = List.range bound :=
  (choose_spec (Nat.le_refl bound) g).eq_range (choose_ascending bound bound g)

end PursuitForest
