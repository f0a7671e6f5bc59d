import PursuitForest.Proofs.LabelSets
import PursuitForest.Tree.Regrouping
/-!
The cut of the sorted means.

Whatever the means are, and however they compare, sorting that succeeds puts every class in one
place (`sortMeans_perm`), and the cut leaves classes on both sides (`cutPoint_pos`, `cutPoint_lt`).
So the two unions of a regrouping split the classes (`Regrouping.of_ofMeans`). Sorting fails for
more than twenty classes only, and only if some mean differs from itself.
-/

namespace PursuitForest
namespace SortOrder

variable {α : Type} (o : SortOrder α)

theorem insert_perm (a : α) : ∀ xs : List α, (o.insert a xs).Perm (a :: xs)
  | [] => List.Perm.refl _
  | b :: bs => by
      unfold insert
      split
      · exact ((insert_perm a bs).cons b).trans (List.Perm.swap a b bs)
      · exact List.Perm.refl _

theorem insertAll_perm (sorted rest : List α) : (o.insertAll sorted rest).Perm (sorted ++ rest) := by
  have key : ∀ (xs s : List α), (xs.foldl (fun s a => o.insert a s) s).Perm (s ++ xs) := by
    intro xs
    induction xs with
    | nil => intro s; simp
    | cons x xs ih =>
      intro s
      refine (ih (o.insert x s)).trans ?_
      exact ((o.insert_perm x s).append_right xs).trans List.perm_middle.symm
  refine (List.reverse_perm _).trans ((key rest sorted.reverse).trans ?_)
  exact (List.reverse_perm sorted).append_right rest

/-- Sorting by insertion loses nothing, whatever the comparison says. -/
theorem insertion_perm (xs : List α) : (o.insertion xs).Perm xs := o.insertAll_perm [] xs

end SortOrder

variable {F L : Type} [Scalar F] [Label L]

theorem sortMeans_perm {means sorted : List (L × F)} (h : sortMeans means = some sorted) :
    (sorted.map (·.1)).Perm (means.map (·.1)) := by
  unfold sortMeans at h
  split at h
  · cases h
    exact (meanOrder.insertion_perm means).map _
  · dsimp only at h
    split at h
    · next hperm =>
      cases h
      exact List.isPerm_iff.1 hperm
    · cases h

/-- Sorting fails only where more than twenty classes are sorted by means that do not all equal
themselves. -/
theorem sortMeans_eq_none {means : List (L × F)} (h : sortMeans means = none) :
    20 < means.length ∧ ∃ m ∈ means, (m.2 == m.2) = false := by
  unfold sortMeans at h
  split at h
  · cases h
  · next hall =>
    dsimp only at h
    split at h
    · cases h
    · next hperm =>
      refine ⟨Nat.lt_of_not_le fun hle => ?_, by simpa using hall⟩
      refine hperm (List.isPerm_iff.2 ?_)
      rw [SortOrder.sort, if_pos (by omega)]
      exact (meanOrder.insertion_perm means).map _

/-! ### The cut -/

omit [Label L] in
theorem length_gaps (sorted : List (L × F)) : (gaps sorted).length = sorted.length - 1 := by
  rw [gaps, List.length_zipWith, List.length_tail]
  omega

theorem firstLargest_lt : ∀ {xs : List F} {cut i : Nat} {best : F}, cut < i →
    firstLargest cut best i xs < i + xs.length
  | [], _, _, _, h => by simpa [firstLargest] using h
  | x :: xs, cut, i, best, h => by
      unfold firstLargest
      rw [List.length_cons]
      split
      · have hlt : firstLargest i x (i + 1) xs < i + 1 + xs.length := firstLargest_lt (by omega)
        omega
      · have hlt : firstLargest cut best (i + 1) xs < i + 1 + xs.length :=
          firstLargest_lt (by omega)
        omega

omit [Label L] in
theorem cutPoint_lt {sorted : List (L × F)} (h : 2 ≤ sorted.length) :
    cutPoint sorted < sorted.length := by
  have hlen := length_gaps sorted
  unfold cutPoint
  split
  · omega
  · next g gs hg =>
    rw [hg, List.length_cons] at hlen
    have hlt : firstLargest 0 g 1 gs < 1 + gs.length := firstLargest_lt (by omega)
    omega

omit [Label L] in
theorem cutPoint_pos {sorted : List (L × F)} (h : 2 ≤ sorted.length) : 0 < cutPoint sorted := by
  have hlen := length_gaps sorted
  unfold cutPoint
  split
  · next hg => rw [hg, List.length_nil] at hlen; omega
  · omega

/-! ### The unions -/

omit [Scalar F] in
theorem ClassUnion.ofMeans_eq_some_iff {means : List (L × F)} {u : ClassUnion L} :
    ClassUnion.ofMeans means = some u ↔
      u.classes = LabelSet.ofList (means.map (·.1)) ∧ u.classes.min? = some u.label := by
  unfold ofMeans
  rw [Option.map_eq_some_iff]
  constructor
  · rintro ⟨label, hl, rfl⟩; exact ⟨rfl, hl⟩
  · rintro ⟨hc, hl⟩
    refine ⟨u.label, hc ▸ hl, ?_⟩
    rw [← hc]

omit [Scalar F] in
/-- Some classes have a union. -/
theorem ClassUnion.exists_ofMeans {means : List (L × F)} (h : means ≠ []) :
    ∃ u, ClassUnion.ofMeans means = some u := by
  obtain ⟨m, ms, rfl⟩ := List.exists_cons_of_ne_nil h
  have hm : m.1 ∈ LabelSet.ofList ((m :: ms).map (·.1)) := by simp
  obtain ⟨x, hx⟩ := LabelSet.exists_min? hm
  exact ⟨⟨x, _⟩, ofMeans_eq_some_iff.2 ⟨rfl, hx⟩⟩

/-- A regrouping of the classes of a set: its unions split the set, and each is named by its
smallest class. -/
structure Regrouping.Of (r : Regrouping L) (s : LabelSet L) : Prop where
  splits : s.Splits r.below.classes r.above.classes
  below_min : r.below.classes.min? = some r.below.label
  above_min : r.above.classes.min? = some r.above.label

/-- Means are regrouped by sorting them and taking the unions on either side of the cut. -/
theorem Regrouping.ofMeans_eq_ok_iff {means : List (L × F)} {r : Regrouping L} :
    Regrouping.ofMeans means = .ok r ↔ ∃ sorted, sortMeans means = some sorted ∧
      ClassUnion.ofMeans (sorted.take (cutPoint sorted)) = some r.below ∧
        ClassUnion.ofMeans (sorted.drop (cutPoint sorted)) = some r.above := by
  unfold Regrouping.ofMeans
  cases hs : sortMeans means with
  | none => simp
  | some sorted =>
    simp only [Option.some.injEq, exists_eq_left']
    split
    · next below above hb ha =>
      rw [hb, ha, Except.ok.injEq, Option.some.injEq, Option.some.injEq]
      constructor
      · rintro rfl
        exact ⟨rfl, rfl⟩
      · rintro ⟨rfl, rfl⟩
        rfl
    · next hnot =>
      constructor
      · intro h
        cases h
      · rintro ⟨hb, ha⟩
        exact (hnot _ _ hb ha).elim

/-- Means of different classes are regrouped into two unions. -/
theorem Regrouping.of_ofMeans {means : List (L × F)} {r : Regrouping L}
    (hn : (means.map (·.1)).Nodup) (h : Regrouping.ofMeans means = .ok r) :
    r.Of (LabelSet.ofList (means.map (·.1))) := by
  obtain ⟨sorted, hs, hb, ha⟩ := ofMeans_eq_ok_iff.1 h
  have hp := sortMeans_perm hs
  obtain ⟨hb1, hb2⟩ := ClassUnion.ofMeans_eq_some_iff.1 hb
  obtain ⟨ha1, ha2⟩ := ClassUnion.ofMeans_eq_some_iff.1 ha
  rw [List.map_take] at hb1
  rw [List.map_drop] at ha1
  have hcut := List.take_append_drop (cutPoint sorted) (sorted.map (·.1))
  -- labels do not repeat, so no class is on both sides of the cut
  have hdisj : ∀ x ∈ (sorted.map (·.1)).take (cutPoint sorted),
      x ∉ (sorted.map (·.1)).drop (cutPoint sorted) := fun x hx hx' => by
    have hn' := hp.nodup_iff.2 hn
    rw [← hcut] at hn'
    exact (List.nodup_append.1 hn').2.2 x hx x hx' rfl
  refine ⟨⟨⟨_, LabelSet.min?_mem hb2⟩, ⟨_, LabelSet.min?_mem ha2⟩, ?_, ?_⟩, hb2, ha2⟩
  · intro x hx hx'
    rw [hb1, LabelSet.mem_ofList] at hx
    rw [ha1, LabelSet.mem_ofList] at hx'
    exact hdisj x hx hx'
  · intro x
    rw [hb1, ha1, LabelSet.mem_ofList, LabelSet.mem_ofList, LabelSet.mem_ofList, ← hp.mem_iff,
      ← List.mem_append, hcut]

/-- Two or more means are regrouped unless they cannot be sorted. -/
theorem Regrouping.ofMeans_cases {means : List (L × F)} (h : 2 ≤ means.length) :
    (∃ r, Regrouping.ofMeans means = .ok r) ∨
      (sortMeans means = none ∧ Regrouping.ofMeans means = .error (.misuse .inconsistentOrder)) := by
  unfold Regrouping.ofMeans
  cases hs : sortMeans means with
  | none => exact .inr ⟨rfl, rfl⟩
  | some sorted =>
    have hlen : sorted.length = means.length := by simpa using (sortMeans_perm hs).length_eq
    have hpos : 0 < cutPoint sorted := cutPoint_pos (by omega)
    have hlt : cutPoint sorted < sorted.length := cutPoint_lt (by omega)
    have hb : sorted.take (cutPoint sorted) ≠ [] :=
      List.ne_nil_of_length_pos (by rw [List.length_take]; omega)
    have ha : sorted.drop (cutPoint sorted) ≠ [] :=
      List.ne_nil_of_length_pos (by rw [List.length_drop]; omega)
    obtain ⟨below, hb⟩ := ClassUnion.exists_ofMeans hb
    obtain ⟨above, ha⟩ := ClassUnion.exists_ofMeans ha
    refine .inl ⟨⟨below, above⟩, ?_⟩
    simp only [hb, ha]

end PursuitForest
