import PursuitForest.Proofs.OrderedScalar
import PursuitForest.Proofs.Tree.Division
/-!
The cut at the largest gap.

Means of an ordered field are sorted in one way only, by mean and then by label
(`sortMeans_eq_some_iff`), so the order in which classes are listed does not matter. The scan of the
gaps keeps the first of the largest seen so far (`FirstLargestAt.scan`). The two unions of classes are
therefore what lies on either side of the first largest gap (`Regrouping.ofMeans_cuts`).
-/

namespace PursuitForest

/-! ### Sorting by a linear order -/

namespace SortOrder

variable {α : Type} {o : SortOrder α}

/-- Entries compare by a linear order. -/
structure Linear (o : SortOrder α) : Prop where
  asymm : ∀ a b, o.less a b = true → o.less b a = false
  trans : ∀ a b c, o.less a b = true → o.less b c = true → o.less a c = true
  total : ∀ a b, o.less a b = true ∨ a = b ∨ o.less b a = true

namespace Linear

/-- What is not before `b` is not before anything that `b` is not before. -/
theorem not_less_trans (h : o.Linear) {a b c : α} (hab : o.less a b = false)
    (hbc : o.less b c = false) : o.less a c = false := by
  rcases h.total b a with hba | rfl | hab'
  · rcases h.total c b with hcb | rfl | hbc'
    · exact h.asymm _ _ (h.trans _ _ _ hcb hba)
    · exact hab
    · rw [hbc'] at hbc
      cases hbc
  · exact hbc
  · rw [hab'] at hab
    cases hab

/-- An entry is put between the entries that it precedes and the others, in a list sorted from the last
entry to the first. -/
theorem insert_sorted (h : o.Linear) (a : α) : ∀ {xs : List α},
    xs.Pairwise (fun x y => o.less x y = false) →
      (o.insert a xs).Pairwise fun x y => o.less x y = false
  | [], _ => List.pairwise_singleton _ _
  | b :: bs, hs => by
      obtain ⟨hb, hbs⟩ := List.pairwise_cons.1 hs
      unfold insert
      split
      · next hab =>
        refine List.pairwise_cons.2 ⟨fun y hy => ?_, h.insert_sorted a hbs⟩
        rcases List.mem_cons.1 ((o.insert_perm a bs).mem_iff.1 hy) with rfl | hy
        · exact h.asymm _ _ hab
        · exact hb y hy
      · next hab =>
        have hab : o.less a b = false := by simpa using hab
        refine List.pairwise_cons.2 ⟨fun y hy => ?_, hs⟩
        rcases List.mem_cons.1 hy with rfl | hy
        · exact hab
        · exact h.not_less_trans hab (hb y hy)

/-- Insertion sorts. -/
theorem insertion_sorted (h : o.Linear) (xs : List α) :
    (o.insertion xs).Pairwise fun x y => o.less y x = false := by
  have key : ∀ (xs s : List α), s.Pairwise (fun x y => o.less x y = false) →
      (xs.foldl (fun s a => o.insert a s) s).Pairwise fun x y => o.less x y = false := by
    intro xs
    induction xs with
    | nil => exact fun s hs => hs
    | cons x xs ih => exact fun s hs => ih _ (h.insert_sorted x hs)
  exact List.pairwise_reverse.2 (key xs [] List.Pairwise.nil)

end Linear
end SortOrder

/-! ### Sorting means -/

variable {K L : Type} [OrderedScalar K] [Label L]

/-- A class comes before another in the order of means, and of labels where the means are equal. -/
def RanksBelow (a b : L × K) : Prop := a.2 < b.2 ∨ a.2 = b.2 ∧ a.1 < b.1

namespace RanksBelow

theorem trans {a b c : L × K} (hab : RanksBelow a b) (hbc : RanksBelow b c) : RanksBelow a c := by
  rcases hab with hab | ⟨hab, hab'⟩ <;> rcases hbc with hbc | ⟨hbc, hbc'⟩
  · exact .inl (hab.trans hbc)
  · exact .inl (hbc ▸ hab)
  · exact .inl (hab ▸ hbc)
  · exact .inr ⟨hab.trans hbc, Label.lt_trans hab' hbc'⟩

theorem irrefl (a : L × K) : ¬ RanksBelow a a := by
  rintro (h | ⟨-, h⟩)
  · exact lt_irrefl _ h
  · exact Label.lt_irrefl _ h

theorem total (a b : L × K) : RanksBelow a b ∨ a = b ∨ RanksBelow b a := by
  rcases lt_trichotomy a.2 b.2 with h | h | h
  · exact .inl (.inl h)
  · rcases Std.lt_trichotomy a.1 b.1 with h' | h' | h'
    · exact .inl (.inr ⟨h, h'⟩)
    · exact .inr (.inl (Prod.ext h' h))
    · exact .inr (.inr (.inr ⟨h.symm, h'⟩))
  · exact .inr (.inr (.inl h))

theorem le {a b : L × K} (h : RanksBelow a b) : a.2 ≤ b.2 :=
  h.elim le_of_lt fun h => le_of_eq h.1

end RanksBelow

theorem precedes_iff {a b : L × K} : precedes a b = true ↔ RanksBelow a b := by
  unfold precedes RanksBelow
  rcases lt_trichotomy a.2 b.2 with h | h | h
  · simp [h]
  · simp [h]
  · simp [h, h.not_gt, h.ne']

theorem linear_meanOrder : (meanOrder : SortOrder (L × K)).Linear where
  asymm a b hab := by
    have hab : RanksBelow a b := precedes_iff.1 hab
    exact Bool.eq_false_iff.2 fun hba => RanksBelow.irrefl a (hab.trans (precedes_iff.1 hba))
  trans a b c hab hbc := precedes_iff.2 ((precedes_iff.1 hab).trans (precedes_iff.1 hbc))
  total a b := (RanksBelow.total a b).imp precedes_iff.2 (.imp id precedes_iff.2)

/-- Means of different classes are sorted in one way. -/
theorem sortMeans_eq_some_iff {means sorted : List (L × K)} (hn : (means.map (·.1)).Nodup) :
    sortMeans means = some sorted ↔ sorted.Perm means ∧ sorted.Pairwise RanksBelow := by
  have hself : (means.all fun m => m.2 == m.2) = true :=
    List.all_eq_true.2 fun m _ => decide_eq_true rfl
  have hperm := meanOrder.insertion_perm means
  have hranked : (meanOrder.insertion means).Pairwise RanksBelow := by
    have hdiff : (meanOrder.insertion means).Pairwise fun a b => a.1 ≠ b.1 :=
      List.pairwise_map.1 ((hperm.map _).nodup_iff.2 hn)
    refine (hdiff.and (linear_meanOrder.insertion_sorted means)).imp fun {a b} ⟨hne, hba⟩ => ?_
    rcases RanksBelow.total a b with h | rfl | h
    · exact h
    · exact absurd rfl hne
    · exact absurd (precedes_iff.2 h) (Bool.eq_false_iff.1 hba)
  rw [sortMeans, if_pos hself, Option.some.injEq]
  constructor
  · rintro rfl
    exact ⟨hperm, hranked⟩
  · rintro ⟨hp, hs⟩
    refine (hperm.trans hp.symm).eq_of_pairwise (fun a b _ _ hab hba => ?_) hranked hs
    exact absurd (hab.trans hba) (RanksBelow.irrefl a)

/-! ### The first largest gap -/

omit [Label L] in
/-- Neighbours are a gap apart. -/
theorem sub_mem_gaps {a b : L × K} : ∀ {sorted : List (L × K)}, [a, b] <:+: sorted →
    b.2 - a.2 ∈ gaps sorted
  | sorted, ⟨before, after, h⟩ => by
      subst h
      induction before with
      | nil => simp [gaps]
      | cons x before ih =>
        obtain ⟨y, rest, hrest⟩ : ∃ y rest, before ++ [a, b] ++ after = y :: rest :=
          List.exists_cons_of_ne_nil (by simp)
        simp only [List.cons_append]
        rw [hrest] at ih ⊢
        exact List.mem_cons_of_mem _ ih

omit [Label L] in
/-- The first gaps are those between the first classes. -/
theorem gaps_take : ∀ (sorted : List (L × K)) (cut : Nat),
    gaps (sorted.take (cut + 1)) = (gaps sorted).take cut
  | [], _ => by simp [gaps]
  | [a], cut => by simp [gaps]
  | a :: b :: sorted, 0 => by simp [gaps]
  | a :: b :: sorted, cut + 1 => by
      have ih := gaps_take (b :: sorted) cut
      rw [List.take_succ_cons] at ih ⊢
      exact congrArg (List.cons (b.2 - a.2)) ih

/-- The first of the largest values of a list stands at place `cut`. -/
structure FirstLargestAt (xs : List K) (cut : Nat) (best : K) : Prop where
  value : xs[cut]? = some best
  le : ∀ x ∈ xs, x ≤ best
  lt : ∀ x ∈ xs.take cut, x < best

namespace FirstLargestAt

variable {xs : List K} {cut : Nat} {best x : K}

theorem append_larger (h : FirstLargestAt xs cut best) (hx : best < x) :
    FirstLargestAt (xs ++ [x]) xs.length x where
  value := List.getElem?_concat_length
  le y hy := by
    rcases List.mem_append.1 hy with hy | hy
    · exact (h.le y hy).trans hx.le
    · exact (List.mem_singleton.1 hy).le
  lt y hy := by
    rw [List.take_left] at hy
    exact (h.le y hy).trans_lt hx

theorem append_not_larger (h : FirstLargestAt xs cut best) (hx : ¬ best < x) :
    FirstLargestAt (xs ++ [x]) cut best := by
  have hcut : cut < xs.length := (List.getElem?_eq_some_iff.1 h.value).1
  refine ⟨by rw [List.getElem?_append_left hcut, h.value], fun y hy => ?_, fun y hy => ?_⟩
  · rcases List.mem_append.1 hy with hy | hy
    · exact h.le y hy
    · exact List.mem_singleton.1 hy ▸ not_lt.1 hx
  · rw [List.take_append_of_le_length hcut.le] at hy
    exact h.lt y hy

/-- The scan ends with the first of the largest values. -/
theorem scan : ∀ (xs : List K) {seen : List K} {cut : Nat} {best : K}, FirstLargestAt seen cut best →
    ∃ value, FirstLargestAt (seen ++ xs) (firstLargest cut best seen.length xs) value
  | [], seen, cut, best, h => ⟨best, by simpa [firstLargest] using h⟩
  | x :: xs, seen, cut, best, h => by
      have hseen : seen ++ x :: xs = seen ++ [x] ++ xs := by simp
      have hlength : (seen ++ [x]).length = seen.length + 1 := by simp
      rw [hseen, firstLargest, ← hlength]
      split
      · next hx => exact scan xs (h.append_larger hx)
      · next hx => exact scan xs (h.append_not_larger hx)

end FirstLargestAt

omit [Label L] in
theorem getElem?_gaps (before : List (L × K)) (p q : L × K) (after : List (L × K)) :
    (gaps (before ++ p :: q :: after))[before.length]? = some (q.2 - p.2) := by
  have hp : (before ++ p :: q :: after)[before.length]? = some p := by simp
  have hq : (before ++ p :: q :: after).tail[before.length]? = some q := by
    rw [List.getElem?_tail, List.getElem?_append_right (Nat.le_succ _)]
    simp
  rw [gaps, List.getElem?_zipWith, hp, hq]

omit [Label L] in
/-- Sorted classes are cut at the first largest gap. -/
theorem exists_cutPoint {sorted : List (L × K)} (h : 2 ≤ sorted.length) : ∃ before p q after,
    sorted = before ++ p :: q :: after ∧ cutPoint sorted = before.length + 1 ∧
      (∀ a b, [a, b] <:+: sorted → b.2 - a.2 ≤ q.2 - p.2) ∧
      ∀ a b, [a, b] <:+: before ++ [p] → b.2 - a.2 < q.2 - p.2 := by
  have hlength := length_gaps sorted
  obtain ⟨g, gs, hgaps⟩ : ∃ g gs, gaps sorted = g :: gs :=
    List.exists_cons_of_length_pos (by omega)
  have hfirst : FirstLargestAt [g] 0 g :=
    ⟨rfl, fun x hx => (List.mem_singleton.1 hx).le, fun x hx => absurd hx List.not_mem_nil⟩
  obtain ⟨best, hbest⟩ := hfirst.scan gs
  have hcut : cutPoint sorted = firstLargest 0 g 1 gs + 1 := by rw [cutPoint, hgaps]
  rw [List.singleton_append, ← hgaps, List.length_singleton] at hbest
  generalize firstLargest 0 g 1 gs = cut at hbest hcut
  have hlt : cut < (gaps sorted).length := (List.getElem?_eq_some_iff.1 hbest.value).1
  obtain ⟨before, p, q, after, rfl, hbefore⟩ : ∃ before p q after,
      sorted = before ++ p :: q :: after ∧ before.length = cut := by
    have hat : cut < sorted.length := by omega
    have hnext : cut + 1 < sorted.length := by omega
    refine ⟨sorted.take cut, sorted[cut], sorted[cut + 1], sorted.drop (cut + 2), ?_,
      by rw [List.length_take]; omega⟩
    rw [← List.drop_eq_getElem_cons, ← List.drop_eq_getElem_cons, List.take_append_drop]
  subst hbefore
  obtain rfl : q.2 - p.2 = best :=
    Option.some.inj ((getElem?_gaps before p q after).symm.trans hbest.value)
  refine ⟨before, p, q, after, rfl, hcut, fun a b hab => hbest.le _ (sub_mem_gaps hab),
    fun a b hab => ?_⟩
  have htake : (before ++ p :: q :: after).take (before.length + 1) = before ++ [p] := by
    rw [List.take_length_add_append, List.take_succ_cons, List.take_zero]
  refine hbest.lt _ ?_
  rw [← gaps_take, htake]
  exact sub_mem_gaps hab

/-! ### The unions -/

/-- Two unions of classes, on either side of the first largest gap between the means. -/
structure Regrouping.Cuts (r : Regrouping L) (means : List (L × K)) : Prop where
  splits : (LabelSet.ofList (means.map (·.1))).Splits r.below.classes r.above.classes
  mean_le : ∀ a ∈ means, ∀ b ∈ means, a.1 ∈ r.below.classes → b.1 ∈ r.above.classes → a.2 ≤ b.2
  gap : ∃ before p q after, (before ++ p :: q :: after).Perm means ∧
    (before ++ p :: q :: after).Pairwise RanksBelow ∧
    r.below.classes = .ofList ((before ++ [p]).map (·.1)) ∧
    r.above.classes = .ofList ((q :: after).map (·.1)) ∧
    (∀ a b, [a, b] <:+: before ++ p :: q :: after → b.2 - a.2 ≤ q.2 - p.2) ∧
    ∀ a b, [a, b] <:+: before ++ [p] → b.2 - a.2 < q.2 - p.2
  below_least : r.below.label ∈ r.below.classes ∧ ∀ c ∈ r.below.classes, r.below.label ≤ c
  above_least : r.above.label ∈ r.above.classes ∧ ∀ c ∈ r.above.classes, r.above.label ≤ c
  label_ne : r.below.label ≠ r.above.label
  target_below : ∀ c ∈ r.below.classes, r.target c = r.below.label
  target_above : ∀ c ∈ r.above.classes, r.target c = r.above.label
  classesOf_eq : ∀ c classes, r.classesOf? c = some classes ↔
    c = r.below.label ∧ classes = r.below.classes ∨ c = r.above.label ∧ classes = r.above.classes

omit [OrderedScalar K] [Label L] in
/-- A class among different classes is found by its label. -/
theorem mem_of_label_mem {means part : List (L × K)} (hn : (means.map (·.1)).Nodup)
    (hpart : ∀ a ∈ part, a ∈ means) {a : L × K} (ha : a ∈ means) (hlabel : a.1 ∈ part.map (·.1)) :
    a ∈ part := by
  obtain ⟨b, hb, hba⟩ := List.mem_map.1 hlabel
  rwa [List.inj_on_of_nodup_map hn (hpart b hb) ha hba] at hb

/-- Unions of sorted classes up to the cut and from the cut on. -/
theorem Regrouping.Of.cuts {means sorted : List (L × K)} {r : Regrouping L}
    (ho : r.Of (.ofList (means.map (·.1)))) (hlength : 2 ≤ means.length)
    (hn : (means.map (·.1)).Nodup) (hperm : sorted.Perm means) (hranked : sorted.Pairwise RanksBelow)
    (hbelow : r.below.classes = .ofList ((sorted.take (cutPoint sorted)).map (·.1)))
    (habove : r.above.classes = .ofList ((sorted.drop (cutPoint sorted)).map (·.1))) :
    r.Cuts means where
  splits := ho.splits
  mean_le a ha b hb hac hbc := by
    rw [hbelow, LabelSet.mem_ofList] at hac
    rw [habove, LabelSet.mem_ofList] at hbc
    have ha := mem_of_label_mem hn (fun x hx => hperm.mem_iff.1 (List.mem_of_mem_take hx)) ha hac
    have hb := mem_of_label_mem hn (fun x hx => hperm.mem_iff.1 (List.mem_of_mem_drop hx)) hb hbc
    rw [← List.take_append_drop (cutPoint sorted) sorted] at hranked
    exact ((List.pairwise_append.1 hranked).2.2 a ha b hb).le
  gap := by
    obtain ⟨before, p, q, after, rfl, hcut, hle, hlt⟩ :=
      exists_cutPoint (by rw [hperm.length_eq]; exact hlength)
    refine ⟨before, p, q, after, hperm, hranked, ?_, ?_, hle, hlt⟩
    · rw [hbelow, hcut, List.take_length_add_append, List.take_succ_cons, List.take_zero]
    · rw [habove, hcut, List.drop_length_add_append, List.drop_succ_cons, List.drop_zero]
  below_least := ⟨LabelSet.min?_mem ho.below_min, fun _ => LabelSet.min?_le ho.below_min⟩
  above_least := ⟨LabelSet.min?_mem ho.above_min, fun _ => LabelSet.min?_le ho.above_min⟩
  label_ne := ho.below_ne_above
  target_below _ hc := Regrouping.target_of_mem_below hc
  target_above _ hc := ho.target_of_mem_above hc
  classesOf_eq c classes := by
    rw [← ho.side_eq_ok_iff (F := K), Regrouping.side]
    cases r.classesOf? c <;> simp

/-- Two or more classes are regrouped by a cut at the first largest gap between their means, in whatever
order they are listed. -/
theorem Regrouping.ofMeans_cuts {means : List (L × K)} (hlength : 2 ≤ means.length)
    (hn : (means.map (·.1)).Nodup) : ∃ r, r.Cuts means ∧
      ∀ means' : List (L × K), means'.Perm means → Regrouping.ofMeans means' = .ok r := by
  obtain ⟨r, hr⟩ | ⟨hnone, -⟩ := Regrouping.ofMeans_cases hlength
  swap
  · obtain ⟨-, m, -, hm⟩ := sortMeans_eq_none hnone
    exact absurd (decide_eq_true rfl) (Bool.eq_false_iff.1 hm)
  obtain ⟨sorted, hsort, hbelow, habove⟩ := ofMeans_eq_ok_iff.1 hr
  obtain ⟨hperm, hranked⟩ := (sortMeans_eq_some_iff hn).1 hsort
  refine ⟨r, (of_ofMeans hn hr).cuts hlength hn hperm hranked
    (ClassUnion.ofMeans_eq_some_iff.1 hbelow).1 (ClassUnion.ofMeans_eq_some_iff.1 habove).1,
    fun means' hperm' => ofMeans_eq_ok_iff.2 ⟨sorted, ?_, hbelow, habove⟩⟩
  -- the sorted list of the means in another order is the same
  exact (sortMeans_eq_some_iff ((hperm'.map _).nodup_iff.2 hn)).2 ⟨hperm.trans hperm'.symm, hranked⟩

/-- Five classes, two of which have the same mean. -/
def fiveMeans : List (Nat × ℚ) := [(9, 1), (4, 7), (7, 0), (2, 4), (5, 1)]

/-- The gap below 4 and the gap above it are the largest, and the cut is at the first of them. -/
theorem Regrouping.ofMeans_cuts_fiveMeans : 2 ≤ fiveMeans.length ∧ (fiveMeans.map (·.1)).Nodup ∧
    ∃ r, r.Cuts fiveMeans ∧ r.below.label = 5 ∧ r.below.classes.toList = [5, 7, 9] ∧
      r.above.label = 2 ∧ r.above.classes.toList = [2, 4] ∧
      Regrouping.ofMeans fiveMeans.reverse = .ok r := by
  have hlength : 2 ≤ fiveMeans.length := by decide
  have hn : (fiveMeans.map (·.1)).Nodup := by decide
  obtain ⟨r, hcuts, hperm⟩ := Regrouping.ofMeans_cuts hlength hn
  have hr := hperm fiveMeans (.refl _)
  have hvalue : (Regrouping.ofMeans fiveMeans).toOption.map (fun r =>
      (r.below.label, r.below.classes.toList, r.above.label, r.above.classes.toList)) =
      some (5, [5, 7, 9], 2, [2, 4]) := by
    decide +kernel
  rw [hr] at hvalue
  simp only [Except.toOption, Option.map_some, Option.some.injEq, Prod.mk.injEq] at hvalue
  obtain ⟨hbelow, hbelows, habove, haboves⟩ := hvalue
  exact ⟨hlength, hn, r, hcuts, hbelow, hbelows, habove, haboves,
    hperm _ (List.reverse_perm _)⟩

end PursuitForest
