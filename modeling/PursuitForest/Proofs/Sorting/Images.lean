import PursuitForest.Sorting.Adaptive
/-!
Sorting sees entries through their comparison only.

If a map keeps what a comparison says of any two entries, sorting the images gives the images of what
sorting gives, even where the comparison is no order: every step takes the same entries from the same
places (`SortOrder.map_sort`). Insertion does not look at how many entries are brought in order at
once, so the two orders may differ in that (`SortOrder.map_insertion`).
-/

namespace PursuitForest

variable {α β : Type} {k : α → β}

/-- A run with images as its entries. -/
def Run.map (k : α → β) (r : Run α) : Run β := ⟨r.entries.map k, r.sorted⟩

namespace SortOrder

variable {o : SortOrder α} {p : SortOrder β}

/-- Images compare as the entries do. -/
def Reflects (k : α → β) (o : SortOrder α) (p : SortOrder β) : Prop :=
  ∀ a b, p.less (k a) (k b) = o.less a b

/-- Images compare as the entries do, and as many of them are brought in order at once. -/
structure Transports (k : α → β) (o : SortOrder α) (p : SortOrder β) : Prop where
  reflects : Reflects k o p
  lead_eq : p.lead = o.lead

/-! ### Short lists -/

theorem map_insert (h : Reflects k o p) (a : α) : ∀ xs : List α,
    (o.insert a xs).map k = p.insert (k a) (xs.map k)
  | [] => rfl
  | b :: bs => by
      rw [insert, List.map_cons, insert, h]
      split
      · rw [List.map_cons, map_insert h a bs]
      · rfl

theorem map_insertAll (h : Reflects k o p) (sorted rest : List α) :
    (o.insertAll sorted rest).map k = p.insertAll (sorted.map k) (rest.map k) := by
  have key : ∀ xs s : List α, (xs.foldl (fun s a => o.insert a s) s).map k =
      (xs.map k).foldl (fun s a => p.insert a s) (s.map k) := by
    intro xs
    induction xs with
    | nil => intro s; rfl
    | cons x xs ih =>
      intro s
      rw [List.foldl_cons, ih, map_insert h, List.map_cons, List.foldl_cons]
  rw [insertAll, insertAll, List.map_reverse, key, List.map_reverse]

theorem map_insertion (h : Reflects k o p) (xs : List α) :
    (o.insertion xs).map k = p.insertion (xs.map k) :=
  map_insertAll h [] xs

theorem mergeSteps_map (fromLeft : α → α → Bool) (fromLeft' : β → β → Bool)
    (h : ∀ a b, fromLeft' (k a) (k b) = fromLeft a b) : ∀ (n : Nat) (left right : List α),
    mergeSteps fromLeft' n (left.map k) (right.map k) =
      ((mergeSteps fromLeft n left right).1.map k, (mergeSteps fromLeft n left right).2.1.map k,
        (mergeSteps fromLeft n left right).2.2.map k)
  | 0, _, _ => by simp only [mergeSteps, List.map_nil]
  | _ + 1, [], _ => by simp only [mergeSteps, List.map_nil]
  | _ + 1, _ :: _, [] => by simp only [mergeSteps, List.map_nil, List.map_cons]
  | n + 1, x :: xs, y :: ys => by
      have hleft := mergeSteps_map fromLeft fromLeft' h n xs (y :: ys)
      have hright := mergeSteps_map fromLeft fromLeft' h n (x :: xs) ys
      rw [List.map_cons] at hleft hright
      rw [List.map_cons, List.map_cons, mergeSteps, mergeSteps, h]
      split
      · rw [hleft]
        rfl
      · rw [hright]
        rfl

theorem map_mergeEnds (h : Reflects k o p) (left right : List α) :
    (o.mergeEnds left right).map k = p.mergeEnds (left.map k) (right.map k) := by
  have hfront := mergeSteps_map (k := k) (fun x y => !o.less y x) (fun x y => !p.less y x)
    (fun a b => by rw [h]) left.length left right
  have hback := mergeSteps_map (k := k) (fun x y => o.less y x) (fun x y => p.less y x)
    (fun a b => h b a) left.length left.reverse right.reverse
  rw [List.map_reverse, List.map_reverse] at hback
  simp only [mergeEnds, List.length_map, hfront, hback, List.map_append, List.map_reverse]
  split
  · rfl
  · split
    · rw [List.map_take]
    · rw [List.map_take]

theorem map_four (h : Reflects k o p) (a b c d : α) :
    (o.four a b c d).map k = p.four (k a) (k b) (k c) (k d) := by
  have hpair : ∀ x y : α, (if o.less y x then (k y, k x) else (k x, k y)) =
      Prod.map k k (if o.less y x then (y, x) else (x, y)) := fun x y => by
    split <;> rfl
  simp only [four, h _ _, hpair, Prod.map_fst, Prod.map_snd, ← apply_ite k]
  rw [apply_ite (List.map k)]
  rfl

theorem map_front (h : Reflects k o p) : ∀ xs : List α, (o.front xs).map k = p.front (xs.map k)
  | [a, b, c, d] => map_four h a b c d
  | [a, b, c, d, e, f, g, i] => by
      simp only [front, List.map_cons, List.map_nil, map_mergeEnds h, map_four h]
  | [] | [_] | [_, _] | [_, _, _] | [_, _, _, _, _] | [_, _, _, _, _, _] | [_, _, _, _, _, _, _]
  | _ :: _ :: _ :: _ :: _ :: _ :: _ :: _ :: _ :: _ => rfl

theorem map_half (h : Reflects k o p) (lead : Nat) (xs : List α) :
    (o.half lead xs).map k = p.half lead (xs.map k) := by
  rw [half, half, map_insertAll h, map_front h, List.map_take, List.map_drop]

theorem map_short (h : Transports k o p) (xs : List α) : (o.short xs).map k = p.short (xs.map k) := by
  simp only [short, List.length_map, h.lead_eq]
  split
  · rfl
  · rw [map_mergeEnds h.reflects, map_half h.reflects, map_half h.reflects, List.map_take,
      List.map_drop]

/-! ### Runs -/

theorem following_map (r : α → α → Bool) (r' : β → β → Bool) (h : ∀ a b, r' (k a) (k b) = r a b) :
    ∀ (a : α) (xs : List α), following r' (k a) (xs.map k) = following r a xs
  | _, [] => rfl
  | a, b :: bs => by rw [List.map_cons, following, following, h, following_map r r' h b bs]

theorem naturalRun_map (h : Reflects k o p) : ∀ xs : List α,
    p.naturalRun (xs.map k) = Prod.map (List.map k) (List.map k) (o.naturalRun xs)
  | [] | [_] => rfl
  | a :: b :: xs => by
      have hdown := following_map (k := k) (fun x y => o.less y x) (fun x y => p.less y x)
        (fun x y => h y x) b xs
      have hup := following_map (k := k) (fun x y => !o.less y x) (fun x y => !p.less y x)
        (fun x y => by rw [h]) b xs
      simp only [naturalRun, List.map_cons, h b a, hdown, hup]
      split
      · simp [List.map_take, List.map_drop]
      · simp [List.map_take, List.map_drop]

theorem firstRun_map (h : Transports k o p) (eager : Bool) (enough : Nat) (xs : List α) :
    p.firstRun eager enough (xs.map k) =
      Prod.map (Run.map k) (List.map k) (o.firstRun eager enough xs) := by
  simp only [firstRun, naturalRun_map h.reflects, Prod.map_fst, Prod.map_snd, List.length_map]
  split
  · rfl
  · split
    · simp only [Prod.map_apply, Run.map, map_short h, List.map_take, List.map_drop]
    · simp only [Prod.map_apply, Run.map, List.map_take, List.map_drop]

theorem runs_map (h : Transports k o p) (eager : Bool) (enough : Nat) : ∀ (length : Nat)
    (xs : List α), p.runs eager enough length (xs.map k) =
      (o.runs eager enough length xs).map (Run.map k)
  | _, [] => by simp [runs]
  | 0, _ :: _ => by simp [runs]
  | length + 1, x :: xs => by
      have hfirst := firstRun_map h eager enough (x :: xs)
      rw [List.map_cons] at hfirst
      simp [runs, hfirst, runs_map h eager enough length]

theorem map_merge (h : Reflects k o p) (left right : List α) :
    (o.merge left right).map k = p.merge (left.map k) (right.map k) := by
  simp only [merge, List.length_map]
  split
  · exact List.map_merge fun a _ b _ => by rw [h]
  · have hbehind : (right.reverse.merge left.reverse fun y x => !o.less y x).map k =
        (right.reverse.map k).merge (left.reverse.map k) fun y x => !p.less y x :=
      List.map_merge fun y _ x _ => by rw [h]
    rw [List.map_reverse, hbehind, List.map_reverse, List.map_reverse]

section
variable {finish : List α → List α} {finish' : List β → List β}

theorem join_map (h : Reflects k o p) (hfinish : ∀ xs, finish' (xs.map k) = (finish xs).map k)
    (left right : Run α) :
    p.join finish' (left.map k) (right.map k) = (o.join finish left right).map k := by
  have hsettle : ∀ r : Run α, (if r.sorted then r.entries.map k else finish' (r.entries.map k)) =
      (if r.sorted then r.entries else finish r.entries).map k := fun r => by
    rw [hfinish]
    split <;> rfl
  obtain ⟨xs, sorted⟩ := left
  obtain ⟨ys, sorted'⟩ := right
  have hleft := hsettle ⟨xs, sorted⟩
  have hright := hsettle ⟨ys, sorted'⟩
  dsimp only [join, Run.map] at hleft hright ⊢
  rw [hleft, hright, ← map_merge h, ← List.map_append]
  split <;> rfl

theorem joinDeeper_map (h : Reflects k o p) (hfinish : ∀ xs, finish' (xs.map k) = (finish xs).map k)
    (cut : Nat) : ∀ (last : Run α) (stack : List (Run α × Nat)),
      p.joinDeeper finish' cut (last.map k) (stack.map (Prod.map (Run.map k) id)) =
        Prod.map (Run.map k) (List.map (Prod.map (Run.map k) id))
          (o.joinDeeper finish cut last stack)
  | _, [] => rfl
  | last, (run, depth) :: rest => by
      simp only [joinDeeper, List.map_cons, Prod.map_apply, id_eq]
      split
      · rw [join_map h hfinish, joinDeeper_map h hfinish cut]
      · rfl

theorem joinRuns_map (h : Reflects k o p) (hfinish : ∀ xs, finish' (xs.map k) = (finish xs).map k)
    (n : Nat) : ∀ (runs : List (Run α)) (stack : List (Run α × Nat)) (last : Run α) (start : Nat),
      p.joinRuns finish' n (stack.map (Prod.map (Run.map k) id)) (last.map k) start
        (runs.map (Run.map k)) = (o.joinRuns finish n stack last start runs).map k
  | [], stack, last, start => by
      rw [List.map_nil, joinRuns, joinRuns, joinDeeper_map h hfinish]
      rfl
  | next :: runs, stack, last, start => by
      have hlength : ∀ r : Run α, (r.map k).entries.length = r.entries.length := fun r =>
        List.length_map k
      rw [List.map_cons, joinRuns, joinRuns]
      simp only [hlength, joinDeeper_map h hfinish, Prod.map_fst, Prod.map_snd]
      rw [← joinRuns_map h hfinish n runs]
      rfl

theorem map_byRuns (h : Transports k o p) (hfinish : ∀ xs, finish' (xs.map k) = (finish xs).map k)
    (eager : Bool) (xs : List α) :
    (o.byRuns eager finish xs).map k = p.byRuns eager finish' (xs.map k) := by
  simp only [byRuns, List.length_map, runs_map h]
  cases o.runs eager (enoughFor xs.length) xs.length xs with
  | nil => rfl
  | cons first rest =>
    have hrun := joinRuns_map h.reflects hfinish xs.length rest [] first 0
    rw [List.map_nil] at hrun
    simp only [List.map_cons, hrun]
    simp only [Run.map, hfinish]
    split <;> rfl

end

/-! ### Pivots -/

theorem medianOfThree_map (h : Reflects k o p) (xs : Array α) (a b c : Nat) :
    p.medianOfThree (xs.map k) a b c = o.medianOfThree xs a b c := by
  cases ha : xs[a]? <;> cases hb : xs[b]? <;> cases hc : xs[c]? <;>
    simp only [medianOfThree, Array.getElem?_map, ha, hb, hc, Option.map_some, Option.map_none, h _ _]

theorem median_map (h : Reflects k o p) (xs : Array α) : ∀ n a b c : Nat,
    p.median (xs.map k) n a b c = o.median xs n a b c := by
  intro n
  induction n using Nat.strongRecOn with
  | ind n ih =>
    intro a b c
    rw [median, median]
    split
    · next hn => simp only [ih (n / 8) (by omega), medianOfThree_map h]
    · rw [medianOfThree_map h]

theorem pivotPlace_map (h : Reflects k o p) (xs : List α) :
    p.pivotPlace (xs.map k) = o.pivotPlace xs := by
  simp only [pivotPlace, List.length_map, ← List.map_toArray, medianOfThree_map h, median_map h]

theorem divide_map (goesLeft : α → Bool) (goesLeft' : β → Bool)
    (h : ∀ a, goesLeft' (k a) = goesLeft a) (xs : List α) (place : Nat) (pivot : α)
    (pivotLeft : Bool) : divide (xs.map k) place (k pivot) pivotLeft goesLeft' =
      Prod.map (List.map k) (List.map k) (divide xs place pivot pivotLeft goesLeft) := by
  have hside : ∀ (ys : List α) (left : Bool), (ys.map k).filter (goesLeft' · == left) =
      (ys.filter (goesLeft · == left)).map k := fun ys left => by
    rw [List.filter_map]
    simp only [Function.comp_def, h]
  have hpivot : ∀ left : Bool, (if pivotLeft == left then [k pivot] else []) =
      (if pivotLeft == left then [pivot] else []).map k := fun left => by
    split <;> rfl
  simp only [divide, Prod.map_apply, List.map_append, ← hside, ← hpivot, List.map_take, List.map_drop]

theorem map_byPivots (h : Transports k o p) : ∀ (limit : Nat) (above : Option α) (xs : List α),
    (o.byPivots limit above xs).map k = p.byPivots limit (above.map k) (xs.map k) := by
  intro limit
  induction limit with
  | zero =>
    intro above xs
    rw [byPivots, byPivots, List.length_map]
    split
    · exact map_short h xs
    · exact map_byRuns h (fun _ => rfl) true xs
  | succ limit ih =>
    intro above xs
    rw [byPivots, byPivots, List.length_map]
    split
    · exact map_short h xs
    · simp only [pivotPlace_map h.reflects, List.getElem?_map]
      cases xs[o.pivotPlace xs]? with
      | none => rfl
      | some pivot =>
        have hleft := divide_map (k := k) (fun x => o.less x pivot) (fun x => p.less x (k pivot))
          (fun x => h.reflects x pivot) xs (o.pivotPlace xs) pivot false
        have hequal := divide_map (k := k) (fun x => !o.less pivot x)
          (fun x => !p.less (k pivot) x) (fun x => by rw [h.reflects]) xs (o.pivotPlace xs) pivot true
        have habove : (above.map k).any (fun a => !p.less a (k pivot)) =
            above.any fun a => !o.less a pivot := by
          cases above with
          | none => rfl
          | some a => simp [h.reflects a pivot]
        simp only [Option.map_some, hleft, hequal, habove, Prod.map_fst, Prod.map_snd,
          List.isEmpty_map]
        split
        · rw [List.map_append, ih, Option.map_none]
        · rw [List.map_append, ih, ih, Option.map_some]

/-- Images may be taken before or after sorting. -/
theorem map_sort (h : Transports k o p) (xs : List α) : (o.sort xs).map k = p.sort (xs.map k) := by
  simp only [sort, List.length_map]
  split
  · exact map_insertion h.reflects xs
  · refine map_byRuns h (fun ys => ?_) _ xs
    rw [List.length_map, map_byPivots h, Option.map_none]

end SortOrder
end PursuitForest
