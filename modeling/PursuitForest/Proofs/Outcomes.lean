import Mathlib.Data.List.Forall2
import PursuitForest.Error
/-!
Outcomes of steps that may fail.

A step after another succeeds exactly when both do. `Ends allowed P x` says of an outcome that it
either succeeds with a value for which `P` holds, or fails with one of the allowed errors; it is
passed from step to step by `Ends.bind`. Steps for the members of a list succeed with a value for
each (`map_eq_map_ok_iff`), or fail with the error of the first that fails (`mapM_eq_error_iff`).

Two runs are compared by `Alike E P`: both succeed with values that `P` relates, or both fail with
errors that `E` relates. It is passed from step to step by `Alike.bind`.
-/

namespace PursuitForest

variable {ε α β : Type}

theorem bind_eq_ok_iff {x : Except ε α} {f : α → Except ε β} {b : β} :
    (x >>= f) = .ok b ↔ ∃ a, x = .ok a ∧ f a = .ok b := by
  cases x with
  | error e =>
    constructor
    · intro h; cases h
    · rintro ⟨a, ha, -⟩; cases ha
  | ok a =>
    constructor
    · intro h; exact ⟨a, rfl, h⟩
    · rintro ⟨a', ha, h⟩; cases ha; exact h

/-- What is done with a value does not change how there is none. -/
theorem map_eq_error_iff {f : α → β} {x : Except ε α} {e : ε} :
    x.map f = .error e ↔ x = .error e := by
  cases x with
  | error e' => constructor <;> intro h <;> exact congrArg _ (Except.error.inj h)
  | ok a => constructor <;> intro h <;> cases h

/-- Two steps and what is done with the value of the second. -/
theorem bind_bind_pure {γ : Type} {x : Except ε α} {f : α → Except ε β} {g : β → γ} :
    (x >>= fun a => f a >>= fun b => pure (g b)) = (x >>= f).map g := by
  cases x with
  | error e => rfl
  | ok a => rfl

/-- A step that may be made on images of values may be made on them after another step. -/
theorem map_bind_of_commutes {γ δ : Type} {g : α → γ} {h : β → δ} {f : α → Except ε β}
    {f' : γ → Except ε δ} (hf : ∀ a, (f a).map h = f' (g a)) (x : Except ε α) :
    (x >>= f).map h = x.map g >>= f' := by
  cases x with
  | error e => rfl
  | ok a => exact hf a

theorem exists_ok_of_isOk {x : Except ε α} (h : x.isOk = true) : ∃ a, x = .ok a := by
  cases x with
  | error e => cases h
  | ok a => exact ⟨a, rfl⟩

theorem exists_error_of_isOk {x : Except ε α} (h : x.isOk = false) : ∃ e, x = .error e := by
  cases x with
  | error e => exact ⟨e, rfl⟩
  | ok a => cases h

/-- Failure with some error, as an evaluation shows it. -/
theorem eq_error_of_match {x : Except ε α} {e : ε}
    (h : (match x with | .ok _ => none | .error e => some e) = some e) : x = .error e := by
  cases x with
  | error e' => exact congrArg _ (Option.some.inj h)
  | ok a => cases h

/-- Success with a value of some kind, as an evaluation shows it. -/
theorem exists_ok_of_any {x : Except ε α} {p : α → Prop} [DecidablePred p]
    (h : x.toOption.any (fun a => decide (p a)) = true) : ∃ a, x = .ok a ∧ p a := by
  cases x with
  | error e => cases h
  | ok a => exact ⟨a, rfl, of_decide_eq_true h⟩

/-- Success with a value of some kind, or failure by one of the allowed errors. -/
def Ends (allowed : ε → Prop) (P : α → Prop) : Except ε α → Prop
  | .ok a => P a
  | .error e => allowed e

namespace Ends

variable {allowed : ε → Prop} {P : α → Prop} {Q : β → Prop} {x : Except ε α}

theorem ok {a : α} (h : P a) : Ends allowed P (.ok a : Except ε α) := h

theorem error {e : ε} (h : allowed e) : Ends allowed P (.error e : Except ε α) := h

/-- The next step starts from a value for which `P` holds. -/
theorem bind {f : α → Except ε β} (hx : Ends allowed P x) (hf : ∀ a, P a → Ends allowed Q (f a)) :
    Ends allowed Q (x >>= f) := by
  cases x with
  | error e => exact hx
  | ok a => exact hf a hx

theorem ite {c : Prop} [Decidable c] {y : Except ε α} (hx : c → Ends allowed P x)
    (hy : ¬ c → Ends allowed P y) : Ends allowed P (if c then x else y) := by
  split
  · next h => exact hx h
  · next h => exact hy h

theorem mono {allowed' : ε → Prop} {P' : α → Prop} (hx : Ends allowed P x)
    (he : ∀ e, allowed e → allowed' e) (hP : ∀ a, P a → P' a) : Ends allowed' P' x := by
  cases x with
  | error e => exact he e hx
  | ok a => exact hP a hx

theorem map {f : α → β} (hx : Ends allowed P x) : Ends allowed (fun _ => True) (x.map f) := by
  cases x with
  | error e => exact hx
  | ok a => trivial

theorem cases (hx : Ends allowed P x) : (∃ a, x = .ok a ∧ P a) ∨ ∃ e, x = .error e ∧ allowed e := by
  cases x with
  | error e => exact .inr ⟨e, rfl, hx⟩
  | ok a => exact .inl ⟨a, rfl, hx⟩

/-- The value of a computation that has one. -/
theorem of_eq_ok {a : α} (hx : Ends allowed P x) (h : x = .ok a) : P a := by
  rw [h] at hx
  exact hx

/-- Where no error is allowed, there is a value. -/
theorem exists_ok (hx : Ends (fun _ => False) P x) : ∃ a, x = .ok a ∧ P a :=
  hx.cases.resolve_right fun ⟨_, _, h⟩ => h

/-- Steps that go on from a value of some kind to another of that kind. -/
theorem foldlM {f : α → β → Except ε α} : ∀ {xs : List β} {a : α}, P a →
    (∀ x ∈ xs, ∀ a, P a → Ends allowed P (f a x)) → Ends allowed P (xs.foldlM f a)
  | [], _, ha, _ => ok ha
  | x :: xs, a, ha, h => by
      obtain ⟨hx, hxs⟩ := List.forall_mem_cons.1 h
      rw [List.foldlM_cons]
      exact (hx a ha).bind fun b hb => foldlM hb hxs

end Ends

/-! ### Steps for the members of a list -/

/-- Steps that all succeed, each on its own, succeed one after the other. -/
theorem map_eq_map_ok_iff {f : β → Except ε α} : ∀ {xs : List β} {ys : List α},
    xs.map f = ys.map .ok ↔ xs.mapM f = .ok ys
  | [], ys => by
      rw [List.map_nil, List.mapM_nil, eq_comm, List.map_eq_nil_iff]
      exact ⟨fun h => congrArg _ h.symm, fun h => (Except.ok.inj h).symm⟩
  | x :: xs, ys => by
      rw [List.map_cons, List.mapM_cons]
      constructor
      · intro h
        cases ys with
        | nil => cases h
        | cons y ys =>
          rw [List.map_cons, List.cons.injEq] at h
          rw [h.1, map_eq_map_ok_iff.1 h.2]
          rfl
      · intro h
        obtain ⟨y, hy, h⟩ := bind_eq_ok_iff.1 h
        obtain ⟨rest, hrest, h⟩ := bind_eq_ok_iff.1 h
        cases h
        rw [hy, map_eq_map_ok_iff.2 hrest, List.map_cons]

/-- Steps for the members of a list fail with the error of the first that fails. -/
theorem mapM_eq_error_iff {f : β → Except ε α} {e : ε} : ∀ {xs : List β},
    xs.mapM f = .error e ↔
      ∃ (i : Nat) (x : β), xs[i]? = some x ∧ f x = .error e ∧
        ∀ j < i, ∀ y, xs[j]? = some y → ∃ a, f y = .ok a
  | [] => by
      constructor
      · intro h; cases h
      · rintro ⟨i, x, hx, -⟩; cases hx
  | x :: xs => by
      rw [List.mapM_cons]
      cases hx : f x with
      | error e' =>
        constructor
        · intro h
          cases h
          exact ⟨0, x, rfl, hx, fun j hj => absurd hj (Nat.not_lt_zero j)⟩
        · rintro ⟨i, y, hi, hy, hbefore⟩
          cases i with
          | zero =>
            cases hi
            rw [hx] at hy
            cases hy
            rfl
          | succ i =>
            obtain ⟨a, ha⟩ := hbefore 0 (Nat.succ_pos i) x rfl
            rw [hx] at ha
            cases ha
      | ok a =>
        have htail : (((.ok a : Except ε α) >>= fun b => xs.mapM f >>= fun bs => pure (b :: bs)) =
            .error e) ↔ xs.mapM f = .error e := by
          cases xs.mapM f with
          | error e' =>
            constructor <;> intro h <;> exact congrArg _ (Except.error.inj h)
          | ok bs =>
            constructor <;> intro h <;> cases h
        refine htail.trans (mapM_eq_error_iff.trans ⟨?_, ?_⟩)
        · rintro ⟨i, y, hi, hy, hbefore⟩
          refine ⟨i + 1, y, hi, hy, fun j hj z hz => ?_⟩
          cases j with
          | zero => cases hz; exact ⟨a, hx⟩
          | succ j => exact hbefore j (Nat.lt_of_succ_lt_succ hj) z hz
        · rintro ⟨i, y, hi, hy, hbefore⟩
          cases i with
          | zero => cases hi; rw [hx] at hy; cases hy
          | succ i =>
            exact ⟨i, y, hi, hy, fun j hj z hz => hbefore (j + 1) (Nat.succ_lt_succ hj) z hz⟩

/-- Steps that can fail in one way only fail in that way as soon as one does. -/
theorem mapM_eq_error {f : β → Except ε α} {e : ε} : ∀ {xs : List β},
    (∀ x ∈ xs, (∃ a, f x = .ok a) ∨ f x = .error e) → (∃ x ∈ xs, f x = .error e) →
      xs.mapM f = .error e
  | [], _, hx => by
      obtain ⟨x, hx, -⟩ := hx
      cases hx
  | x :: xs, h, hfails => by
      obtain ⟨hx, hxs⟩ := List.forall_mem_cons.1 h
      rw [List.mapM_cons]
      rcases hx with ⟨a, ha⟩ | he
      · -- the failing step comes later
        obtain ⟨y, hy, he⟩ := hfails
        rcases List.mem_cons.1 hy with rfl | hy
        · rw [he] at ha
          cases ha
        · rw [ha, mapM_eq_error hxs ⟨y, hy, he⟩]
          rfl
      · rw [he]
        rfl

/-- The first number below `n` for which a step fails. -/
theorem mapM_range_eq_error_iff {f : Nat → Except ε α} {e : ε} {n : Nat} :
    (List.range n).mapM f = .error e ↔ ∃ i < n, f i = .error e ∧ ∀ j < i, ∃ a, f j = .ok a := by
  rw [mapM_eq_error_iff]
  constructor
  · rintro ⟨i, x, hi, hx, hbefore⟩
    obtain ⟨hlt, rfl⟩ := List.getElem?_eq_some_iff.1 hi
    rw [List.length_range] at hlt
    rw [List.getElem_range] at hx
    exact ⟨i, hlt, hx, fun j hj => hbefore j hj j (List.getElem?_range (Nat.lt_trans hj hlt))⟩
  · rintro ⟨i, hlt, hi, hbefore⟩
    refine ⟨i, i, List.getElem?_range hlt, hi, fun j hj y hy => ?_⟩
    rw [List.getElem?_range (Nat.lt_trans hj hlt)] at hy
    cases hy
    exact hbefore j hj

theorem length_of_mapM {f : β → Except ε α} {xs : List β} {ys : List α} (h : xs.mapM f = .ok ys) :
    ys.length = xs.length := by
  have hlength := congrArg List.length (map_eq_map_ok_iff.2 h)
  rw [List.length_map, List.length_map] at hlength
  exact hlength.symm

/-- A value of some steps is the value of one. -/
theorem exists_of_mem_mapM {f : β → Except ε α} {y : α} {xs : List β} {ys : List α}
    (h : xs.mapM f = .ok ys) (hy : y ∈ ys) : ∃ x ∈ xs, f x = .ok y := by
  have hmem : .ok y ∈ ys.map (.ok : α → Except ε α) := List.mem_map_of_mem hy
  rw [← map_eq_map_ok_iff.2 h] at hmem
  exact List.mem_map.1 hmem

/-- A value of some steps that may have none is the value of one. -/
theorem exists_of_mem_mapM_some {f : β → Option α} {y : α} : ∀ {xs : List β} {ys : List α},
    xs.mapM f = some ys → y ∈ ys → ∃ x ∈ xs, f x = some y
  | [], ys, h, hy => by
      rw [List.mapM_nil] at h
      cases h
      cases hy
  | x :: xs, ys, h, hy => by
      rw [List.mapM_cons] at h
      obtain ⟨z, hz, h⟩ := Option.bind_eq_some_iff.1 h
      obtain ⟨rest, hrest, h⟩ := Option.bind_eq_some_iff.1 h
      cases h
      rcases List.mem_cons.1 hy with rfl | hy
      · exact ⟨x, List.mem_cons_self, hz⟩
      · obtain ⟨x', hx', hfx'⟩ := exists_of_mem_mapM_some hrest hy
        exact ⟨x', List.mem_cons_of_mem x hx', hfx'⟩

/-- The value of the step at some place. -/
theorem getElem?_of_mapM {f : β → Except ε α} {xs : List β} {ys : List α} {i : Nat} {x : β}
    (h : xs.mapM f = .ok ys) (hx : xs[i]? = some x) : ∃ y, ys[i]? = some y ∧ f x = .ok y := by
  have hi := congrArg (·[i]?) (map_eq_map_ok_iff.2 h)
  simp only [List.getElem?_map, hx, Option.map_some] at hi
  obtain ⟨y, hy, hfx⟩ := Option.map_eq_some_iff.1 hi.symm
  exact ⟨y, hy, hfx.symm⟩

/-- The steps for the first numbers do not depend on how many follow. -/
theorem mapM_range_take {f : Nat → Except ε α} {m n : Nat} (h : m ≤ n) {xs : List α}
    (hxs : (List.range n).mapM f = .ok xs) : (List.range m).mapM f = .ok (xs.take m) := by
  obtain ⟨k, rfl⟩ := Nat.exists_eq_add_of_le h
  rw [List.range_add, List.mapM_append] at hxs
  obtain ⟨first, hfirst, hxs⟩ := bind_eq_ok_iff.1 hxs
  obtain ⟨rest, -, hxs⟩ := bind_eq_ok_iff.1 hxs
  cases hxs
  have hlength : first.length = m := by simpa using length_of_mapM hfirst
  rw [hfirst, List.take_left' hlength]

/-- Steps that give one value each, under some condition, give the list of these values if all
conditions hold. -/
theorem mapM_eq_some_iff {f : α → Option β} {p : α → Prop} {g : α → β} :
    ∀ {xs : List α}, (∀ x ∈ xs, ∀ y, f x = some y ↔ p x ∧ y = g x) → ∀ {ys : List β},
      xs.mapM f = some ys ↔ (∀ x ∈ xs, p x) ∧ ys = xs.map g
  | [], _, ys => by simp [eq_comm]
  | x :: xs, h, ys => by
      obtain ⟨hx, hxs⟩ := List.forall_mem_cons.1 h
      rw [List.mapM_cons, List.forall_mem_cons, List.map_cons]
      simp only [Option.bind_eq_bind, Option.bind_eq_some_iff, hx, mapM_eq_some_iff hxs,
        Option.pure_def, Option.some.injEq]
      constructor
      · rintro ⟨y, ⟨hp, rfl⟩, zs, ⟨hall, rfl⟩, rfl⟩
        exact ⟨⟨hp, hall⟩, rfl⟩
      · rintro ⟨⟨hp, hall⟩, rfl⟩
        exact ⟨_, ⟨hp, rfl⟩, _, ⟨hall, rfl⟩, rfl⟩

/-- Steps that all succeed. -/
theorem mapM_eq_ok {f : α → Except ε β} {g : α → β} {xs : List α}
    (h : ∀ x ∈ xs, f x = .ok (g x)) : xs.mapM f = .ok (xs.map g) := by
  rw [← map_eq_map_ok_iff, List.map_map]
  exact List.map_congr_left h

/-- Steps that can be taken back. -/
theorem map_eq_of_mapM {f : α → Except ε β} {g : β → α} : ∀ {xs : List α} {ys : List β},
    (∀ x ∈ xs, ∀ y, f x = .ok y → g y = x) → xs.mapM f = .ok ys → ys.map g = xs
  | [], ys, _, h => by
      rw [List.mapM_nil] at h
      cases h
      rfl
  | x :: xs, ys, hg, h => by
      obtain ⟨hx, hxs⟩ := List.forall_mem_cons.1 hg
      rw [List.mapM_cons] at h
      obtain ⟨y, hy, h⟩ := bind_eq_ok_iff.1 h
      obtain ⟨zs, hzs, h⟩ := bind_eq_ok_iff.1 h
      cases h
      rw [List.map_cons, hx y hy, map_eq_of_mapM hxs hzs]

/-- Steps that succeed as others do. -/
theorem mapM_eq_ok_of_imp {f g : α → Except ε β} {xs : List α} {ys : List β}
    (hfg : ∀ x ∈ xs, ∀ y, f x = .ok y → g x = .ok y) (h : xs.mapM f = .ok ys) :
    xs.mapM g = .ok ys := by
  rw [← map_eq_map_ok_iff] at h ⊢
  refine (List.map_congr_left fun x hx => ?_).trans h
  -- the step succeeds, since all of them do
  have hmem : f x ∈ ys.map .ok := h ▸ List.mem_map_of_mem hx
  obtain ⟨y, -, hy⟩ := List.mem_map.1 hmem
  rw [hfg x hx y hy.symm, hy]

/-- Steps that all succeed with a value of which something is known. -/
theorem exists_mapM_eq_ok {γ : Type} {f : α → Except ε β} {g : β → γ} {k : α → γ} :
    ∀ {xs : List α}, (∀ x ∈ xs, ∃ y, f x = .ok y ∧ g y = k x) →
      ∃ ys, xs.mapM f = .ok ys ∧ ys.map g = xs.map k
  | [], _ => ⟨[], rfl, rfl⟩
  | x :: xs, h => by
      obtain ⟨⟨y, hy, hgy⟩, hxs⟩ := List.forall_mem_cons.1 h
      obtain ⟨ys, hys, hmap⟩ := exists_mapM_eq_ok hxs
      refine ⟨y :: ys, ?_, ?_⟩
      · rw [List.mapM_cons, hy, hys]
        rfl
      · rw [List.map_cons, List.map_cons, hgy, hmap]

/-- Steps that all succeed, with whatever values. -/
theorem exists_mapM {f : α → Except ε β} {xs : List α} (h : ∀ x ∈ xs, ∃ y, f x = .ok y) :
    ∃ ys, xs.mapM f = .ok ys := by
  obtain ⟨ys, hys, -⟩ := exists_mapM_eq_ok (g := fun _ => ()) (k := fun _ => ())
    fun x hx => (h x hx).imp fun _ hy => ⟨hy, rfl⟩
  exact ⟨ys, hys⟩

/-! ### Two runs -/

section
variable {ε' α' β' : Type}

/-- Both outcomes are values that `P` relates, or both are errors that `E` relates. -/
inductive Alike (E : ε → ε' → Prop) (P : α → α' → Prop) : Except ε α → Except ε' α' → Prop
  | ok {a : α} {a' : α'} (h : P a a') : Alike E P (.ok a) (.ok a')
  | error {e : ε} {e' : ε'} (h : E e e') : Alike E P (.error e) (.error e')

namespace Alike

variable {E : ε → ε' → Prop} {P : α → α' → Prop} {Q : β → β' → Prop}
  {x : Except ε α} {x' : Except ε' α'}

/-- The next steps start from values that `P` relates. -/
theorem bind {f : α → Except ε β} {f' : α' → Except ε' β'} (hx : Alike E P x x')
    (hf : ∀ a a', P a a' → Alike E Q (f a) (f' a')) : Alike E Q (x >>= f) (x' >>= f') := by
  cases hx with
  | ok h => exact hf _ _ h
  | error h => exact .error h

theorem mono {Q : α → α' → Prop} (hx : Alike E P x x') (hQ : ∀ a a', P a a' → Q a a') :
    Alike E Q x x' := by
  cases hx with
  | ok h => exact .ok (hQ _ _ h)
  | error h => exact .error h

theorem map {f : α → β} {f' : α' → β'} (hx : Alike E P x x')
    (hf : ∀ a a', P a a' → Q (f a) (f' a')) : Alike E Q (x.map f) (x'.map f') := by
  cases hx with
  | ok h => exact .ok (hf _ _ h)
  | error h => exact .error h

theorem cases (hx : Alike E P x x') : (∃ a a', x = .ok a ∧ x' = .ok a' ∧ P a a') ∨
    ∃ e e', x = .error e ∧ x' = .error e' ∧ E e e' := by
  cases hx with
  | ok h => exact .inl ⟨_, _, rfl, rfl, h⟩
  | error h => exact .inr ⟨_, _, rfl, rfl, h⟩

theorem exists_of_right {a' : α'} (hx : Alike E P x (.ok a')) : ∃ a, x = .ok a ∧ P a a' := by
  cases hx with
  | ok h => exact ⟨_, rfl, h⟩

/-- Steps for the members of two lists, one after the other. -/
theorem mapM {R : β → β' → Prop} {f : β → Except ε α} {f' : β' → Except ε' α'} :
    ∀ {xs : List β} {xs' : List β'}, List.Forall₂ R xs xs' →
      (∀ y ∈ xs, ∀ y', R y y' → Alike E P (f y) (f' y')) →
        Alike E (List.Forall₂ P) (xs.mapM f) (xs'.mapM f')
  | [], [], .nil, _ => .ok .nil
  | y :: ys, y' :: ys', .cons hy hys, hf => by
      rw [List.mapM_cons, List.mapM_cons]
      refine (hf y List.mem_cons_self y' hy).bind fun a a' ha => ?_
      refine (mapM hys fun z hz => hf z (List.mem_cons_of_mem y hz)).bind fun as as' has => ?_
      exact .ok (.cons ha has)

/-- Equal values or equal errors are equal outcomes. -/
theorem eq {x x' : Except ε α} (hx : Alike Eq Eq x x') : x = x' := by
  cases hx with
  | ok h => rw [h]
  | error h => rw [h]

theorem refl (x : Except ε α) : Alike Eq Eq x x := by
  cases x with
  | error e => exact .error rfl
  | ok a => exact .ok rfl

end Alike

end

end PursuitForest
