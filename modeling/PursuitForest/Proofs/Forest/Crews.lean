import PursuitForest.Forest.Crew
import PursuitForest.Proofs.Outcomes
/-!
What a crew has a say in.

Whatever the crew, work side by side succeeds exactly when all of it succeeds, and with the same
values (`collect_map_eq_ok_iff`). Otherwise the failure of a part is reported
(`mem_of_collect_eq_error`), and that of any part may be (`exists_reporting_collect`). Work that is
alike part by part is reported alike by the same crew (`Alike.collect`).
-/

namespace PursuitForest

namespace Crew

variable {F L ε α β : Type} {crew : Crew} {threads : Option Nat}

/-! ### Threads -/

/-- The threads of its own that work asks for can be had. -/
def Serves (crew : Crew) (threads : Option Nat) : Prop := threads.bind crew.refusal = none

instance : Decidable (crew.Serves threads) := inferInstanceAs (Decidable (_ = _))

theorem serves_orderly (threads : Option Nat) : orderly.Serves threads := by
  cases threads <;> rfl

theorem engage_of_serves (h : crew.Serves threads) :
    crew.engage threads = (.ok () : Except (Error F L) Unit) := by
  cases threads with
  | none => rfl
  | some n =>
    have hn : crew.refusal n = none := h
    rw [engage, hn]

theorem engage_of_not_serves (h : ¬ crew.Serves threads) : ∃ cause,
    crew.engage threads = (.error (.threadPool cause) : Except (Error F L) Unit) := by
  cases threads with
  | none => exact absurd rfl h
  | some n =>
    obtain ⟨cause, hcause⟩ := Option.ne_none_iff_exists'.1 h
    have hn : crew.refusal n = some cause := hcause
    exact ⟨cause, by rw [engage, hn]⟩

/-! ### Values -/

/-- Outcomes without a failure are values. -/
theorem eq_map_ok_of_failures : ∀ {outcomes : List (Except ε α)}, failures outcomes = [] →
    outcomes = (outcomes.filterMap Except.toOption).map .ok
  | [], _ => rfl
  | .ok _ :: _, h => congrArg (_ :: ·) (eq_map_ok_of_failures h)
  | .error _ :: _, h => nomatch h

theorem failures_map_ok : ∀ values : List α, failures (values.map (.ok : α → Except ε α)) = []
  | [] => rfl
  | _ :: values => failures_map_ok values

theorem filterMap_toOption_map_ok : ∀ values : List α,
    (values.map (.ok : α → Except ε α)).filterMap Except.toOption = values
  | [] => rfl
  | a :: values => congrArg (a :: ·) (filterMap_toOption_map_ok values)

/-- The values are collected in order if there are no failures. -/
theorem collect_eq_ok_iff {outcomes : List (Except ε α)} {values : List α} :
    crew.collect outcomes = .ok values ↔ outcomes = values.map .ok := by
  constructor
  · intro h
    unfold collect at h
    split at h
    · next hnone =>
      cases h
      exact eq_map_ok_of_failures hnone
    · cases h
  · rintro rfl
    rw [collect, failures_map_ok]
    exact congrArg _ (filterMap_toOption_map_ok values)

/-- Work side by side succeeds as it does one part after the other. -/
theorem collect_map_eq_ok_iff {f : β → Except ε α} {xs : List β} {ys : List α} :
    crew.collect (xs.map f) = .ok ys ↔ xs.mapM f = .ok ys :=
  collect_eq_ok_iff.trans map_eq_map_ok_iff

/-! ### Failures -/

theorem mem_failures {outcomes : List (Except ε α)} {e : ε} :
    e ∈ failures outcomes ↔ .error e ∈ outcomes := by
  unfold failures
  rw [List.mem_filterMap]
  constructor
  · rintro ⟨o, ho, heq⟩
    cases o with
    | ok a => cases heq
    | error e' => cases heq; exact ho
  · exact fun h => ⟨_, h, rfl⟩

/-- What is reported is the failure of some part. -/
theorem mem_of_collect_eq_error {outcomes : List (Except ε α)} {e : ε}
    (h : crew.collect outcomes = .error e) : .error e ∈ outcomes := by
  unfold collect at h
  split at h
  · cases h
  · next e' es heq =>
    cases h
    rw [← mem_failures, heq]
    exact List.get_mem _ _

/-- The crew with the failure at some place reported. -/
def reporting (crew : Crew) (place : Nat) : Crew :=
  { crew with reported := fun others =>
      ⟨place % (others + 1), Nat.mod_lt place (Nat.succ_pos others)⟩ }

theorem serves_reporting {place : Nat} :
    (crew.reporting place).Serves threads ↔ crew.Serves threads := Iff.rfl

/-- The failure of any part may be reported. -/
theorem exists_reporting_collect (crew : Crew) {outcomes : List (Except ε α)} {e : ε}
    (h : .error e ∈ outcomes) : ∃ place, (crew.reporting place).collect outcomes = .error e := by
  obtain ⟨place, hlt, hplace⟩ := List.mem_iff_getElem.1 (mem_failures.2 h)
  refine ⟨place, ?_⟩
  unfold collect
  split
  · next hnone =>
    rw [hnone] at hlt
    cases hlt
  · next e' es heq =>
    have hmod : place % (es.length + 1) = place := Nat.mod_eq_of_lt (by rwa [heq] at hlt)
    simp only [heq] at hplace
    simp only [reporting, List.get_eq_getElem, hmod, hplace]

/-! ### Failures in order -/

/-- The first failure is reported. -/
def InOrder (crew : Crew) : Prop := ∀ others, (crew.reported others).val = 0

theorem head?_failures_of_mapM {f : β → Except ε α} {e : ε} : ∀ {xs : List β},
    xs.mapM f = .error e → (failures (xs.map f)).head? = some e
  | x :: xs, h => by
      rw [List.mapM_cons] at h
      rw [List.map_cons]
      cases hx : f x with
      | error e' =>
        rw [hx] at h
        cases h
        rfl
      | ok a =>
        rw [hx] at h
        cases hxs : xs.mapM f with
        | ok as =>
          rw [hxs] at h
          cases h
        | error e' =>
          rw [hxs] at h
          cases h
          exact head?_failures_of_mapM hxs

/-- Work side by side then comes to what it does one part after the other. -/
theorem InOrder.collect_map (h : crew.InOrder) (f : β → Except ε α) (xs : List β) :
    crew.collect (xs.map f) = xs.mapM f := by
  cases hxs : xs.mapM f with
  | ok ys => exact collect_map_eq_ok_iff.2 hxs
  | error e =>
    have hhead := head?_failures_of_mapM hxs
    unfold collect
    split
    · next hnone =>
      rw [hnone] at hhead
      cases hhead
    · next e' es heq =>
      rw [heq] at hhead
      cases hhead
      have hplace : crew.reported es.length = ⟨0, Nat.succ_pos _⟩ := Fin.ext (h es.length)
      rw [hplace]
      rfl

end Crew

variable {ε ε' α α' : Type}

/-- Parts that end in some ways only are reported to end in these ways. -/
theorem Ends.collect {allowed : ε → Prop} {outcomes : List (Except ε α)} (crew : Crew)
    (h : ∀ o ∈ outcomes, Ends allowed (fun _ => True) o) :
    Ends allowed (fun _ => True) (crew.collect outcomes) := by
  cases hcollect : crew.collect outcomes with
  | ok values => exact .ok trivial
  | error e => exact h _ (Crew.mem_of_collect_eq_error hcollect)

section
variable {E : ε → ε' → Prop} {P : α → α' → Prop} {xs : List (Except ε α)} {xs' : List (Except ε' α')}

/-- Where parts are alike, there are as many failures, and alike. -/
theorem Alike.failures (h : List.Forall₂ (Alike E P) xs xs') :
    List.Forall₂ E (Crew.failures xs) (Crew.failures xs') := by
  induction h with
  | nil => exact .nil
  | cons hx _ ih =>
    cases hx with
    | ok _ => exact ih
    | error he => exact .cons he ih

theorem Alike.values (h : List.Forall₂ (Alike E P) xs xs') :
    List.Forall₂ P (xs.filterMap Except.toOption) (xs'.filterMap Except.toOption) := by
  induction h with
  | nil => exact .nil
  | cons hx _ ih =>
    cases hx with
    | ok ha => exact .cons ha ih
    | error _ => exact ih

/-- As many threads, or threads that can be had in any case, make no difference. -/
theorem Crew.engage_alike {F F' L L' : Type} {E : Error F L → Error F' L' → Prop} {crew : Crew}
    {threads threads' : Option Nat} (hE : ∀ cause, E (.threadPool cause) (.threadPool cause))
    (h : threads = threads' ∨ crew.Serves threads ∧ crew.Serves threads') :
    Alike E (fun _ _ => True) (crew.engage threads) (crew.engage threads') := by
  rcases h with rfl | ⟨h, h'⟩
  · cases threads with
    | none => exact .ok trivial
    | some n =>
      rw [engage, engage]
      cases crew.refusal n with
      | none => exact .ok trivial
      | some cause => exact .error (hE cause)
  · rw [engage_of_serves h, engage_of_serves h']
    exact .ok trivial

/-- Parts that are alike are reported alike. -/
theorem Alike.collect (crew : Crew) (h : List.Forall₂ (Alike E P) xs xs') :
    Alike E (List.Forall₂ P) (crew.collect xs) (crew.collect xs') := by
  have hfailures := Alike.failures h
  unfold Crew.collect
  cases hxs : Crew.failures xs with
  | nil =>
    rw [hxs, List.forall₂_nil_left_iff] at hfailures
    rw [hfailures]
    exact .ok (Alike.values h)
  | cons e es =>
    rw [hxs] at hfailures
    obtain ⟨e', es', he, hes, hxs'⟩ := List.forall₂_cons_left_iff.1 hfailures
    rw [hxs']
    -- the same place is reported, since there are as many others
    have hplace : (crew.reported es'.length).val = (crew.reported es.length).val := by
      rw [hes.length_eq]
    have hlt : (crew.reported es.length).val < (e' :: es').length :=
      hplace ▸ (crew.reported es'.length).isLt
    have hsame : crew.reported es'.length = ⟨_, hlt⟩ := Fin.ext hplace
    simp only [hsame]
    exact .error ((List.Forall₂.cons he hes).get (crew.reported es.length).isLt hlt)

end

end PursuitForest
