import PursuitForest.Proofs.Json.Tokens
/-!
Structured values are read back.

The machine that reads tokens comes from the tokens of a value to this value complete, in whatever
containers it stands (`Machine.foldlM_tokens`). Two numbers never stand next to each other in them.
So a value whose numerals are well formed is read back from its written form (`parse_print`).
-/

namespace PursuitForest
namespace Json

open Token

/-! ### Numbers in tokens -/

theorem apart_cons {t : Token} {ts : List Token} (ht : t.isNumber = false) (hts : Apart ts) :
    Apart (t :: ts) := by
  refine List.isChain_cons.2 ⟨fun u _ hboth => ?_, hts⟩
  rw [ht] at hboth
  cases hboth.1

theorem apart_append {t : Token} {xs ts : List Token} (hxs : Apart xs) (ht : t.isNumber = false)
    (hts : Apart ts) : Apart (xs ++ t :: ts) := by
  refine List.isChain_append.2 ⟨hxs, apart_cons ht hts, ?_⟩
  rintro x - y ⟨⟩ hboth
  rw [ht] at hboth
  cases hboth.2

mutual

/-- Two numbers of a value have something between them. -/
theorem apart_tokens : ∀ v : Json, Apart v.tokens
  | .null | .bool _ | .number _ | .text _ | .broken => List.isChain_singleton _
  | .array items => apart_cons rfl (apart_itemTokens items)
  | .object fields => apart_cons rfl (apart_fieldTokens fields)

theorem apart_itemTokens : ∀ vs : List Json, Apart (itemTokens vs)
  | [] => List.isChain_singleton _
  | [v] => apart_append (apart_tokens v) rfl List.isChain_nil
  | v :: w :: vs => apart_append (apart_tokens v) rfl (apart_itemTokens (w :: vs))

theorem apart_fieldTokens : ∀ fs : List (String × Json), Apart (fieldTokens fs)
  | [] => List.isChain_singleton _
  | [(_, v)] =>
    apart_cons rfl (apart_cons rfl (apart_append (apart_tokens v) rfl List.isChain_nil))
  | (_, v) :: f :: fs =>
    apart_cons rfl (apart_cons rfl (apart_append (apart_tokens v) rfl (apart_fieldTokens (f :: fs))))

end

/-! ### Reading tokens -/

namespace Machine

/-- Where an array may be closed, it may go on as well. -/
theorem foldlM_valueOrClose {vs : List Json} (hvs : vs ≠ []) (frames : List Frame) :
    (itemTokens vs).foldlM step ⟨frames, .valueOrClose⟩ =
      (itemTokens vs).foldlM step ⟨frames, .value⟩ := by
  -- the two states differ at the closing mark alone, and no value begins with it
  have hfirst : ∀ v : Json, v.tokens.foldlM step ⟨frames, .valueOrClose⟩ =
      v.tokens.foldlM step ⟨frames, .value⟩ := fun v => by cases v <;> rfl
  match vs with
  | [] => exact absurd rfl hvs
  | [v] => rw [itemTokens, List.foldlM_append, List.foldlM_append, hfirst v]
  | v :: w :: vs =>
    rw [itemTokens, List.foldlM_append, List.foldlM_append, hfirst v]
    exact List.cons_ne_nil w vs

/-- Where an object may be closed, it may go on as well. -/
theorem foldlM_nameOrClose {fs : List (String × Json)} (hfs : fs ≠ [])
    (fields : Option (List (String × Json))) (frames : List Frame) :
    (fieldTokens fs).foldlM step ⟨.object fields :: frames, .nameOrClose⟩ =
      (fieldTokens fs).foldlM step ⟨.object fields :: frames, .name⟩ := by
  match fs with
  | [] => exact absurd rfl hfs
  | [_] => rfl
  | _ :: _ :: _ => rfl

mutual

/-- The tokens of a value complete it. -/
theorem foldlM_tokens : ∀ (v : Json) (frames : List Frame),
    v.tokens.foldlM step ⟨frames, .value⟩ = complete v frames
  | .null, _ | .bool _, _ | .number _, _ | .text _, _ | .broken, _ => bind_pure _
  | .array [], frames => bind_pure (complete (.array []) frames)
  | .array (v :: vs), frames => by
      show (itemTokens (v :: vs)).foldlM step ⟨.array [] :: frames, .valueOrClose⟩ = _
      rw [foldlM_valueOrClose (List.cons_ne_nil v vs)]
      exact foldlM_itemTokens (v :: vs) [] frames (List.cons_ne_nil v vs)
  | .object [], frames => bind_pure (complete (.object []) frames)
  | .object (f :: fs), frames => by
      show (fieldTokens (f :: fs)).foldlM step ⟨.object (some []) :: frames, .nameOrClose⟩ = _
      rw [foldlM_nameOrClose (List.cons_ne_nil f fs)]
      exact foldlM_fieldTokens (f :: fs) [] frames (List.cons_ne_nil f fs)

/-- The tokens of the items that are left complete an array. -/
theorem foldlM_itemTokens : ∀ (vs items : List Json) (frames : List Frame), vs ≠ [] →
    (itemTokens vs).foldlM step ⟨.array items :: frames, .value⟩ =
      complete (.array (items.reverse ++ vs)) frames
  | [], _, _, h => absurd rfl h
  | [v], items, frames, _ => by
      show (v.tokens ++ [Token.closeArray]).foldlM step ⟨.array items :: frames, .value⟩ = _
      rw [List.foldlM_append, foldlM_tokens v, ← List.reverse_cons]
      exact bind_pure (complete (.array (v :: items).reverse) frames)
  | v :: w :: vs, items, frames, _ => by
      show (v.tokens ++ Token.comma :: itemTokens (w :: vs)).foldlM step
        ⟨.array items :: frames, .value⟩ = _
      rw [List.foldlM_append, foldlM_tokens v]
      show (itemTokens (w :: vs)).foldlM step ⟨.array (v :: items) :: frames, .value⟩ = _
      rw [foldlM_itemTokens (w :: vs) (v :: items) frames (List.cons_ne_nil w vs),
        List.reverse_cons, List.append_assoc]
      rfl

/-- The tokens of the fields that are left complete an object. -/
theorem foldlM_fieldTokens : ∀ (fs fields : List (String × Json)) (frames : List Frame), fs ≠ [] →
    (fieldTokens fs).foldlM step ⟨.object (some fields) :: frames, .name⟩ =
      complete (.object (fields.reverse ++ fs)) frames
  | [], _, _, h => absurd rfl h
  | [(k, v)], fields, frames, _ => by
      show (v.tokens ++ [Token.closeObject]).foldlM step ⟨.member (some fields) k :: frames, .value⟩ = _
      rw [List.foldlM_append, foldlM_tokens v, ← List.reverse_cons]
      exact bind_pure (complete (.object ((k, v) :: fields).reverse) frames)
  | (k, v) :: f :: fs, fields, frames, _ => by
      show (v.tokens ++ Token.comma :: fieldTokens (f :: fs)).foldlM step
        ⟨.member (some fields) k :: frames, .value⟩ = _
      rw [List.foldlM_append, foldlM_tokens v]
      show (fieldTokens (f :: fs)).foldlM step ⟨.object (some ((k, v) :: fields)) :: frames, .name⟩ = _
      rw [foldlM_fieldTokens (f :: fs) ((k, v) :: fields) frames (List.cons_ne_nil f fs),
        List.reverse_cons, List.append_assoc]
      rfl

end

end Machine

/-! ### Well-formed values -/

/-- All numbers of a value are well formed. -/
def WellFormed (v : Json) : Prop := ∀ t ∈ v.tokens, t.WellFormed

theorem wellFormed_itemTokens : ∀ {vs : List Json}, (∀ v ∈ vs, v.WellFormed) →
    ∀ t ∈ itemTokens vs, t.WellFormed
  | [], _ => List.forall_mem_singleton.2 trivial
  | [v], h => List.forall_mem_append.2
      ⟨h v List.mem_cons_self, List.forall_mem_singleton.2 trivial⟩
  | v :: w :: vs, h => by
      obtain ⟨hv, hvs⟩ := List.forall_mem_cons.1 h
      exact List.forall_mem_append.2
        ⟨hv, List.forall_mem_cons.2 ⟨trivial, wellFormed_itemTokens hvs⟩⟩

theorem wellFormed_fieldTokens : ∀ {fs : List (String × Json)}, (∀ f ∈ fs, f.2.WellFormed) →
    ∀ t ∈ fieldTokens fs, t.WellFormed
  | [], _ => List.forall_mem_singleton.2 trivial
  | [(k, v)], h => by
      refine List.forall_mem_cons.2 ⟨trivial, List.forall_mem_cons.2 ⟨trivial, ?_⟩⟩
      exact List.forall_mem_append.2
        ⟨h (k, v) List.mem_cons_self, List.forall_mem_singleton.2 trivial⟩
  | (k, v) :: f :: fs, h => by
      obtain ⟨hv, hfs⟩ := List.forall_mem_cons.1 h
      refine List.forall_mem_cons.2 ⟨trivial, List.forall_mem_cons.2 ⟨trivial, ?_⟩⟩
      exact List.forall_mem_append.2
        ⟨hv, List.forall_mem_cons.2 ⟨trivial, wellFormed_fieldTokens hfs⟩⟩

theorem wellFormed_array {items : List Json} (h : ∀ v ∈ items, v.WellFormed) :
    (array items).WellFormed :=
  List.forall_mem_cons.2 ⟨trivial, wellFormed_itemTokens h⟩

theorem wellFormed_object {fields : List (String × Json)} (h : ∀ f ∈ fields, f.2.WellFormed) :
    (object fields).WellFormed :=
  List.forall_mem_cons.2 ⟨trivial, wellFormed_fieldTokens h⟩

theorem wellFormed_number {n : Numeral} (h : n.WellFormed) : (number n).WellFormed :=
  List.forall_mem_singleton.2 h

theorem wellFormed_null : null.WellFormed := List.forall_mem_singleton.2 trivial

/-- A value whose numbers are well formed is read back from its written form. -/
theorem parse_print {v : Json} (h : v.WellFormed) : parse v.print = some v := by
  rw [parse, print, ofText_ofList h (apart_tokens v)]
  show ofTokens v.tokens = some v
  rw [ofTokens, Machine.foldlM_tokens]
  rfl

end Json
end PursuitForest
