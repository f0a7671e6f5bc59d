import PursuitForest.Archive.Model
import PursuitForest.Proofs.Exact
import PursuitForest.Proofs.Json.Values
import PursuitForest.Proofs.Outcomes
import PursuitForest.Proofs.Tree.Folding
/-!
Nodes as structured values.

A scalar or a label is kept if what is written for it is read back; a scalar that is not finite is
written as null, which is no scalar. A node of kept scalars and labels is read back from its own
value exactly if all its scalars are finite (`Node.Archivable.ofJson_eq_some_iff`), and that value
takes one container more than the node is deep (`Node.Archivable.sound_iff`).
-/

namespace PursuitForest

/-! ### Scalars and labels that are kept -/

/-- A scalar is kept if its written form is a number that it is read back from, or if it is not
finite and its written form is null. -/
inductive ScalarCodec.Keeps {F : Type} [ScalarCodec F] (finite : F → Prop) (x : F) : Prop
  | number {n : Numeral} (hfinite : finite x) (hwritten : ScalarCodec.toJson x = .number n)
      (hn : n.WellFormed) (hdouble : n.double?.isSome = true) (hread : ScalarCodec.ofNumeral n = some x)
  | null (hinfinite : ¬ finite x) (hwritten : ScalarCodec.toJson x = .null)

/-- A label whose written form is no container and is read back. -/
structure LabelCodec.Keeps {L : Type} [LabelCodec L] (l : L) : Prop where
  wellFormed : (LabelCodec.toJson l).WellFormed
  plain : (LabelCodec.toJson l).sound 0 = true
  read : LabelCodec.ofJson (LabelCodec.toJson l) = some l

namespace ScalarCodec.Keeps

variable {F : Type} [ScalarCodec F] {finite : F → Prop} {x : F}

/-- A scalar is read back from what is written exactly if it is finite. -/
theorem ofJson_eq_some_iff (h : Keeps finite x) {y : F} :
    ScalarCodec.ofJson (ScalarCodec.toJson x) = some y ↔ finite x ∧ y = x := by
  cases h with
  | number hfinite hwritten hn hdouble hread =>
    rw [hwritten, ScalarCodec.ofJson, hread, Option.some.injEq]
    exact ⟨fun hy => ⟨hfinite, hy.symm⟩, fun hy => hy.2.symm⟩
  | null hinfinite hwritten =>
    rw [hwritten]
    exact ⟨fun hy => (nomatch hy), fun hy => absurd hy.1 hinfinite⟩

theorem wellFormed (h : Keeps finite x) : (ScalarCodec.toJson x).WellFormed := by
  cases h with
  | number hfinite hwritten hn hdouble hread => exact hwritten ▸ Json.wellFormed_number hn
  | null hinfinite hwritten => exact hwritten ▸ Json.wellFormed_null

/-- No scalar is a container. -/
theorem plain (h : Keeps finite x) : (ScalarCodec.toJson x).sound 0 = true := by
  cases h with
  | number hfinite hwritten hn hdouble hread =>
    rw [hwritten]
    exact hdouble
  | null hinfinite hwritten =>
    rw [hwritten]
    rfl

end ScalarCodec.Keeps

theorem Json.soundItems_eq_true {room : Nat} : ∀ {vs : List Json}, (∀ v ∈ vs, v.sound room = true) →
    Json.soundItems room vs = true
  | [], _ => rfl
  | v :: vs, h => by
      obtain ⟨hv, hvs⟩ := List.forall_mem_cons.1 h
      rw [Json.soundItems, hv, soundItems_eq_true hvs]
      rfl

/-- Without containers there is always room enough. -/
theorem Json.sound_of_plain {v : Json} (h : v.sound 0 = true) (room : Nat) : v.sound room = true := by
  cases v with
  | array items => cases h
  | object fields => cases h
  | _ => exact h

variable {F L : Type} [ScalarCodec F] [LabelCodec L] [Label L]

namespace Node

/-! ### Written nodes -/

omit [LabelCodec L] [ScalarCodec F] in
theorem forall_conditions_join {projector : List F} {threshold : F} {lower upper : Node F L}
    {p : Condition F L → Prop} :
    (∀ c ∈ (join projector threshold lower upper).conditions, p c) ↔
      p ⟨projector, threshold, .union lower.classes upper.classes, lower, upper⟩ ∧
        (∀ c ∈ lower.conditions, p c) ∧ ∀ c ∈ upper.conditions, p c :=
  forall_conditions_condition

/-- The fold that writes a node never lacks a value. -/
theorem foldStack_toJson (node : Node F L) :
    foldStack (m := Id) responseToJson conditionToJson node = some node.toJson := by
  rw [toJson, foldStack_eq]
  rfl

theorem toJson_response (value : L) :
    (Node.response value : Node F L).toJson = responseToJson value := by
  rw [toJson, foldStack_eq]
  rfl

theorem toJson_join (projector : List F) (threshold : F) (lower upper : Node F L) :
    (join projector threshold lower upper).toJson =
      conditionToJson ⟨projector, threshold, .union lower.classes upper.classes, lower, upper⟩
        lower.toJson upper.toJson := by
  simp only [toJson, foldStack_eq]
  rfl

theorem ofJson_responseToJson (value : L) :
    (ofJson (responseToJson value) : Option (Node F L)) =
      (LabelCodec.ofJson (LabelCodec.toJson value)).map .response := by
  rw [responseToJson, ofJson]
  simp [readFields, conditionOfFields, responseOfFields, readField?, Option.map_eq_bind]

theorem ofJson_conditionToJson (c : Condition F L) (lower upper : Json) :
    (ofJson (conditionToJson c lower upper) : Option (Node F L)) = do
      let projector ← c.projector.mapM fun a => ScalarCodec.ofJson (ScalarCodec.toJson a)
      let threshold ← ScalarCodec.ofJson (ScalarCodec.toJson c.threshold)
      return .join projector threshold (← ofJson lower) (← ofJson upper) := by
  rw [conditionToJson, ofJson]
  simp [readFields, conditionOfFields, responseOfFields, readField?, scalars?, Function.comp_def]

/-- A node that is put together of responses, whose labels are kept, and of conditions, whose scalars
are. -/
inductive Archivable (finite : F → Prop) : Node F L → Prop
  | response {value : L} (hvalue : LabelCodec.Keeps value) : Archivable finite (.response value)
  | join {projector : List F} {threshold : F} {lower upper : Node F L}
      (hprojector : ∀ a ∈ projector, ScalarCodec.Keeps finite a)
      (hthreshold : ScalarCodec.Keeps finite threshold)
      (hlower : Archivable finite lower) (hupper : Archivable finite upper) :
      Archivable finite (.join projector threshold lower upper)

/-- All coefficients and thresholds of a node are finite. -/
def AllFinite (finite : F → Prop) (node : Node F L) : Prop :=
  ∀ c ∈ node.conditions, (∀ a ∈ c.projector, finite a) ∧ finite c.threshold

omit [ScalarCodec F] [LabelCodec L] in
theorem allFinite_response {finite : F → Prop} {value : L} :
    AllFinite finite (.response value : Node F L) := by
  rw [AllFinite, conditions_response]
  nofun

namespace Archivable

variable {finite : F → Prop} {node : Node F L}

theorem wellFormed (h : Archivable finite node) : node.toJson.WellFormed := by
  induction h with
  | response hvalue =>
    rw [toJson_response]
    exact Json.wellFormed_object (List.forall_mem_singleton.2 hvalue.wellFormed)
  | join hprojector hthreshold hlower hupper ihl ihu =>
    rw [toJson_join]
    refine Json.wellFormed_object ?_
    simp only [List.forall_mem_cons, List.not_mem_nil, false_implies, implies_true, and_true]
    refine ⟨Json.wellFormed_array ?_, hthreshold.wellFormed, ihl, ihu⟩
    intro v hv
    obtain ⟨a, ha, rfl⟩ := List.mem_map.1 hv
    exact (hprojector a ha).wellFormed

/-- A node takes one container more than it is deep. -/
theorem sound_iff (h : Archivable finite node) {room : Nat} :
    node.toJson.sound room = true ↔ node.depth < room := by
  induction h generalizing room with
  | response hvalue =>
    rw [toJson_response, responseToJson]
    cases room with
    | zero => simp [Json.sound]
    | succ room =>
      simp only [Json.sound, Json.soundFields, Json.sound_of_plain hvalue.plain, depth]
      simp
  | @join projector threshold lower upper hprojector hthreshold hlower hupper ihl ihu =>
    rw [toJson_join, conditionToJson]
    cases room with
    | zero => simp [Json.sound]
    | succ room =>
      have hdepth : (Node.join projector threshold lower upper).depth < room + 1 ↔
          lower.depth < room ∧ upper.depth < room := by
        rw [Node.join, depth]
        omega
      -- a child is a container, so where it has room an array of scalars has
      have hitems : lower.depth < room →
          (Json.array (projector.map ScalarCodec.toJson)).sound room = true := fun hroom => by
        obtain ⟨k, rfl⟩ := Nat.exists_eq_add_of_lt hroom
        refine Json.soundItems_eq_true fun v hv => ?_
        obtain ⟨a, ha, rfl⟩ := List.mem_map.1 hv
        exact Json.sound_of_plain (hprojector a ha).plain _
      rw [hdepth, ← ihl, ← ihu, Json.sound, Json.soundFields, Json.soundFields, Json.soundFields,
        Json.soundFields, Json.soundFields, Json.sound_of_plain hthreshold.plain, Bool.and_true,
        Bool.true_and, Bool.and_eq_true, Bool.and_eq_true]
      exact and_iff_right_of_imp fun h => hitems (ihl.1 h.1)

/-- A node is read back from what is written exactly if all its scalars are finite. -/
theorem ofJson_eq_some_iff (h : Archivable finite node) {root : Node F L} :
    Node.ofJson node.toJson = some root ↔ node.AllFinite finite ∧ root = node := by
  induction h generalizing root with
  | response hvalue =>
    rw [toJson_response, ofJson_responseToJson, hvalue.read, Option.map_some, Option.some.injEq]
    exact ⟨fun hroot => ⟨allFinite_response, hroot.symm⟩, fun hroot => hroot.2.symm⟩
  | join hprojector hthreshold hlower hupper ihl ihu =>
    have hread := fun a ha y => (hprojector a ha).ofJson_eq_some_iff (y := y)
    rw [toJson_join, ofJson_conditionToJson, AllFinite, forall_conditions_join]
    simp only [Option.bind_eq_bind, Option.bind_eq_some_iff, hthreshold.ofJson_eq_some_iff,
      mapM_eq_some_iff hread, List.map_id', ihl, ihu, Option.pure_def, Option.some.injEq]
    constructor
    · rintro ⟨_, ⟨hp, rfl⟩, _, ⟨ht, rfl⟩, _, ⟨hl, rfl⟩, _, ⟨hu, rfl⟩, rfl⟩
      exact ⟨⟨⟨hp, ht⟩, hl, hu⟩, rfl⟩
    · rintro ⟨⟨⟨hp, ht⟩, hl, hu⟩, rfl⟩
      exact ⟨_, ⟨hp, rfl⟩, _, ⟨ht, rfl⟩, _, ⟨hl, rfl⟩, _, ⟨hu, rfl⟩, rfl⟩

end Archivable
end Node

/-! ### Texts and exact scalars -/

/-- Bits of a finite number are written as its shortest decimal. -/
theorem DecimalLayout.toJson_eq_number (l : DecimalLayout) {f : BinaryFormat} {bits : Nat}
    {negative : Bool} {m : Nat} {q : Int} {n : Numeral} (hbits : f.decode bits = .finite negative m q)
    (hshortest : l.shortest f negative m q = n) : l.toJson f bits = .number n := by
  rw [DecimalLayout.toJson, hbits, ← hshortest]

/-- A label that is a text is kept. -/
theorem LabelCodec.keeps_text (s : String) : LabelCodec.Keeps s :=
  ⟨List.forall_mem_singleton.2 trivial, rfl, rfl⟩

namespace Exact

/-- Bits of the double nearest to a number. -/
def doubleBits (a : Rat) : Nat :=
  (if a < 0 then 1 <<< 63 else 0) + BinaryFormat.double.round a.num.natAbs a.den

/-- Numbers are written and read as the doubles nearest to them. -/
instance : ScalarCodec Exact where
  toJson
    | .number a => doubleLayout.toJson .double (doubleBits a)
    | .undefined => .null
  ofNumeral n := n.doubleBits?.map fun bits =>
    let (num, den) := BinaryFormat.double.ratio bits
    .number (if n.negative then -(num / den) else num / den)

/-- A number is kept if its double is written as a numeral that it is read back from. -/
theorem keeps_number {a : Rat} (negative : Bool) (m : Nat) (q : Int) (n : Numeral)
    (hbits : BinaryFormat.double.decode (doubleBits a) = .finite negative m q)
    (hshortest : doubleLayout.shortest .double negative m q = n) (hn : n.WellFormed)
    (hread : ScalarCodec.ofNumeral n = some (number a)) :
    ScalarCodec.Keeps (· ≠ undefined) (number a) := by
  have hwritten : ScalarCodec.toJson (number a) = .number n :=
    doubleLayout.toJson_eq_number hbits hshortest
  refine .number nofun hwritten hn ?_ hread
  obtain ⟨bits, hdouble, -⟩ := Option.map_eq_some_iff.1 hread
  rw [Numeral.double?, hdouble]
  rfl

theorem keeps_undefined : ScalarCodec.Keeps (· ≠ undefined) undefined :=
  .null (fun h => h rfl) rfl

theorem keeps_zero : ScalarCodec.Keeps (· ≠ undefined) (number 0) :=
  keeps_number false 0 (-1074) ⟨false, [0], [0], none⟩ (by decide +kernel) (by decide +kernel)
    ⟨by decide, by decide, nofun, fun _ h => by cases h; rfl⟩ (by decide +kernel)

theorem keeps_one : ScalarCodec.Keeps (· ≠ undefined) (number 1) :=
  keeps_number false (2 ^ 52) (-52) ⟨false, [1], [0], none⟩ (by decide +kernel) (by decide +kernel)
    ⟨by decide, by decide, nofun, nofun⟩ (by decide +kernel)

theorem keeps_negative : ScalarCodec.Keeps (· ≠ undefined) (number (-5 / 2)) :=
  keeps_number true (5 * 2 ^ 50) (-51) ⟨true, [2], [5], none⟩ (by decide +kernel)
    (by decide +kernel) ⟨by decide, by decide, nofun, nofun⟩ (by decide +kernel)

end Exact
end PursuitForest
