/-!
Class labels and sets of them.

A `Label` type is linearly ordered; the order decides the layout of class blocks and every
tie-break. A `LabelSet` is a strictly ascending list, so equal sets are equal values
(`LabelSet.ext_mem`) and the smallest label comes first.
-/

namespace PursuitForest

/-- A type of class labels with a decidable linear order. -/
class Label (L : Type) extends LE L, LT L, Std.IsLinearOrder L, Std.LawfulOrderLT L where
  decEq : DecidableEq L
  decLe : DecidableLE L
  decLt : DecidableLT L
  /-- Whether a label takes one word at most. -/
  isShort : Bool := true

namespace Label

variable {L : Type} [Label L]

instance : DecidableEq L := decEq
instance : DecidableLE L := decLe
instance : DecidableLT L := decLt

theorem lt_trans {a b c : L} : a < b → b < c → a < c := Std.lt_trans

theorem lt_irrefl (a : L) : ¬ a < a := Std.lt_irrefl

theorem ne_of_lt {a b : L} (h : a < b) : a ≠ b := by
  rintro rfl
  exact lt_irrefl a h

theorem le_of_lt {a b : L} (h : a < b) : a ≤ b := Std.le_of_lt h

/-- Neither equal nor smaller means larger. -/
theorem lt_of_ne_of_not_lt {a b : L} (hne : a ≠ b) (h : ¬ a < b) : b < a := by
  rcases Std.lt_trichotomy a b with h' | h' | h'
  · exact absurd h' h
  · exact absurd h' hne
  · exact h'

end Label

/-- `x` put in its place in an ascending list, unless it is there already. -/
def insertAscending {L : Type} [Label L] (x : L) : List L → List L
  | [] => [x]
  | y :: ys => if x < y then x :: y :: ys else if x = y then y :: ys else y :: insertAscending x ys

section
variable {L : Type} [Label L]

theorem mem_insertAscending {x z : L} : ∀ {ys : List L},
    z ∈ insertAscending x ys ↔ z = x ∨ z ∈ ys
  | [] => by simp [insertAscending]
  | y :: ys => by
      unfold insertAscending
      split
      · simp
      · split
        · next h => subst h; simp
        · have ih : z ∈ insertAscending x ys ↔ z = x ∨ z ∈ ys := mem_insertAscending
          simp only [List.mem_cons, ih]
          constructor
          · rintro (h | h | h) <;> simp [h]
          · rintro (h | h | h) <;> simp [h]

theorem insertAscending_pairwise {x : L} : ∀ {ys : List L}, ys.Pairwise (· < ·) →
    (insertAscending x ys).Pairwise (· < ·)
  | [], _ => by simp [insertAscending]
  | y :: ys, h => by
      obtain ⟨hy, hys⟩ := List.pairwise_cons.1 h
      unfold insertAscending
      split
      · next hxy =>
        refine List.pairwise_cons.2 ⟨fun z hz => ?_, h⟩
        rcases List.mem_cons.1 hz with rfl | hz
        · exact hxy
        · exact Label.lt_trans hxy (hy z hz)
      · next hxy =>
        split
        · exact h
        · next hne =>
          refine List.pairwise_cons.2 ⟨fun z hz => ?_, insertAscending_pairwise hys⟩
          rcases mem_insertAscending.1 hz with rfl | hz
          · exact Label.lt_of_ne_of_not_lt hne hxy
          · exact hy z hz

/-- An ascending list is determined by its members. -/
theorem eq_of_ascending : ∀ {xs ys : List L}, xs.Pairwise (· < ·) → ys.Pairwise (· < ·) →
    (∀ z, z ∈ xs ↔ z ∈ ys) → xs = ys
  | [], [], _, _, _ => rfl
  | [], y :: _, _, _, h => absurd ((h y).2 (by simp)) (by simp)
  | x :: _, [], _, _, h => absurd ((h x).1 (by simp)) (by simp)
  | x :: xs, y :: ys, hx, hy, h => by
      obtain ⟨hx1, hx2⟩ := List.pairwise_cons.1 hx
      obtain ⟨hy1, hy2⟩ := List.pairwise_cons.1 hy
      -- each head is the least member of its list
      have hxy : x = y := by
        rcases List.mem_cons.1 ((h x).1 (by simp)) with h1 | h1
        · exact h1
        · rcases List.mem_cons.1 ((h y).2 (by simp)) with h2 | h2
          · exact h2.symm
          · exact absurd (Label.lt_trans (hx1 y h2) (hy1 x h1)) (Label.lt_irrefl x)
      subst hxy
      have hrest : ∀ z, z ∈ xs ↔ z ∈ ys := fun z => by
        constructor
        · intro hz
          rcases List.mem_cons.1 ((h z).1 (List.mem_cons_of_mem _ hz)) with rfl | h'
          · exact absurd (hx1 z hz) (Label.lt_irrefl z)
          · exact h'
        · intro hz
          rcases List.mem_cons.1 ((h z).2 (List.mem_cons_of_mem _ hz)) with rfl | h'
          · exact absurd (hy1 z hz) (Label.lt_irrefl z)
          · exact h'
      rw [eq_of_ascending hx2 hy2 hrest]

end

/-- A finite set of labels, written in ascending order. -/
structure LabelSet (L : Type) [Label L] where
  toList : List L
  ascending : toList.Pairwise (· < ·)

namespace LabelSet

variable {L : Type} [Label L]

@[ext] theorem ext {s t : LabelSet L} (h : s.toList = t.toList) : s = t := by
  cases s; cases t; cases h; rfl

instance : DecidableEq (LabelSet L) := fun s t =>
  decidable_of_iff (s.toList = t.toList) ⟨ext, congrArg toList⟩

instance : Membership L (LabelSet L) := ⟨fun s x => x ∈ s.toList⟩

instance (x : L) (s : LabelSet L) : Decidable (x ∈ s) := inferInstanceAs (Decidable (x ∈ s.toList))

theorem mem_def {x : L} {s : LabelSet L} : x ∈ s ↔ x ∈ s.toList := Iff.rfl

/-- Sets with the same members are equal. -/
theorem ext_mem {s t : LabelSet L} (h : ∀ x, x ∈ s ↔ x ∈ t) : s = t :=
  ext (eq_of_ascending s.ascending t.ascending h)

/-- The set without members. -/
def empty : LabelSet L := ⟨[], List.Pairwise.nil⟩

/-- The set with one member. -/
def singleton (x : L) : LabelSet L := ⟨[x], List.pairwise_singleton _ _⟩

/-- The set with `x` added. -/
def insert (x : L) (s : LabelSet L) : LabelSet L :=
  ⟨insertAscending x s.toList, insertAscending_pairwise s.ascending⟩

/-- The distinct members of a list. -/
def ofList (xs : List L) : LabelSet L := xs.foldr insert empty

/-- The members of either set. -/
def union (s t : LabelSet L) : LabelSet L := s.toList.foldr insert t

/-- The members of both sets. -/
def inter (s t : LabelSet L) : LabelSet L :=
  ⟨s.toList.filter (· ∈ t), s.ascending.filter _⟩

/-- The image of a set. -/
def map {L' : Type} [Label L'] (f : L → L') (s : LabelSet L) : LabelSet L' :=
  ofList (s.toList.map f)

/-- Number of members. -/
def size (s : LabelSet L) : Nat := s.toList.length

/-- Whether there is no member. -/
def isEmpty (s : LabelSet L) : Bool := s.toList.isEmpty

/-- The smallest member. -/
def min? (s : LabelSet L) : Option L := s.toList.head?

@[simp] theorem not_mem_empty {x : L} : x ∉ (empty : LabelSet L) := by simp [mem_def, empty]

@[simp] theorem mem_singleton {x y : L} : x ∈ singleton y ↔ x = y := by simp [mem_def, singleton]

@[simp] theorem mem_insert {x y : L} {s : LabelSet L} : x ∈ insert y s ↔ x = y ∨ x ∈ s :=
  mem_insertAscending

@[simp] theorem mem_ofList {x : L} : ∀ {xs : List L}, x ∈ ofList xs ↔ x ∈ xs
  | [] => by simp [ofList]
  | y :: ys => by
      have ih : x ∈ ofList ys ↔ x ∈ ys := mem_ofList
      simp only [ofList, List.foldr_cons, mem_insert, List.mem_cons]
      simp only [ofList] at ih
      rw [ih]

@[simp] theorem mem_union {x : L} {s t : LabelSet L} : x ∈ union s t ↔ x ∈ s ∨ x ∈ t := by
  have key : ∀ xs : List L, x ∈ xs.foldr insert t ↔ x ∈ xs ∨ x ∈ t := by
    intro xs
    induction xs with
    | nil => simp
    | cons y ys ih => simp only [List.foldr_cons, mem_insert, ih, List.mem_cons, or_assoc]
  exact key s.toList

@[simp] theorem mem_inter {x : L} {s t : LabelSet L} : x ∈ inter s t ↔ x ∈ s ∧ x ∈ t := by
  simp [mem_def, inter]

@[simp] theorem mem_map {L' : Type} [Label L'] {f : L → L'} {y : L'} {s : LabelSet L} :
    y ∈ map f s ↔ ∃ x ∈ s, f x = y := by
  simp [map, mem_def (s := s)]

end LabelSet

/-! ### Label types -/

instance : Label Nat where
  decEq := inferInstance
  decLe := inferInstance
  decLt := inferInstance

instance : Label UInt8 where
  decEq := inferInstance
  decLe := inferInstance
  decLt := inferInstance

instance : Label UInt16 where
  decEq := inferInstance
  decLe := inferInstance
  decLt := inferInstance

instance : Label UInt32 where
  decEq := inferInstance
  decLe := inferInstance
  decLt := inferInstance

instance : Label UInt64 where
  decEq := inferInstance
  decLe := inferInstance
  decLt := inferInstance

instance : Label Int32 where
  decEq := inferInstance
  decLe := inferInstance
  decLt := inferInstance

instance : Label Int64 where
  decEq := inferInstance
  decLe := inferInstance
  decLt := inferInstance

/-- False comes before true. -/
instance : Label Bool where
  le_refl := by decide
  le_trans := by decide
  le_antisymm := by decide
  le_total := by decide
  lt_iff := by decide
  decEq := inferInstance
  decLe := inferInstance
  decLt := inferInstance

/-- Texts are ordered by their characters. -/
instance : Label String where
  decEq := inferInstance
  decLe := inferInstance
  decLt := inferInstance
  isShort := false

end PursuitForest
