import PursuitForest.Error
import PursuitForest.Label
/-!
Class blocks: which run of rows belongs to which class.

`ClassBlocks.scan` reads the blocks off a list of labels in one pass. It accepts exactly the lists
in which the rows of every class stand together; the classes need not stand in ascending order.
-/

namespace PursuitForest

/-- The rows `start`, …, `start + size - 1` carry `label`. -/
structure ClassBlock (L : Type) where
  label : L
  start : Nat
  size : Nat
deriving DecidableEq

namespace ClassBlock

/-- One past the last row of the block. -/
def stop {L : Type} (b : ClassBlock L) : Nat := b.start + b.size

end ClassBlock

/-- Blocks of distinct classes, in label order. -/
structure ClassBlocks (L : Type) [Label L] where
  toList : List (ClassBlock L)
  ascending : toList.Pairwise (·.label < ·.label)

namespace ClassBlocks

variable {L : Type} [Label L]

@[ext] theorem ext {s t : ClassBlocks L} (h : s.toList = t.toList) : s = t := by
  cases s; cases t; cases h; rfl

instance : DecidableEq (ClassBlocks L) := fun s t =>
  decidable_of_iff (s.toList = t.toList) ⟨ext, congrArg toList⟩

/-- No blocks. -/
def empty : ClassBlocks L := ⟨[], List.Pairwise.nil⟩

/-- The block of a class. -/
def find? (s : ClassBlocks L) (label : L) : Option (ClassBlock L) :=
  s.toList.find? (·.label = label)

/-- The classes that have a block. -/
def labels (s : ClassBlocks L) : LabelSet L :=
  ⟨s.toList.map (·.label), List.pairwise_map.2 s.ascending⟩

/-- Number of blocks. -/
def size (s : ClassBlocks L) : Nat := s.toList.length

/-- Whether there is no block. -/
def isEmpty (s : ClassBlocks L) : Bool := s.toList.isEmpty

/-- A block put in its place by label; a block of the same label is kept instead. -/
def place (b : ClassBlock L) : List (ClassBlock L) → List (ClassBlock L)
  | [] => [b]
  | c :: cs =>
    if b.label < c.label then b :: c :: cs
    else if b.label = c.label then c :: cs else c :: place b cs

theorem mem_place {b x : ClassBlock L} : ∀ {cs : List (ClassBlock L)},
    x ∈ place b cs → x = b ∨ x ∈ cs
  | [], h => by simpa [place] using h
  | c :: cs, h => by
      unfold place at h
      split at h
      · simpa using h
      · split at h
        · exact .inr h
        · rcases List.mem_cons.1 h with rfl | h
          · simp
          · rcases mem_place h with h | h <;> simp [h]

theorem place_pairwise {b : ClassBlock L} : ∀ {cs : List (ClassBlock L)},
    cs.Pairwise (·.label < ·.label) → (place b cs).Pairwise (·.label < ·.label)
  | [], _ => by simp [place]
  | c :: cs, h => by
      obtain ⟨hc, hcs⟩ := List.pairwise_cons.1 h
      unfold place
      split
      · next hbc =>
        refine List.pairwise_cons.2 ⟨fun x hx => ?_, h⟩
        rcases List.mem_cons.1 hx with rfl | hx
        · exact hbc
        · exact Label.lt_trans hbc (hc x hx)
      · next hbc =>
        split
        · exact h
        · next hne =>
          refine List.pairwise_cons.2 ⟨fun x hx => ?_, place_pairwise hcs⟩
          rcases mem_place hx with rfl | hx
          · exact Label.lt_of_ne_of_not_lt hne hbc
          · exact hc x hx

/-- The blocks with one more. -/
def insert (b : ClassBlock L) (s : ClassBlocks L) : ClassBlocks L :=
  ⟨place b s.toList, place_pairwise s.ascending⟩

/-- The blocks with one more row in the block of `label`. -/
def extend (label : L) (s : ClassBlocks L) : ClassBlocks L where
  toList := s.toList.map fun b => if b.label = label then { b with size := b.size + 1 } else b
  ascending := by
    have key : ∀ b : ClassBlock L,
        (if b.label = label then { b with size := b.size + 1 } else b).label = b.label := by
      intro b; split <;> rfl
    refine List.pairwise_map.2 (s.ascending.imp fun {b c} h => ?_)
    rw [key b, key c]; exact h

/-- Scans the labels from `row` on. `current` is the label of the row before, `found` holds the
blocks so far. -/
def scanFrom {F : Type} (row : Nat) (current : Option L) (found : ClassBlocks L) :
    List L → Except (Error F L) (ClassBlocks L)
  | [] => .ok found
  | label :: rest =>
    if current = some label then scanFrom (row + 1) current (found.extend label) rest
    else if (found.find? label).isSome then .error (.splitBlock label row)
    else scanFrom (row + 1) (some label) (found.insert ⟨label, row, 1⟩) rest

/-- The blocks of a list of labels. Fails at the first row whose label occurred before, but not in
the row directly above. -/
def scan {F : Type} (labels : List L) : Except (Error F L) (ClassBlocks L) :=
  scanFrom 0 none empty labels

end ClassBlocks

end PursuitForest
