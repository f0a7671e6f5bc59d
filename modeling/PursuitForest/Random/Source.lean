/-!
Random words and unbiased draws below a bound.

A `RandomSource` yields 64-bit words. `below` maps words to numbers below a bound: the high half of
the product of word and bound is the draw, and words whose low half falls beyond a zone are refused,
which removes the bias. Every draw is below its bound (`below_lt`), whatever the source.
-/

namespace PursuitForest

/-- A generator of 64-bit words. -/
class RandomSource (G : Type) where
  next : G → UInt64 × G
  ofSeed : UInt64 → G

/-- The words that a draw consumes: whole ones, or the upper halves. -/
inductive WordWidth where
  | half
  | whole
deriving DecidableEq

/-- Number of bits of a word. -/
def WordWidth.bits : WordWidth → Nat
  | .half => 32
  | .whole => 64

/-- Number of different words. -/
def WordWidth.count : WordWidth → Nat
  | .half => UInt32.size
  | .whole => UInt64.size

section
variable {G : Type} [RandomSource G]

/-- The next word of the given width. -/
def nextWord (w : WordWidth) (g : G) : Nat × G :=
  let (v, g) := RandomSource.next g
  match w with
  | .half => (v.toNat / UInt32.size, g)
  | .whole => (v.toNat, g)

theorem nextWord_lt (w : WordWidth) (g : G) : (nextWord w g).1 < w.count := by
  have h := (RandomSource.next g).1.toNat_lt
  cases w
  · simp only [nextWord, WordWidth.count, UInt32.size]; omega
  · simpa [nextWord, WordWidth.count, UInt64.size] using h

/-- Draws below `bound`, refusing words whose product with `bound` has a low half beyond `zone`.
After `tries` refusals the next word is taken as it is. -/
def drawBelow (w : WordWidth) (bound zone : Nat) : (tries : Nat) → G → Nat × G
  | 0, g =>
    let (v, g) := nextWord w g
    (v * bound / w.count, g)
  | k + 1, g =>
    let (v, g) := nextWord w g
    if v * bound % w.count ≤ zone then (v * bound / w.count, g) else drawBelow w bound zone k g

theorem drawBelow_lt {w : WordWidth} {bound zone : Nat} (h : 0 < bound) : ∀ (tries : Nat) (g : G),
    (drawBelow w bound zone tries g).1 < bound := by
  have key : ∀ g : G, (nextWord w g).1 * bound / w.count < bound := fun g => by
    refine Nat.div_lt_of_lt_mul ?_
    exact Nat.mul_lt_mul_of_pos_right (nextWord_lt w g) h
  intro tries
  induction tries with
  | zero => exact key
  | succ k ih =>
    intro g
    simp only [drawBelow]
    split
    · exact key g
    · exact ih _

/-- Refusals after which a draw stops refusing. The chance to get there is below `2 ^ (-128)`. -/
def patience : Nat := 128

/-- Draws below `bound`. The zone is the largest multiple of `bound` by a power of two that fits a
word. -/
def below (w : WordWidth) (bound : Nat) (g : G) : Nat × G :=
  drawBelow w bound (bound <<< (w.bits - (bound.log2 + 1)) - 1) patience g

/-- A draw is below its bound. -/
theorem below_lt {w : WordWidth} {bound : Nat} (h : 0 < bound) (g : G) :
    (below w bound g).1 < bound :=
  drawBelow_lt h _ g

/-- Draws below `bound` with the largest possible zone, for many draws below one bound. -/
def belowRepeated (w : WordWidth) (bound : Nat) (g : G) : Nat × G :=
  drawBelow w bound (w.count - 1 - (w.count - bound) % bound) patience g

theorem belowRepeated_lt {w : WordWidth} {bound : Nat} (h : 0 < bound) (g : G) :
    (belowRepeated w bound g).1 < bound :=
  drawBelow_lt h _ g

/-- Exchanges place `i` with a random place up to `i`, for `i` downwards to one. -/
def shuffleDown {α : Type} : (i : Nat) → Array α → G → Array α × G
  | 0, xs, g => (xs, g)
  | i + 1, xs, g =>
    let (j, g) := below .half (i + 2) g
    shuffleDown i (xs.swapIfInBounds (i + 1) j) g

/-- A random rearrangement. -/
def shuffle {α : Type} (xs : List α) (g : G) : List α × G :=
  let (ys, g) := shuffleDown (xs.length - 1) xs.toArray g
  (ys.toList, g)

end

end PursuitForest
