import PursuitForest.Label
import PursuitForest.Random.Source
/-!
Random choices of distinct numbers below a bound.

Three methods give choices of the same distribution and differ in cost: exchanging places of the
full list, taking one number of each growing range, and drawing until the draws are distinct. Which
of them runs depends on the sizes only.
-/

namespace PursuitForest

/-- How distinct numbers are drawn. -/
inductive ChoiceMethod where
  /-- Exchange places of the list of all numbers. -/
  | exchange
  /-- One number for each of the last places, which replaces a repeated draw. -/
  | growing
  /-- Draw again on repetition. -/
  | redraw (w : WordWidth)
deriving DecidableEq

/-- Costs of the methods, which the choice between them weighs: `(slope, offset)` for small
choices and the ratio for large ones. -/
def exchangeCosts (bound : Nat) : (Float32 × Float32) × Float32 :=
  if bound < 500000 then ((1.6, 10.0), 270.0) else ((8.0 / 45.0, 70.0 / 9.0), 330.0 / 9.0)

/-- The method for `amount` numbers below `bound`. -/
def choiceMethod (bound amount : Nat) : ChoiceMethod :=
  if UInt32.size ≤ bound then .redraw .whole
  else
    let ((slope, offset), ratio) := exchangeCosts bound
    let n := Float32.ofNat bound
    let k := Float32.ofNat amount
    if amount < 163 then
      if 11 < amount ∧ n < (offset + slope * k) * k then .exchange else .growing
    else if n < ratio * k then .exchange
    else .redraw .half

section
variable {G : Type} [RandomSource G]

/-- Exchanges place `i` with a random place from `i` on, for the given places `i`. -/
def exchangePlaces (bound : Nat) : List Nat → Array Nat → G → Array Nat × G
  | [], xs, g => (xs, g)
  | i :: is, xs, g =>
    let (j, g) := below .half (bound - i) g
    exchangePlaces bound is (xs.swapIfInBounds i (i + j)) g

/-- For every last place `j`, a number up to `j`, or `j` itself where the number is taken. -/
def growingRanges : List Nat → List Nat → G → List Nat × G
  | [], chosen, g => (chosen, g)
  | j :: js, chosen, g =>
    let (t, g) := below .half (j + 1) g
    growingRanges js (if chosen.contains t then j :: chosen else t :: chosen) g

/-- A number below `bound` that is not chosen yet. After `tries` repetitions the least such number
is taken. -/
def drawFresh (w : WordWidth) (bound : Nat) (chosen : List Nat) : (tries : Nat) → G → Nat × G
  | 0, g => (((List.range bound).find? fun i => !chosen.contains i).getD 0, g)
  | k + 1, g =>
    let (i, g) := belowRepeated w bound g
    if chosen.contains i then drawFresh w bound chosen k g else (i, g)

/-- `amount` draws, each different from those before. -/
def redrawDistinct (w : WordWidth) (bound : Nat) : (amount : Nat) → List Nat → G → List Nat × G
  | 0, chosen, g => (chosen, g)
  | k + 1, chosen, g =>
    let (i, g) := drawFresh w bound chosen (patience * bound) g
    redrawDistinct w bound k (i :: chosen) g

/-- `amount` distinct numbers below `bound`, ascending. The amount is at most the bound. -/
def choose (bound amount : Nat) (g : G) : List Nat × G :=
  let (chosen, g) := match choiceMethod bound amount with
    | .exchange =>
      let (xs, g) := exchangePlaces bound (List.range amount) (Array.range bound) g
      (xs.toList.take amount, g)
    | .growing =>
      let (xs, g) := growingRanges ((List.range amount).map (bound - amount + ·)) [] g
      -- a large choice is also put in random order
      if 50 ≤ amount then shuffle xs g else (xs, g)
    | .redraw w => redrawDistinct w bound amount [] g
  ((LabelSet.ofList chosen).toList, g)

end

end PursuitForest
