import PursuitForest.Random.Source
/-!
Random reals: uniform on an interval, and of the standard normal distribution.

The normal distribution is covered by 256 layers of equal area. Most draws fall into the part of a
layer that lies under the density and are taken at once; the rest is decided at the edge of the
layer or in the tail.
-/

namespace PursuitForest

variable {G : Type} [RandomSource G]

/-- The leading 52 bits of a word over `2 ^ 52`. -/
def unitFloat (word : UInt64) : Float := (word >>> 12).toFloat / 4503599627370496.0

/-! ### Uniform -/

/-- An interval, with the length that draws are scaled by. -/
structure UniformInterval where
  low : Float
  scale : Float

namespace UniformInterval

/-- The last good number from `first` on, where `first` is good, `bad` is not, and all numbers below
a good one are good. Every step halves the distance. -/
def lastGood (good : Nat → Bool) : (steps : Nat) → (first bad : Nat) → Nat
  | 0, first, _ => first
  | k + 1, first, bad =>
    if bad ≤ first + 1 then first
    else
      let mid := (first + bad) / 2
      if good mid then lastGood good k mid bad else lastGood good k first mid

/-- Whether the largest draw of a scale, given by its bits, is below `high`. -/
def staysBelow (low high : Float) (scale : Nat) : Bool :=
  Float.ofBits (.ofNat scale) * (1.0 - 1.0 / 4503599627370496.0) + low < high

/-- The largest scale, up to the length of the interval, with which all draws are below `high`. The
bits of scales stand in the order of the scales. -/
def largestScale (low high : Float) : Float :=
  let length := (high - low).toBits.toNat
  if staysBelow low high length then high - low
  else Float.ofBits (.ofNat (lastGood (staysBelow low high) 64 0 length))

/-- The interval from `low` up to but not including `high`, if `low` is smaller and the length is
finite. -/
def of? (low high : Float) : Option UniformInterval :=
  if low < high ∧ (high - low).isFinite then some ⟨low, largestScale low high⟩ else none

/-- A draw from the interval. -/
def draw (u : UniformInterval) (g : G) : Float × G :=
  let (word, g) := RandomSource.next g
  (unitFloat word * u.scale + u.low, g)

end UniformInterval

/-! ### Standard normal -/

namespace Normal

/-- Where the tail begins. -/
def tailStart : Float := 3.654152885361008796

/-- Area of a layer. -/
def layerArea : Float := 0.00492867323399

/-- The density, scaled to one at zero. -/
def density (x : Float) : Float := Float.exp (-x * x / 2.0)

/-- The right edges of layers, from `x` inwards. -/
def innerEdges : (layers : Nat) → Float → List Float
  | 0, _ => []
  | k + 1, x =>
    let x' := Float.sqrt (-2.0 * Float.log (layerArea / x + density x))
    x' :: innerEdges k x'

/-- The right edges of the layers: that of a rectangle of the area of the lowest layer first, the
start of the tail second, and zero last. -/
def edges : Array Float :=
  (layerArea / density tailStart :: tailStart :: innerEdges 254 tailStart ++ [0.0]).toArray

/-- The density at the edges. -/
def heights : Array Float := edges.map density

/-- A draw from the tail, and whether it is refused, in which case the next two words are tried. -/
def tail : (tries : Nat) → G → Float × G
  | 0, g => (tailStart, g)
  | k + 1, g =>
    let (first, g) := RandomSource.next g
    let (second, g) := RandomSource.next g
    -- strictly between zero and one
    let positive (word : UInt64) := 1.0 + unitFloat word - (1.0 - 1.0 / 9007199254740992.0)
    let x := Float.log (positive first) / tailStart
    let y := Float.log (positive second)
    if -2.0 * y < x * x then tail k g else (tailStart - x, g)

/-- A draw of the standard normal distribution, refusing at most `tries` candidates. -/
def drawFrom : (tries : Nat) → G → Float × G
  | 0, g => (0.0, g)
  | k + 1, g =>
    let (word, g) := RandomSource.next g
    let i := (word % 256).toNat
    let u := 2.0 * (1.0 + unitFloat word) - 3.0
    let x := u * edges.getD i 0.0
    if x.abs < edges.getD (i + 1) 0.0 then (x, g)
    else if i = 0 then
      let (t, g) := tail patience g
      (if u < 0.0 then -t else t, g)
    else
      let (word, g) := RandomSource.next g
      let share := (word >>> 11).toFloat / 9007199254740992.0
      let low := heights.getD i 0.0
      if heights.getD (i + 1) 0.0 + (low - heights.getD (i + 1) 0.0) * share < density x then (x, g)
      else drawFrom k g

/-- A draw of the standard normal distribution. -/
def draw (g : G) : Float × G := drawFrom patience g

end Normal

end PursuitForest
