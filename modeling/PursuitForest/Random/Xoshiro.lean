import PursuitForest.Random.Source
/-!
The generator that training uses: four words of state, filled from a seed by a counter whose values
are scrambled.
-/

namespace PursuitForest

/-- State of the generator. -/
structure Xoshiro where
  s0 : UInt64
  s1 : UInt64
  s2 : UInt64
  s3 : UInt64

namespace Xoshiro

/-- Bits moved to the left, those that leave on the left entering on the right. -/
def rotateLeft (x : UInt64) (k : UInt64) : UInt64 := (x <<< k) ||| (x >>> (64 - k))

/-- The sum of two words of the state, and the next state. -/
def next (g : Xoshiro) : UInt64 × Xoshiro :=
  let t := g.s1 <<< 17
  let s2 := g.s2 ^^^ g.s0
  let s3 := g.s3 ^^^ g.s1
  let s1 := g.s1 ^^^ s2
  let s0 := g.s0 ^^^ s3
  (g.s0 + g.s3, ⟨s0, s1, s2 ^^^ t, rotateLeft s3 45⟩)

/-- The counter advanced to `x`, scrambled. -/
def scramble (x : UInt64) : UInt64 :=
  let z := (x ^^^ (x >>> 30)) * 0xbf58476d1ce4e5b9
  let z := (z ^^^ (z >>> 27)) * 0x94d049bb133111eb
  z ^^^ (z >>> 31)

/-- The state grown from a seed. -/
def ofSeed (seed : UInt64) : Xoshiro :=
  let step : UInt64 := 0x9e3779b97f4a7c15
  ⟨scramble (seed + step), scramble (seed + 2 * step), scramble (seed + 3 * step),
    scramble (seed + 4 * step)⟩

end Xoshiro

instance : RandomSource Xoshiro := ⟨Xoshiro.next, Xoshiro.ofSeed⟩

end PursuitForest
