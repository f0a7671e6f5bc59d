/-!
Seeds of the trees of a forest.

Every attempt at every tree has a seed of its own, which depends on nothing but the seed of the
forest, the place of the tree and the number of the attempt.
-/

namespace PursuitForest

/-- Scrambles a word. -/
def mix (z : UInt64) : UInt64 :=
  let z := z + 0x9e3779b97f4a7c15
  let z := (z ^^^ (z >>> 30)) * 0xbf58476d1ce5e4b9
  let z := (z ^^^ (z >>> 27)) * 0x94d049bb133111eb
  z ^^^ (z >>> 31)

/-- The seed of an attempt at a tree. -/
def deriveSeed (seed tree attempt : UInt64) : UInt64 := mix (mix (seed ^^^ mix tree) ^^^ attempt)

end PursuitForest
