import PursuitForest.Error
/-!
Componentwise operations on vectors that may differ in length.

A vector of one component stands for a vector of any length with that component throughout. Other
vectors combine only with vectors of their own length.
-/

namespace PursuitForest

/-- The common length of two vectors, if they have one. -/
def commonLength (m n : Nat) : Option Nat :=
  if m = n then some m else if m = 1 then some n else if n = 1 then some m else none

/-- Component `j` of a vector, or its only component. -/
def component {F : Type} [Zero F] (v : List F) (j : Nat) : F :=
  match v with
  | [x] => x
  | v => v.getD j 0

/-- Combines two vectors component by component. -/
def broadcast {F L : Type} [Zero F] (f : F → F → F) (u v : List F) :
    Except (Error F L) (List F) :=
  match commonLength u.length v.length with
  | some n => .ok ((List.range n).map fun j => f (component u j) (component v j))
  | none => .error (.misuse .broadcast)

end PursuitForest
