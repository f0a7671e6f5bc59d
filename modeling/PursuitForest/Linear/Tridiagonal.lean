import PursuitForest.Linear.Square
/-!
Symmetric matrices in axes in which only neighbouring places are coupled.

Axes are reflected one column after the other. The reflection for column `i` leaves the axes up to
`i` alone and turns the entries of the column below the diagonal onto the entry beside it, so every
entry farther from the diagonal becomes zero.
-/

namespace PursuitForest

/-- Entry `i` of a vector, zero beyond its end. -/
def Vec.entry {F : Type} [Scalar F] {n : Nat} (v : Vec F n) (i : Nat) : F := v.toArray.getD i 0

/-- A symmetric matrix with entries on the diagonal and beside it, and the axes it is given in. -/
structure Tridiagonal (F : Type) (n : Nat) where
  diagonal : Vec F n
  /-- Entry `i` couples the places `i` and `i + 1`. -/
  beside : Vec F n
  axes : Square F n

namespace Tridiagonal

variable {F : Type} [Scalar F] {n : Nat}

/-- A symmetric matrix in reflected axes, and what is known of the entries beside the diagonal. -/
structure Reflected (F : Type) (n : Nat) where
  form : Square F n
  beside : Vec F n
  axes : Square F n

/-- Sum of the terms after place `i`. -/
def totalAfter (i : Fin n) (f : Fin n → F) : F :=
  Fin.foldl n (fun s k => if i < k then s + f k else s) 0

/-- `a` with the sign of `b`. -/
def withSign (a b : F) : F := if 0 ≤ b then a else -a

/-- The form reflected along `u` after place `i`. -/
def reflectForm (a : Square F n) (i : Fin n) (u : Vec F n) : Square F n :=
  let p : Vec F n := Vector.ofFn fun k => Scalar.two * totalAfter i fun l => a.get k l * u.get l
  let d := Scalar.two * totalAfter i fun k => u.get k * p.get k
  Square.ofFn fun r s =>
    if i < r ∧ i < s then
      a.get r s - p.get r * u.get s - u.get r * p.get s + d * (u.get r * u.get s)
    else a.get r s

/-- The axes after place `i` reflected along `u`. -/
def reflectAxes (a : Square F n) (i : Fin n) (u : Vec F n) : Square F n :=
  let w : Vec F n := Vector.ofFn fun k => Scalar.two * totalAfter i fun l => a.get k l * u.get l
  Square.ofFn fun r s => if i < s then a.get r s - w.get r * u.get s else a.get r s

/-- Reflects the axes after place `i` so that of column `i` only the entry beside the diagonal is
left below it. -/
def reflect (st : Reflected F n) (i : Fin n) : Reflected F n :=
  if h : i.val + 1 < n then
    let next : Fin n := ⟨i.val + 1, h⟩
    let x := st.form.get next i
    let squares := totalAfter i fun k => st.form.get k i * st.form.get k i
    let length := Scalar.sqrt squares
    let factor := Scalar.two * (squares + Scalar.abs x * length)
    if factor == 0 then { st with beside := st.beside.set i 0 i.isLt }
    else
      let signed := withSign length x
      let scale := Scalar.sqrt factor
      let u : Vec F n := Vector.ofFn fun k =>
        (if k = next then x + signed else st.form.get k i) / scale
      ⟨reflectForm st.form i u, st.beside.set i (-signed) i.isLt, reflectAxes st.axes i u⟩
  else st

/-- The tridiagonal form of a symmetric matrix. -/
def ofSquare (a : Square F n) : Tridiagonal F n :=
  let zeros : Vec F n := Vector.replicate n 0
  let start : Reflected F n := ⟨a, zeros, Square.diagonal (Vector.replicate n 1)⟩
  let st := (List.finRange n).foldl reflect start
  ⟨Vector.ofFn fun i => st.form.get i i, st.beside, st.axes⟩

end Tridiagonal

end PursuitForest
