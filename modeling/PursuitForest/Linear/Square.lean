import PursuitForest.Scalar
/-!
Square matrices and vectors of a fixed order.

Entries are tabulated once and read by index; every operation is described by its entries
(`Square.get_ofFn`). Sums over an index run upwards from zero. Products of matrices round each
product of entries together with the sum it goes into.
-/

namespace PursuitForest

/-- Vectors of order `n`. -/
abbrev Vec (F : Type) (n : Nat) := Vector F n

/-- Sum of the terms `f 0`, …, `f (n - 1)`. -/
def total {F : Type} [Scalar F] {n : Nat} (f : Fin n → F) : F := Fin.foldl n (fun s i => s + f i) 0

namespace Vec

@[simp] theorem get_ofFn {F : Type} {n : Nat} (f : Fin n → F) (i : Fin n) :
    (Vector.ofFn f).get i = f i := Vector.getElem_ofFn i.isLt

variable {F : Type} [Scalar F] {n : Nat}

/-- The first `n` components of a row. -/
def ofRow (n : Nat) (row : List F) : Vec F n :=
  let row := row.toArray
  Vector.ofFn fun i => row.getD i 0

/-- Difference. -/
def sub (u v : Vec F n) : Vec F n := Vector.ofFn fun i => u.get i - v.get i

/-- Componentwise mean, where `average` is the mean of scalars. -/
def mean (average : List F → F) (vs : List (Vec F n)) : Vec F n :=
  Vector.ofFn fun i => average (vs.map (·.get i))

end Vec

/-- Square matrices of order `n`, stored by rows. -/
structure Square (F : Type) (n : Nat) where
  rows : Vector (Vector F n) n

namespace Square

variable {F : Type} {n : Nat}

/-- Entry in row `i` and column `j`. -/
def get (a : Square F n) (i j : Fin n) : F := (a.rows.get i).get j

/-- The matrix with the given entries. -/
def ofFn (f : Fin n → Fin n → F) : Square F n := ⟨Vector.ofFn fun i => Vector.ofFn (f i)⟩

@[simp] theorem get_ofFn (f : Fin n → Fin n → F) (i j : Fin n) : (ofFn f).get i j = f i j := by
  simp [get, ofFn]

/-- Matrices with the same entries are equal. -/
@[ext] theorem ext {a b : Square F n} (h : ∀ i j, a.get i j = b.get i j) : a = b := by
  cases a with
  | mk r =>
    cases b with
    | mk s =>
      congr 1
      ext i hi j hj
      exact h ⟨i, hi⟩ ⟨j, hj⟩

variable [Scalar F]

/-- The matrix of zeros. -/
def zero : Square F n := ofFn fun _ _ => 0

/-- Sum. -/
def add (a b : Square F n) : Square F n := ofFn fun i j => a.get i j + b.get i j

/-- Rows and columns exchanged. -/
def transpose (a : Square F n) : Square F n := ofFn fun i j => a.get j i

/-- Product. -/
def mul (a b : Square F n) : Square F n :=
  let columns := b.transpose
  ofFn fun i j => Scalar.fusedDot (a.rows.get i).toList (columns.rows.get j).toList

/-- The matrix with `v` on the diagonal and zeros elsewhere. -/
def diagonal (v : Vec F n) : Square F n := ofFn fun i j => if i = j then v.get i else 0

/-- Product with a column vector. -/
def apply (a : Square F n) (v : Vec F n) : Vec F n :=
  Vector.ofFn fun i => total fun j : Fin n => a.get i j * v.get j

/-- Column `j`. -/
def column (a : Square F n) (j : Fin n) : Vec F n := Vector.ofFn fun i => a.get i j

/-- Value of the quadratic form at `v`. -/
def quadratic (a : Square F n) (v : Vec F n) : F :=
  Scalar.dot v.toList (a.rows.toList.map fun r => Scalar.dot r.toList v.toList)

end Square

end PursuitForest
