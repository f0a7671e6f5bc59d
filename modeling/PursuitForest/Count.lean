/-!
Sums of counts.
-/

namespace PursuitForest

/-- Sum of some counts. -/
def totalCount (counts : List Nat) : Nat := counts.foldr (· + ·) 0

@[simp] theorem totalCount_nil : totalCount [] = 0 := rfl

@[simp] theorem totalCount_cons (n : Nat) (counts : List Nat) :
    totalCount (n :: counts) = n + totalCount counts := rfl

@[simp] theorem totalCount_append : ∀ xs ys : List Nat,
    totalCount (xs ++ ys) = totalCount xs + totalCount ys
  | [], ys => by simp
  | x :: xs, ys => by simp [totalCount_append xs ys, Nat.add_assoc]

end PursuitForest
