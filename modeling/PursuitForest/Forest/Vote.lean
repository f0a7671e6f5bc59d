import PursuitForest.Label
/-!
Plurality votes.

Votes are counted by label; the label with the most votes wins, and of several the smallest.
-/

namespace PursuitForest

variable {L : Type} [Label L]

/-- One more vote for a label, in counts that are ascending by label. -/
def addVote (label : L) : List (L × Nat) → List (L × Nat)
  | [] => [(label, 1)]
  | (l, n) :: rest =>
    if label < l then (label, 1) :: (l, n) :: rest
    else if label = l then (l, n + 1) :: rest else (l, n) :: addVote label rest

/-- Votes by label, ascending. -/
def countVotes (votes : List L) : List (L × Nat) :=
  votes.foldl (fun counts label => addVote label counts) []

/-- The label that is ahead after some more counts. -/
def leader (ahead : L × Nat) : List (L × Nat) → L
  | [] => ahead.1
  | next :: rest => leader (if next.2 ≤ ahead.2 then ahead else next) rest

/-- The first label of the largest count. -/
def plurality : List (L × Nat) → Option L
  | [] => none
  | first :: rest => some (leader first rest)

/-- The label that wins a vote, if there are votes. -/
def winner (votes : List L) : Option L := plurality (countVotes votes)

end PursuitForest
