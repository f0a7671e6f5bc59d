import PursuitForest.Error
/-!
Work that is done side by side.

The trees of a forest are trained by a crew of threads. Two things are not settled by the settings
and the data: whether as many threads as asked for can be had, and which of several failures is
reported, since that is the one that was noticed first. A `Crew` is a way for both to come out.
Work without a failure is collected in order.
-/

namespace PursuitForest

/-- How work side by side comes out where the work itself does not decide it. -/
structure Crew where
  /-- Why so many threads cannot be had, if they cannot. -/
  refusal : (threads : Nat) → Option String
  /-- Of a failure and some others, in order, the one that is reported. -/
  reported : (others : Nat) → Fin (others + 1)

namespace Crew

/-- Threads can always be had, and the first failure is reported. -/
def orderly : Crew := ⟨fun _ => none, fun _ => 0⟩

/-- Takes on threads of its own if a number of them is asked for. The shared threads are there. -/
def engage {F L : Type} (crew : Crew) : (threads : Option Nat) → Except (Error F L) Unit
  | none => .ok ()
  | some n =>
    match crew.refusal n with
    | none => .ok ()
    | some cause => .error (.threadPool cause)

variable {ε α : Type}

/-- The errors among some outcomes. -/
def failures (outcomes : List (Except ε α)) : List ε :=
  outcomes.filterMap fun
    | .ok _ => none
    | .error e => some e

/-- The values of some outcomes, or the failure among them that is reported. -/
def collect (crew : Crew) (outcomes : List (Except ε α)) : Except ε (List α) :=
  match failures outcomes with
  | [] => .ok (outcomes.filterMap Except.toOption)
  | e :: es => .error ((e :: es).get (crew.reported es.length))

end Crew

end PursuitForest
