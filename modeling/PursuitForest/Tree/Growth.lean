import PursuitForest.Tree.Node
import PursuitForest.Tree.Split
/-!
Growing a tree.

A node of one class is a response, a node of two classes a condition over two responses, and a node
of more classes a condition over the nodes of its two sides. The nodes still to grow and the nodes
already built are kept in two lists: a `Builder` does the first of its tasks in every round, and the
root is what is built when no task is left. The generator of the column choices goes from task to
task; it is left behind also where growing fails.
-/

namespace PursuitForest

/-- Work still to do: a node to grow, or a condition to put over the two nodes built last. -/
inductive Task (F L : Type) [Label L] where
  | grow (data : GroupedDataset F L)
  | assemble (projector : List F) (threshold : F)

/-- The condition that splits two classes. -/
def Split.toNode {F L : Type} [Label L] (s : Split F L) : Node F L :=
  .join s.projector s.threshold (.response s.lower) (.response s.upper)

/-- The split of a node of more than two classes, and the data on either side of it. -/
structure Branching (F L : Type) [Label L] where
  split : Split F L
  lower : GroupedDataset F L
  upper : GroupedDataset F L

/-- The tasks to do, the next first, the nodes built so far, the latest first, and the generator. -/
structure Builder (F L G : Type) [Label L] where
  tasks : List (Task F L)
  built : List (Node F L)
  source : G

/-- What a round of building comes to: a builder for the next round, or an end. -/
inductive Round (F L G : Type) [Label L] where
  | next (b : Builder F L G)
  | done (outcome : Except (Error F L) (Node F L)) (source : G)

variable {F L G : Type} [Scalar F] [Eigensolver F] [Label L] [RandomSource G]

/-- Divides a node and its data. -/
def branch (settings : TreeSettings F) (d : GroupedDataset F L) (g : G) :
    Except (Error F L) (Branching F L) × G :=
  let (division, g) := divide settings d g
  (do
    let division ← division
    return ⟨division.split, ← d.subset division.lower, ← d.subset division.upper⟩, g)

/-- Does a task: the tasks that it leads to, and the nodes that are built then. -/
def perform (settings : TreeSettings F) (task : Task F L) (built : List (Node F L)) (g : G) :
    Except (Error F L) (List (Task F L) × List (Node F L)) × G :=
  match task with
  | .grow d =>
    match d.groups with
    | [] => (.error (.parameter .nodeWithoutClasses), g)
    | [c] => (.ok ([], .response c.label :: built), g)
    | [_, _] =>
      let (division, g) := divide settings d g
      (do return ([], (← division).split.toNode :: built), g)
    | _ =>
      let (branching, g) := branch settings d g
      (do
        let b ← branching
        return ([.grow b.lower, .grow b.upper, .assemble b.split.projector b.split.threshold],
          built), g)
  | .assemble projector threshold =>
    match built with
    | upper :: lower :: built => (.ok ([], .join projector threshold lower upper :: built), g)
    | _ => (.error (.parameter .lostSubtree), g)

namespace Builder

/-- The builder of a tree on `d`. -/
def start (d : GroupedDataset F L) (g : G) : Builder F L G := ⟨[.grow d], [], g⟩

/-- Does the next task, if there is one. -/
def round (settings : TreeSettings F) (b : Builder F L G) : Round F L G :=
  match b.tasks with
  | [] =>
    match b.built with
    | root :: _ => .done (.ok root) b.source
    | [] => .done (.error (.parameter .missingRoot)) b.source
  | task :: tasks =>
    match perform settings task b.built b.source with
    | (.ok (more, built), g) => .next ⟨more ++ tasks, built, g⟩
    | (.error e, g) => .done (.error e) g

/-- Goes on until the end, if that comes within the given number of rounds. -/
def run (settings : TreeSettings F) : (rounds : Nat) → Builder F L G →
    Option (Except (Error F L) (Node F L) × G)
  | 0, _ => none
  | k + 1, b =>
    match b.round settings with
    | .next b => run settings k b
    | .done outcome g => some (outcome, g)

end Builder

/-- Conditions on data that must hold before anything is drawn. -/
def checkGrowth (settings : TreeSettings F) (d : GroupedDataset F L) : Except (Error F L) Unit :=
  if d.isEmpty then .error (.parameter .growWithoutRows) else settings.checkWidth d.width

/-- Grows a tree, and answers with it and the generator it leaves behind. Every class takes less
than three rounds: its response, its share of the conditions, and their assembly. -/
def grow (settings : TreeSettings F) (d : GroupedDataset F L) (g : G) :
    Except (Error F L) (Node F L) × G :=
  match checkGrowth settings d with
  | .error e => (.error e, g)
  | .ok () =>
    ((Builder.start d g).run settings (3 * d.groupCount)).getD (.error (.parameter .missingRoot), g)

end PursuitForest
