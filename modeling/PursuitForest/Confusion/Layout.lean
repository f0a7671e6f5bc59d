import PursuitForest.Confusion.Counts
import PursuitForest.Text.Shown
/-!
Confusion matrices as text.

A line of labels, a rule, and a line for every actual class. All cells are equally wide: as wide as
the longest label in bytes or the longest count, whichever is more, and texts are padded on the left
by characters. Cells of more than `maxCellWidth` characters are not laid out.
-/

namespace PursuitForest
namespace Confusion

variable {L : Type} [Label L] [ShownLabel L]

/-- A text padded on the left. -/
def padLeft (width : Nat) (s : String) : String :=
  String.ofList (List.replicate (width - s.length) ' ') ++ s

/-- Labels as they are shown. -/
def shownLabels (m : Confusion L) : List String := m.labels.toList.map ShownLabel.shown

/-- Width of a cell, one if there are none. -/
def cellWidth (m : Confusion L) : Nat :=
  let labelWidths := m.shownLabels.map String.utf8ByteSize
  let countWidths := m.counts.flatten.map fun n => (toString n).length
  match labelWidths ++ countWidths with
  | [] => 1
  | w :: ws => ws.foldl max w

/-- The head of a line and its cells. -/
def line (width : Nat) (head : String) (cells : List String) : String :=
  padLeft width head ++ " |" ++ String.join (cells.map fun c => " " ++ padLeft width c)

/-- The line of labels, the rule, and one line for every class. -/
def lines (m : Confusion L) : List String :=
  let width := m.cellWidth
  let labels := m.shownLabels
  line width "" labels ::
  String.ofList (List.replicate ((width + 1) * (labels.length + 1) + 1) '-') ::
  List.zipWith (fun label row => line width label (row.map toString)) labels m.counts

/-- Most characters of a cell. -/
def maxCellWidth : Nat := 65535

/-- The lines, each with a line feed. -/
def render {F : Type} (m : Confusion L) : Except (Error F L) String :=
  if maxCellWidth < m.cellWidth then .error (.misuse .cellTooWide)
  else .ok (String.join (m.lines.map (· ++ "\n")))

end Confusion
end PursuitForest
