import Mathlib.Algebra.BigOperators.Group.List.Basic
import Mathlib.Data.String.Basic
import Mathlib.Tactic.Ring
import PursuitForest.Confusion.Layout
import PursuitForest.Proofs.Confusion.Cells
/-!
The text of a confusion matrix.

No label and no count has more characters than a cell is wide, since a character takes one byte at least
(`length_le_utf8ByteSize`). So every cell is filled to the same width (`Confusion.laidOut_line`), and all
lines of the text have one length (`Confusion.exists_aligned`). A matrix with a label of more than
`maxCellWidth` bytes has no text (`Confusion.render_eq_error`).
-/

namespace PursuitForest

/-- A text has no more characters than bytes. -/
theorem length_le_utf8ByteSize (s : String) : s.length ≤ s.utf8ByteSize := by
  have hchars : ∀ cs : List Char, cs.length ≤ (String.ofList cs).utf8ByteSize := fun cs => by
    rw [String.utf8ByteSize_ofList]
    induction cs with
    | nil => exact Nat.zero_le _
    | cons c cs ih =>
      have hpos := c.utf8Size_pos
      rw [String.utf8Len_cons, List.length_cons]
      omega
  have h := hchars s.toList
  rwa [String.length_toList, String.ofList_toList] at h

/-- Blocks of one length are left out one by one. -/
theorem drop_flatMap {α β : Type} {f : α → List β} {n : Nat} : ∀ {xs : List α} (j : Nat),
    (∀ x ∈ xs, (f x).length = n) → (xs.flatMap f).drop (n * j) = (xs.drop j).flatMap f
  | xs, 0, _ => by rw [Nat.mul_zero, List.drop_zero, List.drop_zero]
  | [], j + 1, _ => by simp
  | x :: xs, j + 1, h => by
      obtain ⟨hx, hxs⟩ := List.forall_mem_cons.1 h
      rw [List.flatMap_cons, Nat.mul_succ, Nat.add_comm, ← List.drop_drop, ← hx, List.drop_left, hx,
        drop_flatMap j hxs, List.drop_succ_cons]

/-! ### Texts in quotes -/

namespace Quoted

theorem lineFeed_notMem_hexDigits (n : Nat) : '\n' ∉ Nat.toDigits 16 n := by
  have hdigit : ∀ d < 16, '\n' ∉ [Nat.digitChar d] := by decide
  induction n using Nat.strongRecOn with
  | ind n ih =>
    rw [Nat.toDigits_eq_if (by decide)]
    split
    · next h => exact hdigit n h
    · next h =>
      rw [List.mem_append, not_or]
      exact ⟨ih _ (Nat.div_lt_self (by omega) (by decide)), hdigit _ (Nat.mod_lt _ (by decide))⟩

theorem lineFeed_notMem_escape (c : Char) : '\n' ∉ escape c := by
  unfold escape
  split
  all_goals try decide
  next hfeed _ _ _ =>
    split
    · rw [List.mem_append, List.mem_append, not_or, not_or]
      exact ⟨⟨by decide, lineFeed_notMem_hexDigits _⟩, by decide⟩
    · exact fun h => hfeed (List.mem_singleton.1 h).symm

theorem length_escape_pos (c : Char) : 0 < (escape c).length := by
  unfold escape
  split
  all_goals try decide
  split
  · rw [List.length_append]
    exact Nat.lt_of_lt_of_le (by decide) (Nat.le_add_left _ _)
  · exact Nat.one_pos

/-- A text in quotes is on one line. -/
theorem lineFeed_notMem_encode (s : String) : '\n' ∉ (encode s).toList := by
  rw [encode, String.toList_ofList, List.mem_append, List.mem_cons, not_or, not_or]
  refine ⟨⟨by decide, fun h => ?_⟩, by decide⟩
  obtain ⟨c, -, hc⟩ := List.mem_flatMap.1 h
  exact lineFeed_notMem_escape c hc

/-- Quotes are added, and no character is lost. -/
theorem length_add_two_le_encode (s : String) : s.length + 2 ≤ (encode s).length := by
  have hchars : s.toList.length ≤ (s.toList.flatMap escape).length := by
    have hsum := List.length_le_sum_of_one_le (s.toList.map fun c => (escape c).length) fun n hn => by
      obtain ⟨c, -, rfl⟩ := List.mem_map.1 hn
      exact length_escape_pos c
    rwa [List.length_map, ← List.length_flatMap] at hsum
  rw [encode, String.length_ofList, List.length_append, List.length_cons, List.length_singleton,
    ← String.length_toList]
  omega

end Quoted

namespace Confusion

/-! ### Lines -/

/-- A text at the right end of `width` characters. -/
def atRight (width : Nat) (s : String) : List Char :=
  List.replicate (width - s.length) ' ' ++ s.toList

theorem toList_padLeft (width : Nat) (s : String) : (padLeft width s).toList = atRight width s := by
  rw [padLeft, String.toList_append, String.toList_ofList, atRight]

theorem length_atRight {width : Nat} {s : String} (h : s.length ≤ width) :
    (atRight width s).length = width := by
  rw [atRight, List.length_append, List.length_replicate, String.length_toList]
  omega

/-- The head of a line stands before a bar, and each cell ends `width + 1` characters after the one before
it. -/
structure LaidOut (width : Nat) (head : String) (cells : List String) (l : List Char) : Prop where
  length_eq : l.length = (width + 1) * (cells.length + 1) + 1
  head_eq : l.take (width + 2) = atRight width head ++ [' ', '|']
  cell_eq : ∀ (j : Nat) (h : j < cells.length),
    (l.drop ((width + 1) * (j + 1) + 1)).take (width + 1) = ' ' :: atRight width cells[j]

theorem toList_line (width : Nat) (head : String) (cells : List String) :
    (line width head cells).toList =
      (atRight width head ++ [' ', '|']) ++ cells.flatMap fun c => ' ' :: atRight width c := by
  have hcell : ∀ c : String, (" " ++ padLeft width c).toList = ' ' :: atRight width c := fun c => by
    rw [String.toList_append, toList_padLeft]
    rfl
  rw [line, String.toList_append, String.toList_append, toList_padLeft, String.toList_join,
    List.flatMap_map]
  simp only [hcell]
  rfl

/-- Texts that are short enough fill a line evenly. -/
theorem laidOut_line {width : Nat} {head : String} {cells : List String} (hhead : head.length ≤ width)
    (hcells : ∀ c ∈ cells, c.length ≤ width) :
    LaidOut width head cells (line width head cells).toList := by
  have hfront : (atRight width head ++ [' ', '|']).length = width + 2 := by
    rw [List.length_append, length_atRight hhead]
    rfl
  have hblock : ∀ c ∈ cells, (' ' :: atRight width c).length = width + 1 := fun c hc => by
    rw [List.length_cons, length_atRight (hcells c hc)]
  rw [toList_line]
  refine ⟨?_, List.take_left' hfront, fun j hj => ?_⟩
  · have hsum : (cells.map fun c => (' ' :: atRight width c).length).sum = cells.length * (width + 1) := by
      rw [List.map_congr_left hblock]
      simp
    rw [List.length_append, hfront, List.length_flatMap, hsum]
    ring
  · have hplace : (width + 1) * (j + 1) + 1 = (width + 2) + (width + 1) * j := by ring
    rw [hplace, ← List.drop_drop, List.drop_left' hfront, drop_flatMap j hblock,
      List.drop_eq_getElem_cons hj, List.flatMap_cons]
    exact List.take_left' (hblock _ (List.getElem_mem hj))

/-! ### Cells -/

variable {F L : Type} [Label L] [ShownLabel L] {m : Confusion L}

theorem le_foldl_max {n : Nat} : ∀ {ns : List Nat} {start : Nat}, n ∈ start :: ns →
    n ≤ ns.foldl max start
  | [], start, h => Nat.le_of_eq (List.mem_singleton.1 h)
  | k :: ns, start, h => by
      rw [List.foldl_cons]
      rcases List.mem_cons.1 h with rfl | h
      · exact Nat.le_trans (Nat.le_max_left n k) (le_foldl_max List.mem_cons_self)
      · rcases List.mem_cons.1 h with rfl | h
        · exact Nat.le_trans (Nat.le_max_right start n) (le_foldl_max List.mem_cons_self)
        · exact le_foldl_max (List.mem_cons_of_mem _ h)

theorem le_cellWidth {n : Nat} (h : n ∈ m.shownLabels.map String.utf8ByteSize ++
    m.counts.flatten.map fun n => (toString n).length) : n ≤ m.cellWidth := by
  obtain ⟨w, ws, hwidths⟩ := List.exists_cons_of_ne_nil (List.ne_nil_of_mem h)
  have hwidth : m.cellWidth = ws.foldl max w := by
    rw [cellWidth]
    simp only [hwidths]
  rw [hwidth]
  exact le_foldl_max (hwidths ▸ h)

theorem utf8ByteSize_le_cellWidth {label : String} (h : label ∈ m.shownLabels) :
    label.utf8ByteSize ≤ m.cellWidth :=
  le_cellWidth (List.mem_append_left _ (List.mem_map_of_mem h))

theorem length_label_le {label : String} (h : label ∈ m.shownLabels) : label.length ≤ m.cellWidth :=
  Nat.le_trans (length_le_utf8ByteSize label) (utf8ByteSize_le_cellWidth h)

theorem length_count_le {row : List Nat} (hrow : row ∈ m.counts) {n : Nat} (hn : n ∈ row) :
    (toString n).length ≤ m.cellWidth :=
  le_cellWidth (List.mem_append_right _ (List.mem_map_of_mem (f := fun n => (toString n).length)
    (List.mem_flatten_of_mem hrow hn)))

/-! ### Line feeds -/

theorem lineFeed_notMem_atRight {width : Nat} {s : String} (h : '\n' ∉ s.toList) :
    '\n' ∉ atRight width s := by
  rw [atRight, List.mem_append, not_or]
  exact ⟨fun hmem => absurd (List.eq_of_mem_replicate hmem) (by decide), h⟩

theorem lineFeed_notMem_line {width : Nat} {head : String} {cells : List String}
    (hhead : '\n' ∉ head.toList) (hcells : ∀ c ∈ cells, '\n' ∉ c.toList) :
    '\n' ∉ (line width head cells).toList := by
  rw [toList_line, List.mem_append, List.mem_append, not_or, not_or]
  refine ⟨⟨lineFeed_notMem_atRight hhead, by decide⟩, fun hmem => ?_⟩
  obtain ⟨c, hc, hmem⟩ := List.mem_flatMap.1 hmem
  rcases List.mem_cons.1 hmem with h | h
  · exact absurd h (by decide)
  · exact lineFeed_notMem_atRight (hcells c hc) h

theorem lineFeed_notMem_count (n : Nat) : '\n' ∉ (toString n).toList := by
  rw [Nat.toString_eq_ofList_toDigits, String.toList_ofList]
  intro h
  exact absurd (Nat.isDigit_of_mem_toDigits (by decide) (by decide) h) (by decide)

/-- Lines that are ended by line feeds are told apart by them. -/
theorem splitOn_lines : ∀ {ls : List (List Char)}, (∀ l ∈ ls, '\n' ∉ l) →
    (ls.flatMap (· ++ ['\n'])).splitOn '\n' = ls ++ [[]]
  | [], _ => rfl
  | l :: ls, h => by
      obtain ⟨hl, hls⟩ := List.forall_mem_cons.1 h
      rw [List.flatMap_cons, List.append_assoc, List.singleton_append,
        List.splitOn_append_cons_self_of_not_mem hl, splitOn_lines hls]
      rfl

/-! ### The whole text -/

/-- A text of a line of labels, a rule, and a line for every class with its counts. Each is ended by a line
feed, all are of one length, and what stands in one column of the matrix ends in one column of the text. -/
structure Aligned (m : Confusion L) (text : String) (header rule : List Char)
    (rows : List (List Char)) : Prop where
  splitOn_eq : text.toList.splitOn '\n' = header :: rule :: rows ++ [[]]
  length_rows : rows.length = m.labels.size
  length_eq : ∀ l ∈ header :: rule :: rows,
    l.length = (m.cellWidth + 1) * (m.labels.size + 1) + 1
  laidOut_header : LaidOut m.cellWidth "" m.shownLabels header
  rule_eq : ∀ c ∈ rule, c = '-'
  laidOut_rows : List.Forall₂ (fun (p : String × List Nat) l =>
    LaidOut m.cellWidth p.1 (p.2.map toString) l) (m.shownLabels.zip m.counts) rows

theorem length_shownLabels (m : Confusion L) : m.shownLabels.length = m.labels.size :=
  List.length_map _

theorem render_eq_error (h : maxCellWidth < m.cellWidth) :
    m.render = .error (.misuse .cellTooWide : Error F L) :=
  if_pos h

/-- The line of a class with its counts. -/
def countLine (m : Confusion L) (p : String × List Nat) : List Char :=
  (line m.cellWidth p.1 (p.2.map toString)).toList

theorem toList_lines (m : Confusion L) : m.lines.map String.toList =
    (line m.cellWidth "" m.shownLabels).toList ::
      List.replicate ((m.cellWidth + 1) * (m.shownLabels.length + 1) + 1) '-' ::
        (m.shownLabels.zip m.counts).map m.countLine := by
  rw [lines, List.map_cons, List.map_cons, String.toList_ofList, List.map_zipWith,
    ← List.map_uncurry_zip_eq_zipWith]
  rfl

theorem toList_join_lines (m : Confusion L) : (String.join (m.lines.map (· ++ "\n"))).toList =
    (m.lines.map String.toList).flatMap (· ++ ['\n']) := by
  rw [String.toList_join, List.flatMap_map, List.flatMap_map]
  refine List.flatMap_congr fun l _ => ?_
  rw [String.toList_append]
  rfl

theorem laidOut_countLine (hsquare : Square m.labels.size m.counts) {p : String × List Nat}
    (hp : p ∈ m.shownLabels.zip m.counts) :
    LaidOut m.cellWidth p.1 (p.2.map toString) (m.countLine p) ∧ p.2.length = m.labels.size := by
  obtain ⟨hlabel, hrow⟩ := List.of_mem_zip hp
  refine ⟨laidOut_line (length_label_le hlabel) fun c hc => ?_, hsquare.length_row _ hrow⟩
  obtain ⟨n, hn, rfl⟩ := List.mem_map.1 hc
  exact length_count_le hrow hn

theorem lineFeed_notMem_lines (hshown : ∀ label ∈ m.labels, '\n' ∉ (ShownLabel.shown label).toList) :
    ∀ l ∈ m.lines.map String.toList, '\n' ∉ l := by
  have hlabels : ∀ label ∈ m.shownLabels, '\n' ∉ label.toList := fun label hlabel => by
    obtain ⟨x, hx, rfl⟩ := List.mem_map.1 hlabel
    exact hshown x hx
  intro l hl
  rw [toList_lines, List.mem_cons, List.mem_cons] at hl
  rcases hl with rfl | rfl | hl
  · exact lineFeed_notMem_line (by decide) hlabels
  · exact fun hmem => absurd (List.eq_of_mem_replicate hmem) (by decide)
  · obtain ⟨p, hp, rfl⟩ := List.mem_map.1 hl
    refine lineFeed_notMem_line (hlabels _ (List.of_mem_zip hp).1) fun c hc => ?_
    obtain ⟨n, -, rfl⟩ := List.mem_map.1 hc
    exact lineFeed_notMem_count n

/-- A square matrix of labels that are shown on one line has an aligned text, if it has a text. -/
theorem exists_aligned (hsquare : Square m.labels.size m.counts)
    (hshown : ∀ label ∈ m.labels, '\n' ∉ (ShownLabel.shown label).toList)
    (h : m.cellWidth ≤ maxCellWidth) : ∃ text header rule rows,
      (m.render : Except (Error F L) String) = .ok text ∧ m.Aligned text header rule rows := by
  have hheader : LaidOut m.cellWidth "" m.shownLabels (line m.cellWidth "" m.shownLabels).toList :=
    laidOut_line (Nat.zero_le _) fun c hc => length_label_le hc
  refine ⟨String.join (m.lines.map (· ++ "\n")), (line m.cellWidth "" m.shownLabels).toList,
    List.replicate ((m.cellWidth + 1) * (m.shownLabels.length + 1) + 1) '-',
    (m.shownLabels.zip m.counts).map m.countLine, if_neg (Nat.not_lt.2 h), ?_, ?_, fun l hl => ?_, hheader,
    fun c hc => List.eq_of_mem_replicate hc, ?_⟩
  · rw [toList_join_lines, splitOn_lines (lineFeed_notMem_lines hshown), toList_lines]
  · rw [List.length_map, List.length_zip, length_shownLabels, hsquare.length_eq, Nat.min_self]
  · rw [List.mem_cons, List.mem_cons] at hl
    rcases hl with rfl | rfl | hl
    · rw [hheader.length_eq, length_shownLabels]
    · rw [List.length_replicate, length_shownLabels]
    · obtain ⟨p, hp, rfl⟩ := List.mem_map.1 hl
      obtain ⟨hrow, hlength⟩ := laidOut_countLine hsquare hp
      rw [hrow.length_eq, List.length_map, hlength]
  · exact List.forall₂_map_right_iff.2 (List.forall₂_same.2 fun p hp => (laidOut_countLine hsquare hp).1)

omit [ShownLabel L] in
theorem Tallies.square {predicted actual : List L} (h : m.Tallies predicted actual) :
    Square m.labels.size m.counts := by
  refine ⟨?_, fun row hrow => ?_⟩
  · rw [h.counts_eq, table, List.length_map]
    rfl
  · rw [h.counts_eq] at hrow
    obtain ⟨a, -, rfl⟩ := List.mem_map.1 hrow
    exact List.length_map _

/-- What is tallied has an aligned text, unless a cell is too wide. -/
theorem tally_aligned {predicted actual : List L}
    (hm : (tally predicted actual : Except (Error F L) (Confusion L)) = .ok m)
    (hshown : ∀ label ∈ m.labels, '\n' ∉ (ShownLabel.shown label).toList) :
    (m.cellWidth ≤ maxCellWidth → ∃ text header rule rows,
      (m.render : Except (Error F L) String) = .ok text ∧ m.Aligned text header rule rows) ∧
    (maxCellWidth < m.cellWidth → m.render = .error (.misuse .cellTooWide : Error F L)) := by
  refine ⟨exists_aligned ?_ hshown, render_eq_error⟩
  have hlength : predicted.length = actual.length := by
    by_contra hne
    rw [tally, if_pos hne] at hm
    cases hm
  obtain ⟨m', hm', htallies, -⟩ := exists_tallies (F := F) hlength
  cases hm.symm.trans hm'
  exact htallies.square

/-- One label with a line feed, and one beyond the first bytes. -/
theorem tally_aligned_escaped : ∃ m text header rule rows,
    (tally ["a\nb", "é"] ["é", "é"] : Except (Error Rat String) (Confusion String)) = .ok m ∧
    m.cellWidth = 6 ∧ (m.render : Except (Error Rat String) String) = .ok text ∧
    m.Aligned text header rule rows := by
  obtain ⟨m, hm, hwidth⟩ : ∃ m, (tally ["a\nb", "é"] ["é", "é"] :
      Except (Error Rat String) (Confusion String)) = .ok m ∧ m.cellWidth = 6 :=
    ⟨_, rfl, by decide +kernel⟩
  obtain ⟨text, header, rule, rows, htext, haligned⟩ :=
    (tally_aligned hm fun label _ => Quoted.lineFeed_notMem_encode label).1 (hwidth ▸ by decide)
  exact ⟨m, text, header, rule, rows, hm, hwidth, htext, haligned⟩

/-- A label that is longer than any cell. -/
def longLabel : String := String.ofList (List.replicate 65534 'a')

/-- A matrix of one count has no text if the label is too long. -/
theorem tally_longLabel : ∃ m,
    (tally [longLabel] [longLabel] : Except (Error Rat String) (Confusion String)) = .ok m ∧
    m.labels.toList = [longLabel] ∧
    (∀ label ∈ m.labels, '\n' ∉ (ShownLabel.shown label).toList) ∧
    m.render = .error (.misuse .cellTooWide : Error Rat String) := by
  obtain ⟨m, hm, htallies, -⟩ :=
    exists_tallies (F := Rat) (show [longLabel].length = [longLabel].length from rfl)
  have hlabels : m.labels = LabelSet.singleton longLabel := LabelSet.ext_mem fun label => by
    rw [htallies.mem_labels, LabelSet.mem_singleton, List.mem_singleton, or_self]
  have hshown : Quoted.encode longLabel ∈ m.shownLabels := by
    rw [shownLabels, hlabels]
    exact List.mem_singleton_self _
  have hlength : longLabel.length = 65534 := String.length_ofList.trans List.length_replicate
  have hwide : maxCellWidth < m.cellWidth := calc
    maxCellWidth < longLabel.length + 2 := by rw [hlength, maxCellWidth]; decide
    _ ≤ (Quoted.encode longLabel).length := Quoted.length_add_two_le_encode longLabel
    _ ≤ m.cellWidth := length_label_le hshown
  exact ⟨m, hm, congrArg LabelSet.toList hlabels, fun label _ => Quoted.lineFeed_notMem_encode label,
    render_eq_error hwide⟩

end Confusion
end PursuitForest
