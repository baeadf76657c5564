import CircuitPicture.Proofs.GridReading

/-! # Writing a grid as text

A grid of characters can be written as text in many ways, with line endings of two kinds and with
empty lines between its rows (`Written`). Reading any of these texts gives the characters back. -/

namespace CircuitPicture

/-- A rectangle of characters that is not empty and has no line feed in it. -/
structure CharGrid where
  rows : List (List Char)
  width : Nat
  rows_ne_nil : rows ≠ []
  width_pos : 0 < width
  length_row : ∀ row ∈ rows, row.length = width
  newline_notMem : ∀ row ∈ rows, '\n' ∉ row

inductive LineEnding where
  | feed
  | returnFeed
deriving DecidableEq, Repr

namespace LineEnding

def chars : LineEnding → List Char
  | feed => ['\n']
  | returnFeed => ['\r', '\n']

/-- What stands in front of the line feed. -/
def beforeFeed : LineEnding → List Char
  | feed => []
  | returnFeed => ['\r']

theorem chars_eq (e : LineEnding) : e.chars = e.beforeFeed ++ ['\n'] := by
  cases e <;> rfl

end LineEnding

/-- The texts in which rows can be written. Each line has an ending of its own, and empty lines
stand anywhere. A carriage return at the end of a row needs another one behind it; the last row may
go without an ending. -/
inductive Written : List (List Char) → List Char → Prop
  | nothing : Written [] []
  | blank (e : LineEnding) {rows : List (List Char)} {text : List Char}
    (rest : Written rows text) : Written rows (e.chars ++ text)
  | row (e : LineEnding) {row : List Char} {rows : List (List Char)} {text : List Char}
    (hreturn : row.getLast? = some '\r' → e = .returnFeed) (rest : Written rows text) :
    Written (row :: rows) (row ++ e.chars ++ text)
  | unended {row : List Char} (hreturn : row.getLast? ≠ some '\r') : Written [row] row

/-- With a carriage return in front of every line feed, rows of any kind can be written. -/
theorem written_returnFeed (rows : List (List Char)) :
    Written rows (rows.flatMap fun row => row ++ ['\r', '\n']) := by
  induction rows with
  | nil => exact .nothing
  | cons row rows ih => exact .row .returnFeed (fun _ => rfl) ih

namespace Line

@[simp] theorem dropReturn_concat (text : List Char) : dropReturn (text ++ ['\r']) = text := by
  rw [dropReturn, if_pos List.getLast?_concat, List.dropLast_concat]

theorem dropReturn_of_getLast?_ne {text : List Char} (h : text.getLast? ≠ some '\r') :
    dropReturn text = text := if_neg h

end Line

namespace Grid
open Line

/-- The qubit lines of a text that is given by its characters. -/
def keptLines (text : List Char) : List (List Char) :=
  ((text.splitOn '\n').map dropReturn).filter fun line => !line.isEmpty

theorem keptLines_append {piece : List Char} (h : '\n' ∉ piece) (text : List Char) :
    keptLines (piece ++ '\n' :: text) =
      [dropReturn piece].filter (fun line => !line.isEmpty) ++ keptLines text := by
  rw [keptLines, List.splitOn_append_cons_self_of_not_mem h, List.map_cons,
    ← List.singleton_append, List.filter_append]
  rfl

theorem keptLines_singleton {piece : List Char} (h : '\n' ∉ piece) :
    keptLines piece = [dropReturn piece].filter (fun line => !line.isEmpty) := by
  rw [keptLines, List.splitOn_eq_singleton h, List.map_singleton]

/-- Reading lines undoes writing them, however they are written. -/
theorem keptLines_of_written {rows : List (List Char)} {text : List Char}
    (h : Written rows text) (hrows : ∀ row ∈ rows, row ≠ [] ∧ '\n' ∉ row) :
    keptLines text = rows := by
  induction h with
  | nothing => rfl
  | @blank e rows text rest ih =>
    have hpiece : '\n' ∉ e.beforeFeed := by cases e <;> decide
    have hdropped : dropReturn e.beforeFeed = [] := by cases e <;> rfl
    rw [e.chars_eq, List.append_assoc, List.singleton_append, keptLines_append hpiece, hdropped,
      ih hrows]
    rfl
  | @row e row rows text hreturn rest ih =>
    obtain ⟨hne, hfeed⟩ := hrows row (by simp)
    have hpiece : '\n' ∉ row ++ e.beforeFeed := by cases e <;> simp [hfeed, LineEnding.beforeFeed]
    have hdropped : dropReturn (row ++ e.beforeFeed) = row := by
      cases e with
      | feed =>
        rw [LineEnding.beforeFeed, List.append_nil]
        exact dropReturn_of_getLast?_ne fun h => nomatch hreturn h
      | returnFeed => exact dropReturn_concat row
    have htext : row ++ e.chars ++ text = (row ++ e.beforeFeed) ++ '\n' :: text := by
      rw [e.chars_eq]
      simp
    rw [htext, keptLines_append hpiece, hdropped, ih fun r hr => hrows r (by simp [hr])]
    simp [hne]
  | @unended row hreturn =>
    obtain ⟨hne, hfeed⟩ := hrows row (by simp)
    rw [keptLines_singleton hfeed, dropReturn_of_getLast?_ne hreturn]
    simp [hne]

theorem newline_notMem_of_mem_qubitLines {source : String} {line : List Char}
    (h : line ∈ qubitLines source) : '\n' ∉ line := by
  obtain ⟨piece, hpiece, rfl⟩ := List.mem_map.1 (List.mem_filter.1 h).1
  exact newline_notMem_dropReturn hpiece

theorem rows_of_parse {source : String} {g : Grid} (h : parse source = .ok g) :
    g.rows = (qubitLines source).map (List.map Symbol.ofChar) := by
  rcases parse_cases source with ⟨-, hparse⟩ | ⟨-, -, g', hparse, hrows⟩ | ⟨-, -, _, _, _, hparse⟩
  · cases hparse.symm.trans h
  · cases hparse.symm.trans h
    exact hrows
  · cases hparse.symm.trans h

end Grid

namespace CharGrid

/-- The grid of the symbols that the characters stand for. -/
def grid (t : CharGrid) : Grid where
  rows := t.rows.map (List.map Symbol.ofChar)
  columnCount := t.width
  rows_ne_nil := by simpa using t.rows_ne_nil
  columnCount_pos := t.width_pos
  length_row := by simpa using t.length_row

theorem row_ne_nil (t : CharGrid) {row : List Char} (h : row ∈ t.rows) : row ≠ [] :=
  List.length_pos_iff.1 (by rw [t.length_row row h]; exact t.width_pos)

theorem parse_of_written (t : CharGrid) {source : String} (h : Written t.rows source.toList) :
    Grid.parse source = .ok t.grid := by
  have hlines : Grid.qubitLines source = t.rows :=
    Grid.keptLines_of_written h fun row hrow => ⟨t.row_ne_nil hrow, t.newline_notMem row hrow⟩
  rcases Grid.parse_cases source with ⟨hnil, -⟩ | ⟨-, -, g, hparse, hrows⟩ | ⟨-, hsame, -⟩
  · exact absurd (hlines.symm.trans hnil) t.rows_ne_nil
  · have hgrid : g = t.grid := Grid.ext_rows (by rw [hrows, hlines]; rfl)
    rw [hparse, hgrid]
  · exact absurd ⟨t.width, hlines ▸ t.length_row⟩ hsame

/-- The characters of a grid that was read. -/
theorem exists_of_parse {source : String} {g : Grid} (h : Grid.parse source = .ok g) :
    ∃ t : CharGrid, t.rows = g.rows.map (List.map Symbol.toChar) ∧ t.grid = g := by
  have hrows := Grid.rows_of_parse h
  have hchars : g.rows.map (List.map Symbol.toChar) = Grid.qubitLines source := by
    simp [hrows, Function.comp_def]
  let t : CharGrid := {
    rows := g.rows.map (List.map Symbol.toChar)
    width := g.columnCount
    rows_ne_nil := by simpa using g.rows_ne_nil
    width_pos := g.columnCount_pos
    length_row := by simpa using g.length_row
    newline_notMem := fun row hrow => Grid.newline_notMem_of_mem_qubitLines (hchars ▸ hrow) }
  have hgrid : t.rows.map (List.map Symbol.ofChar) = g.rows := by rw [hrows, ← hchars]
  exact ⟨t, rfl, Grid.ext_rows hgrid⟩

end CharGrid

/-- A grid of characters is read from every text in which it is written. Each cell has the symbol of
its character, and the symbols written back are the characters. A grid that was read is read again
from its own rows, each with a carriage return and a line feed behind it. -/
theorem parse_written (t : CharGrid) :
    (∃ g : Grid, g.rows = t.rows.map (List.map Symbol.ofChar) ∧
      g.rows.map (List.map Symbol.toChar) = t.rows ∧
      ∀ source : String, Written t.rows source.toList → Grid.parse source = .ok g) ∧
    ∀ source g, Grid.parse source = .ok g →
      Grid.parse (String.join (g.lines.map fun line => line ++ "\r\n")) = .ok g := by
  refine ⟨⟨t.grid, rfl, ?_, fun source h => t.parse_of_written h⟩, fun source g h => ?_⟩
  · simp [CharGrid.grid, Function.comp_def]
  · obtain ⟨u, hrows, rfl⟩ := CharGrid.exists_of_parse h
    refine u.parse_of_written ?_
    have htext : (String.join (u.grid.lines.map fun line => line ++ "\r\n")).toList =
        u.rows.flatMap fun row => row ++ ['\r', '\n'] := by
      simp [String.toList_join, Grid.lines, hrows, List.flatMap_map]
    rw [htext]
    exact written_returnFeed u.rows

/-- Two rows, one of which ends in a carriage return, with an empty line in front and one between
them, and without an ending behind the last. -/
theorem parse_written_mixed :
    let t : CharGrid := ⟨[['H', '\r'], ['é', 'Z']], 2, by decide, by decide, by decide, by decide⟩
    let text := ['\n', 'H', '\r', '\r', '\n', '\r', '\n', 'é', 'Z']
    Written t.rows text ∧ ∃ g, g.rows = [[.hadamard, .unknown '\r'], [.unknown 'é', .pauliZ]] ∧
      Grid.parse (String.ofList text) = .ok g := by
  intro t text
  have htext : Written t.rows text :=
    .blank .feed (.row .returnFeed (fun _ => rfl) (.blank .returnFeed (.unended (by decide))))
  obtain ⟨⟨g, hrows, -, hparse⟩, -⟩ := parse_written t
  exact ⟨htext, g, hrows, hparse _ (by rwa [String.toList_ofList])⟩

end CircuitPicture
