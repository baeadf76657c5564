import CircuitPicture.Symbol

/-! # Grids of symbols

A circuit is a rectangle of symbols: one row per qubit, qubit 0 on top, and one column per time
step. `Grid.ofRows` accepts exactly the rectangles that are not empty; `Grid.steps` reads the same
cells column by column. -/

namespace CircuitPicture

/-- A rectangle of symbols with at least one row and one column. -/
structure Grid where
  rows : List (List Symbol)
  columnCount : Nat
  rows_ne_nil : rows ≠ []
  columnCount_pos : 0 < columnCount
  length_row : ∀ row ∈ rows, row.length = columnCount
deriving DecidableEq

inductive ShapeError where
  /-- There is no row, or the first row is empty. -/
  | empty
  /-- A row differs in length from the first one. -/
  | irregular (row found expected : Nat)
deriving DecidableEq, Repr

namespace ShapeError

def message : ShapeError → String
  | empty => "a grid needs at least one row and one column"
  | irregular row found expected =>
    "row " ++ toString row ++ " has " ++ toString found ++ " symbols, expected " ++
      toString expected

end ShapeError

/-- The columns of a table whose rows have `width` entries each. -/
def columns {α : Type} (width : Nat) (rows : List (List α)) : List (List α) :=
  rows.foldr (List.zipWith fun cell column => cell :: column) (List.replicate width [])

@[simp] theorem columns_nil {α : Type} (width : Nat) :
    columns width ([] : List (List α)) = List.replicate width [] := rfl

@[simp] theorem columns_cons {α : Type} (width : Nat) (row : List α) (rows : List (List α)) :
    columns width (row :: rows) =
      List.zipWith (fun cell column => cell :: column) row (columns width rows) := rfl

theorem length_columns {α : Type} {width : Nat} {rows : List (List α)}
    (h : ∀ row ∈ rows, row.length = width) : (columns width rows).length = width := by
  induction rows with
  | nil => simp
  | cons row rows ih =>
    simp [ih fun r hr => h r (by simp [hr]), h row (by simp)]

namespace Grid

def rowCount (g : Grid) : Nat := g.rows.length

/-- The grid with the given rows, or the first reason why there is none. -/
def ofRows : List (List Symbol) → Except ShapeError Grid
  | [] => .error .empty
  | [] :: _ => .error .empty
  | (cell :: cells) :: rest =>
    let rows := (cell :: cells) :: rest
    let width := cells.length + 1
    match h : rows.zipIdx.find? fun row => row.1.length != width with
    | some (row, index) => .error (.irregular index row.length width)
    | none => .ok {
        rows := rows
        columnCount := width
        rows_ne_nil := List.cons_ne_nil _ _
        columnCount_pos := Nat.succ_pos _
        length_row := fun row hrow => by
          obtain ⟨i, hi, rfl⟩ := List.getElem_of_mem hrow
          have hmem : (rows[i], i) ∈ rows.zipIdx := by
            simp [List.mem_zipIdx_iff_getElem?, hi]
          simpa using List.find?_eq_none.1 h _ hmem }

def symbol? (g : Grid) (qubit step : Nat) : Option Symbol :=
  g.rows[qubit]?.bind fun row => row[step]?

def symbols (g : Grid) : List Symbol := g.rows.flatten

/-- The time steps in order, each from the top qubit to the bottom one. -/
def steps (g : Grid) : List (List Symbol) := columns g.columnCount g.rows

def lines (g : Grid) : List String := g.rows.map fun row => String.ofList (row.map Symbol.toChar)

def unknownCount (g : Grid) : Nat := g.symbols.countP fun s => !s.isKnown

theorem rowCount_pos (g : Grid) : 0 < g.rowCount :=
  List.length_pos_iff.2 g.rows_ne_nil

theorem ext_rows {g h : Grid} (hrows : g.rows = h.rows) : g = h := by
  obtain ⟨rows, n, hne, hpos, hlen⟩ := g
  obtain ⟨rows', n', hne', hpos', hlen'⟩ := h
  cases hrows
  obtain ⟨row, hrow⟩ := List.exists_mem_of_ne_nil rows hne
  cases (hlen row hrow).symm.trans (hlen' row hrow)
  rfl

theorem ofRows_rows (g : Grid) : ofRows g.rows = .ok g := by
  obtain ⟨rows, n, hne, hpos, hlen⟩ := g
  rcases rows with _ | ⟨_ | ⟨cell, cells⟩, rest⟩
  · exact absurd rfl hne
  · have := hlen [] (by simp)
    simp at this
    omega
  · have hn : cells.length + 1 = n := hlen (cell :: cells) (by simp)
    subst hn
    simp only [ofRows]
    split
    · rename_i row index h
      have hmem := List.mem_of_find?_eq_some h
      have hbad := List.find?_some h
      have := hlen row (List.fst_mem_of_mem_zipIdx hmem)
      simp [this] at hbad
    · rfl

theorem rows_of_ofRows {rows : List (List Symbol)} {g : Grid} (h : ofRows rows = .ok g) :
    g.rows = rows := by
  rcases rows with _ | ⟨_ | ⟨cell, cells⟩, rest⟩
  · cases h
  · cases h
  · simp only [ofRows] at h
    split at h
    · cases h
    · cases h
      rfl

end Grid

end CircuitPicture
