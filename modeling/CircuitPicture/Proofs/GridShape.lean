import CircuitPicture.Proofs.LayoutCells

/-! # The shape of grids

Rows are no grid if there is nothing in the first row, or if a row has another length than the first
one (`FirstDeviation`). In a grid every cell has its place in the list of all symbols, and nothing
is looked up outside of it while the grid is drawn (`ofRows_outcome`). -/

namespace CircuitPicture

/-- The first entry that is picked, together with its index. -/
theorem find?_zipIdx_eq_some_iff {α : Type} {p : α → Bool} {xs : List α} {x : α} {i : Nat} :
    (xs.zipIdx.find? fun y => p y.1) = some (x, i) ↔
      xs[i]? = some x ∧ p x = true ∧ ∀ j < i, ∀ y, xs[j]? = some y → p y = false := by
  rw [List.find?_eq_some_iff_getElem]
  constructor
  · rintro ⟨hp, j, hj, heq, hbefore⟩
    simp only [List.getElem_zipIdx, Nat.zero_add, Prod.mk.injEq] at heq hbefore
    obtain ⟨rfl, rfl⟩ := heq
    rw [List.length_zipIdx] at hj
    refine ⟨List.getElem?_eq_getElem hj, hp, fun k hk y hy => ?_⟩
    obtain ⟨_, rfl⟩ := List.getElem?_eq_some_iff.1 hy
    simpa using hbefore k hk
  · rintro ⟨hx, hp, hbefore⟩
    obtain ⟨hi, rfl⟩ := List.getElem?_eq_some_iff.1 hx
    refine ⟨hp, i, by rwa [List.length_zipIdx], by simp, fun j hj => ?_⟩
    have hlt : j < xs.length := Nat.lt_trans hj hi
    simpa using hbefore j hj xs[j] (List.getElem?_eq_getElem hlt)

/-- In a table whose rows have one length, the index of a cell in the list of all cells. -/
theorem getElem?_flatten {α : Type} {width : Nat} {rows : List (List α)}
    (h : ∀ row ∈ rows, row.length = width) (i : Nat) {j : Nat} (hj : j < width) :
    rows.flatten[i * width + j]? = rows[i]?.bind fun row => row[j]? := by
  induction rows generalizing i with
  | nil => simp
  | cons row rows ih =>
    have hrow : row.length = width := h row (by simp)
    have hrest : ∀ r ∈ rows, r.length = width := fun r hr => h r (by simp [hr])
    rw [List.flatten_cons]
    cases i with
    | zero =>
      rw [List.getElem?_append_left (by omega), Nat.zero_mul, Nat.zero_add]
      rfl
    | succ i =>
      have hindex : (i + 1) * width + j = row.length + (i * width + j) := by
        rw [hrow, Nat.succ_mul]
        omega
      rw [hindex, List.getElem?_append_right (Nat.le_add_right _ _), Nat.add_sub_cancel_left,
        ih hrest i, List.getElem?_cons_succ]

theorem mapM_eq_some_map {α β : Type} {f : α → Option β} {g : α → β} {xs : List α}
    (h : ∀ x ∈ xs, f x = some (g x)) : xs.mapM f = some (xs.map g) := by
  induction xs with
  | nil => rfl
  | cons x xs ih =>
    rw [List.mapM_cons, h x (by simp), ih fun y hy => h y (by simp [hy])]
    rfl

namespace Grid

/-- The first row is not empty; as long as it are all rows before `row`, and `row` is not. -/
structure FirstDeviation (rows : List (List Symbol)) (row found expected : Nat) : Prop where
  first : rows.head?.map List.length = some expected
  expected_pos : 0 < expected
  length : rows[row]?.map List.length = some found
  ne : found ≠ expected
  before : ∀ i < row, rows[i]?.map List.length = some expected

theorem ofRows_eq_error_empty_iff {rows : List (List Symbol)} :
    ofRows rows = .error .empty ↔ rows = [] ∨ rows.head? = some [] := by
  rcases rows with _ | ⟨_ | ⟨cell, cells⟩, rest⟩
  · simp [ofRows]
  · simp [ofRows]
  · simp only [ofRows]
    split <;> simp

theorem ofRows_ne_empty {rows : List (List Symbol)} {first : List Symbol}
    (hfirst : rows.head? = some first) (hne : first ≠ []) : ofRows rows ≠ .error .empty := by
  rw [ne_eq, ofRows_eq_error_empty_iff]
  rintro (rfl | hempty)
  · cases hfirst
  · cases hfirst.symm.trans hempty
    exact hne rfl

theorem firstDeviation_iff {first : List Symbol} (rest : List (List Symbol)) (hne : first ≠ [])
    {row found expected : Nat} : FirstDeviation (first :: rest) row found expected ↔
      ∃ r, ((first :: rest).zipIdx.find? fun row => row.1.length != first.length) = some (r, row) ∧
        r.length = found ∧ expected = first.length := by
  simp only [find?_zipIdx_eq_some_iff (p := fun row : List Symbol => row.length != first.length)]
  constructor
  · rintro ⟨hfirst, -, hrow, hdiffers, hbefore⟩
    obtain rfl : first.length = expected := by simpa using hfirst
    obtain ⟨r, hr, rfl⟩ := Option.map_eq_some_iff.1 hrow
    refine ⟨r, ⟨hr, by simpa using hdiffers, fun i hi y hy => ?_⟩, rfl, rfl⟩
    simpa [hy] using hbefore i hi
  · rintro ⟨r, ⟨hr, hdiffers, hbefore⟩, rfl, rfl⟩
    have hlt : row < (first :: rest).length := (List.getElem?_eq_some_iff.1 hr).1
    refine ⟨rfl, List.length_pos_iff.2 hne, by rw [hr]; rfl, by simpa using hdiffers,
      fun i hi => ?_⟩
    have hi' : i < (first :: rest).length := Nat.lt_trans hi hlt
    have heq := hbefore i hi _ (List.getElem?_eq_getElem hi')
    rw [List.getElem?_eq_getElem hi', Option.map_some]
    simpa using heq

theorem ofRows_eq_error_irregular_iff {rows : List (List Symbol)} {row found expected : Nat} :
    ofRows rows = .error (.irregular row found expected) ↔
      FirstDeviation rows row found expected := by
  rcases rows with _ | ⟨_ | ⟨cell, cells⟩, rest⟩
  · constructor
    · intro h
      cases h
    · intro h
      have hfirst := h.first
      cases hfirst
  · constructor
    · intro h
      cases h
    · intro h
      have hpos := h.expected_pos
      have hfirst := h.first
      cases hfirst
      exact absurd hpos (Nat.lt_irrefl 0)
  · rw [firstDeviation_iff rest (List.cons_ne_nil cell cells)]
    simp only [ofRows, List.length_cons]
    split
    · rename_i r i hfind
      constructor
      · intro h
        cases h
        exact ⟨r, hfind, rfl, rfl⟩
      · rintro ⟨_, heq, rfl, rfl⟩
        cases hfind.symm.trans heq
        rfl
    · rename_i hfind
      constructor
      · intro h
        cases h
      · rintro ⟨_, heq, -⟩
        cases hfind.symm.trans heq

theorem exists_ok_iff {rows : List (List Symbol)} : (∃ g, ofRows rows = .ok g) ↔
    ∃ first, rows.head? = some first ∧ first ≠ [] ∧ ∀ row ∈ rows, row.length = first.length := by
  constructor
  · rintro ⟨g, hg⟩
    obtain rfl := rows_of_ofRows hg
    have hfirst : g.rows.head? = some (g.rows.head g.rows_ne_nil) :=
      List.head?_eq_some_head g.rows_ne_nil
    have hlength := g.length_row _ (List.mem_of_head? hfirst)
    refine ⟨_, hfirst, List.length_pos_iff.1 (hlength ▸ g.columnCount_pos), fun row hrow => ?_⟩
    rw [g.length_row row hrow, hlength]
  · rintro ⟨first, hfirst, hne, hlength⟩
    cases h : ofRows rows with
    | ok g => exact ⟨g, rfl⟩
    | error e =>
      cases e with
      | empty => exact absurd h (ofRows_ne_empty hfirst hne)
      | irregular row found expected =>
        obtain ⟨hhead, -, hrow, hdiffers, -⟩ := ofRows_eq_error_irregular_iff.1 h
        obtain ⟨r, hr, rfl⟩ := Option.map_eq_some_iff.1 hrow
        rw [hfirst] at hhead
        cases hhead
        exact absurd (hlength r (List.mem_of_getElem? hr)) hdiffers

/-- Rows fail for their lengths if and only if a row differs from a first row that is not empty. -/
theorem exists_irregular_iff {rows : List (List Symbol)} :
    (∃ row found expected, ofRows rows = .error (.irregular row found expected)) ↔
      ∃ first, rows.head? = some first ∧ first ≠ [] ∧ ∃ row ∈ rows, row.length ≠ first.length := by
  constructor
  · rintro ⟨row, found, expected, h⟩
    obtain ⟨hfirst, hpos, hrow, hne, -⟩ := ofRows_eq_error_irregular_iff.1 h
    obtain ⟨first, hhead, rfl⟩ := Option.map_eq_some_iff.1 hfirst
    obtain ⟨r, hr, rfl⟩ := Option.map_eq_some_iff.1 hrow
    exact ⟨first, hhead, List.length_pos_iff.1 hpos, r, List.mem_of_getElem? hr, hne⟩
  · rintro ⟨first, hfirst, hne, row, hrow, hdiffers⟩
    cases h : ofRows rows with
    | ok g =>
      obtain ⟨other, hother, -, hlength⟩ := exists_ok_iff.1 ⟨g, h⟩
      cases hfirst.symm.trans hother
      exact absurd (hlength row hrow) hdiffers
    | error e =>
      cases e with
      | irregular row found expected => exact ⟨row, found, expected, rfl⟩
      | empty => exact absurd h (ofRows_ne_empty hfirst hne)

/-- Each symbol has its place in the list of all symbols. -/
theorem getElem?_symbols (g : Grid) (qubit : Nat) {step : Nat} (hs : step < g.columnCount) :
    g.symbols[qubit * g.columnCount + step]? = g.symbol? qubit step :=
  getElem?_flatten g.length_row qubit hs

theorem isSome_symbol?_iff (g : Grid) (qubit step : Nat) :
    (g.symbol? qubit step).isSome = true ↔ qubit < g.rowCount ∧ step < g.columnCount := by
  rw [Option.isSome_iff_exists]
  constructor
  · rintro ⟨s, hs⟩
    obtain ⟨hq, hstep, -⟩ := symbol?_eq_some_iff.1 hs
    exact ⟨hq, hstep⟩
  · rintro ⟨hq, hstep⟩
    exact ⟨_, symbol?_eq_some_iff.2 ⟨hq, hstep, rfl⟩⟩

end Grid

namespace Layout
open Raster

variable {α : Type} [Scalar α]

/-- What a cell draws, with its symbol looked up in the grid; nothing comes of it outside of the
grid. -/
def block? (l : Layout) (step qubit : Nat) : Option (List (Placement α)) :=
  (l.grid.symbol? qubit step).map fun symbol =>
    cellPlacements l.vocabulary symbol ⟨columnX step, rowY l.grid.rowCount qubit⟩

/-- The placements of a layout, step by step and within a step qubit by qubit, if no symbol is
looked up outside of the grid. -/
def placements? (l : Layout) : Option (List (Placement α)) := do
  let steps ← (List.range l.grid.columnCount).mapM fun step =>
    (List.range l.grid.rowCount).mapM fun qubit => l.block? step qubit
  return leadIn l.grid.rowCount ++ steps.flatten.flatten

theorem block?_eq_some (l : Layout) {step qubit : Nat} (hs : step < l.grid.columnCount)
    (hq : qubit < l.grid.rowCount) :
    l.block? (α := α) step qubit = some (l.block (step, qubit)) := by
  have hsymbol : l.grid.symbol? qubit step = some (l.grid.symbolAt qubit step) :=
    Grid.symbol?_eq_some_iff.2 ⟨hq, hs, rfl⟩
  rw [block?, hsymbol]
  rfl

theorem placements?_eq_some (l : Layout) : l.placements? (α := α) = some l.placements := by
  have hblocks : ∀ step ∈ List.range l.grid.columnCount, ∀ qubit ∈ List.range l.grid.rowCount,
      l.block? (α := α) step qubit = some (l.block (step, qubit)) := by
    intro step hs qubit hq
    exact l.block?_eq_some (List.mem_range.1 hs) (List.mem_range.1 hq)
  rw [placements?, mapM_eq_some_map fun step hs => mapM_eq_some_map (hblocks step hs),
    placements_eq]
  simp [List.flatMap_def, List.flatten_flatten, Function.comp_def]

end Layout

/-- Rows are refused if and only if there is nothing in the first one or another one differs from it
in length, and the first such row is named. A grid has the rows that it was built of, and no symbol
outside of it is looked up while it is drawn. -/
theorem Grid.ofRows_outcome (rows : List (List Symbol)) :
    (ofRows rows = .error .empty ↔ rows = [] ∨ rows.head? = some []) ∧
    ((∃ row found expected, ofRows rows = .error (.irregular row found expected)) ↔
      ∃ first, rows.head? = some first ∧ first ≠ [] ∧ ∃ row ∈ rows, row.length ≠ first.length) ∧
    (∀ row found expected, ofRows rows = .error (.irregular row found expected) ↔
      FirstDeviation rows row found expected) ∧
    ((∃ g, ofRows rows = .ok g) ↔
      ∃ first, rows.head? = some first ∧ first ≠ [] ∧ ∀ row ∈ rows, row.length = first.length) ∧
    ∀ g, ofRows rows = .ok g →
      g.rows = rows ∧ g.rowCount = rows.length ∧ 1 ≤ g.rowCount ∧ 1 ≤ g.columnCount ∧
      (∀ row ∈ rows, row.length = g.columnCount) ∧
      g.symbols.length = g.rowCount * g.columnCount ∧
      (∀ qubit step symbol, g.symbol? qubit step = some symbol →
        g.symbols[qubit * g.columnCount + step]? = some symbol) ∧
      (∀ qubit step, (g.symbol? qubit step).isSome = true ↔
        qubit < g.rowCount ∧ step < g.columnCount) ∧
      ∀ (v : Vocabulary) (α : Type) [Scalar α],
        Layout.placements? (α := α) ⟨g, v⟩ = some (Layout.placements ⟨g, v⟩) := by
  refine ⟨ofRows_eq_error_empty_iff, exists_irregular_iff,
    fun _ _ _ => ofRows_eq_error_irregular_iff, exists_ok_iff, fun g hg => ?_⟩
  obtain rfl := rows_of_ofRows hg
  refine ⟨rfl, rfl, g.rowCount_pos, g.columnCount_pos, g.length_row, length_flatten g.length_row,
    fun qubit step symbol hsymbol => ?_, g.isSome_symbol?_iff,
    fun v α _ => Layout.placements?_eq_some ⟨g, v⟩⟩
  obtain ⟨-, hs, -⟩ := symbol?_eq_some_iff.1 hsymbol
  rw [g.getElem?_symbols qubit hs, hsymbol]

end CircuitPicture
