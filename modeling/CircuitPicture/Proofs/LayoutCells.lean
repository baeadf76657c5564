import CircuitPicture.Layout
import Mathlib.Algebra.GroupWithZero.Nat

/-! # Layouts cell by cell

A layout draws the wires at the left edge and then one block for each cell, time step by time step
and within a step from top to bottom (`placements_eq_cells`). A block knows the symbol of its cell
and the place of the cell in the raster, and nothing else. -/

namespace CircuitPicture

theorem columns_eq_map {α : Type} {width : Nat} {rows : List (List α)} (default : α)
    (h : ∀ row ∈ rows, row.length = width) :
    columns width rows =
      (List.range width).map fun i => rows.map fun row => row.getD i default := by
  induction rows with
  | nil =>
    refine List.ext_getElem (by simp) fun i _ _ => by simp
  | cons row rows ih =>
    have hrow : row.length = width := h row (by simp)
    rw [columns_cons, ih fun r hr => h r (by simp [hr])]
    refine List.ext_getElem (by simp [hrow]) fun i hi _ => ?_
    have hi : i < row.length := by simp at hi; omega
    simp [hi]

theorem sum_zipWith_cons {α : Type} (f : α → Nat) {row : List α} {columns : List (List α)}
    (h : row.length = columns.length) :
    ((List.zipWith List.cons row columns).map fun column => (column.map f).sum).sum =
      (row.map f).sum + (columns.map fun column => (column.map f).sum).sum := by
  induction row generalizing columns with
  | nil =>
    obtain rfl := List.length_eq_zero_iff.1 h.symm
    rfl
  | cons cell row ih =>
    obtain ⟨column, columns, rfl⟩ := List.exists_cons_of_length_eq_add_one h.symm
    have hrest := @ih columns (by simpa using h)
    simp only [List.zipWith_cons_cons, List.map_cons, List.sum_cons]
    rw [hrest]
    omega

/-- A sum over a table, column by column or row by row. -/
theorem sum_columns {α : Type} {width : Nat} {rows : List (List α)} (f : α → Nat)
    (h : ∀ row ∈ rows, row.length = width) :
    ((columns width rows).map fun column => (column.map f).sum).sum =
      (rows.flatten.map f).sum := by
  induction rows with
  | nil =>
    rw [columns_nil, List.map_replicate, List.sum_replicate_nat]
    rfl
  | cons row rows ih =>
    have hrest : ∀ r ∈ rows, r.length = width := fun r hr => h r (by simp [hr])
    have hlength : row.length = (columns width rows).length := by
      rw [length_columns hrest, h row (by simp)]
    rw [columns_cons, sum_zipWith_cons f hlength, ih hrest, List.flatten_cons, List.map_append,
      List.sum_append]

theorem length_flatten {α : Type} {width : Nat} {rows : List (List α)}
    (h : ∀ row ∈ rows, row.length = width) : rows.flatten.length = rows.length * width := by
  induction rows with
  | nil => simp
  | cons row rows ih =>
    rw [List.flatten_cons, List.length_append, h row (by simp), ih fun r hr => h r (by simp [hr]),
      List.length_cons, Nat.add_mul, Nat.one_mul, Nat.add_comm]

namespace Grid

/-- The symbol of a qubit at a time step; outside of the grid there is nothing to draw. -/
def symbolAt (g : Grid) (qubit step : Nat) : Symbol := (g.symbol? qubit step).getD .blank

theorem symbol?_eq_some_iff {g : Grid} {qubit step : Nat} {s : Symbol} :
    g.symbol? qubit step = some s ↔
      qubit < g.rowCount ∧ step < g.columnCount ∧ g.symbolAt qubit step = s := by
  by_cases hq : qubit < g.rowCount
  · have hrow : g.rows[qubit]? = some g.rows[qubit] := List.getElem?_eq_getElem hq
    have hlength : g.rows[qubit].length = g.columnCount := g.length_row _ (List.getElem_mem hq)
    by_cases hs : step < g.columnCount
    · have hstep : step < g.rows[qubit].length := hlength ▸ hs
      have hcell : g.rows[qubit][step]? = some g.rows[qubit][step] :=
        List.getElem?_eq_getElem hstep
      simp [symbolAt, symbol?, hrow, hcell, hq, hs]
    · have hcell : g.rows[qubit][step]? = none := List.getElem?_eq_none (by omega)
      simp [symbol?, hrow, hcell, hs]
  · have hrow : g.rows[qubit]? = none := List.getElem?_eq_none (Nat.le_of_not_lt hq)
    simp [symbol?, hrow, hq]

theorem steps_eq_map (g : Grid) : g.steps = (List.range g.columnCount).map fun step =>
    (List.range g.rowCount).map fun qubit => g.symbolAt qubit step := by
  rw [steps, columns_eq_map .blank g.length_row]
  refine List.map_congr_left fun step _ => ?_
  refine List.ext_getElem (by simp [rowCount]) fun qubit hq _ => ?_
  have hq : qubit < g.rows.length := by simpa using hq
  simp [symbolAt, symbol?, hq, List.getD_eq_getElem?_getD]

end Grid

theorem zipIdx_map_range {α : Type} (f : Nat → α) (n : Nat) :
    ((List.range n).map f).zipIdx = (List.range n).map fun i => (f i, i) := by
  refine List.ext_getElem (by simp) fun i _ _ => by simp

theorem map_zipIdx_fst {α β : Type} (f : α → β) (xs : List α) :
    (xs.zipIdx.map fun x => f x.1) = xs.map f := by
  refine List.ext_getElem (by simp) fun i _ _ => by simp

theorem sum_map_add_one {α : Type} (f : α → Nat) (xs : List α) :
    (xs.map fun x => f x + 1).sum = (xs.map f).sum + xs.length := by
  induction xs with
  | nil => rfl
  | cons x xs ih =>
    rw [List.map_cons, List.map_cons, List.sum_cons, List.sum_cons, ih, List.length_cons]
    omega

namespace Layout
open Raster

variable {α : Type} [Scalar α]

/-- Where the anchor of a cell is in a picture with this many rows. -/
def anchor (rows qubit step : Nat) : Point α := ⟨columnX step, rowY rows qubit⟩

def block (l : Layout) (cell : Nat × Nat) : List (Placement α) :=
  cellPlacements l.vocabulary (l.grid.symbolAt cell.2 cell.1) (anchor l.grid.rowCount cell.2 cell.1)

def cells (rows columns : Nat) : List (Nat × Nat) :=
  (List.range columns).flatMap fun step => (List.range rows).map fun qubit => (step, qubit)

theorem mem_cells {rows columns : Nat} {cell : Nat × Nat} :
    cell ∈ cells rows columns ↔ cell.1 < columns ∧ cell.2 < rows := by
  obtain ⟨step, qubit⟩ := cell
  simp [cells]

theorem length_cells (rows columns : Nat) : (cells rows columns).length = columns * rows := by
  rw [cells, List.length_flatMap]
  simp only [List.length_map, List.length_range, List.map_const', List.sum_replicate_nat]

/-- A layout, with a loop over the time steps around a loop over the qubits. -/
theorem placements_eq (l : Layout) : l.placements (α := α) =
    leadIn l.grid.rowCount ++ (List.range l.grid.columnCount).flatMap fun step =>
      (List.range l.grid.rowCount).flatMap fun qubit =>
        l.block (step, qubit) := by
  rw [placements, Grid.steps_eq_map, zipIdx_map_range, List.flatMap_map]
  simp only [stepPlacements, zipIdx_map_range, List.flatMap_map]
  rfl

theorem placements_eq_cells (l : Layout) : l.placements (α := α) =
    leadIn l.grid.rowCount ++ (cells l.grid.rowCount l.grid.columnCount).flatMap l.block := by
  rw [placements_eq, cells, List.flatMap_assoc]
  simp only [List.flatMap_map]

theorem mem_leadIn {rows : Nat} {p : Placement α} : p ∈ leadIn rows ↔
    ∃ qubit < rows, p = ⟨.wire, ⟨Scalar.quarters 0, rowY rows qubit⟩⟩ := by
  simp [leadIn, eq_comm]

theorem mem_placements {l : Layout} {p : Placement α} : p ∈ l.placements ↔
    p ∈ leadIn l.grid.rowCount ∨
      ∃ step < l.grid.columnCount, ∃ qubit < l.grid.rowCount, p ∈ l.block (step, qubit) := by
  simp [placements_eq]

theorem length_stamps (v : Vocabulary) (s : Symbol) :
    (v.stamps (α := α) s).length = (v.stamps (α := Rat) s).length := by
  unfold Vocabulary.stamps
  split
  · cases s <;> rfl
  · rfl

theorem length_cellPlacements (v : Vocabulary) (s : Symbol) (anchor : Point α) :
    (cellPlacements v s anchor).length = (v.stamps (α := Rat) s).length + 1 := by
  rw [cellPlacements, List.length_append, List.length_map, length_stamps, List.length_singleton]

theorem length_stepPlacements (v : Vocabulary) (rows : Nat) (x : α) (symbols : List Symbol) :
    (stepPlacements v rows x symbols).length =
      (symbols.map fun s => (v.stamps (α := Rat) s).length + 1).sum := by
  rw [stepPlacements, List.length_flatMap]
  simp only [length_cellPlacements]
  rw [map_zipIdx_fst fun s => (v.stamps (α := Rat) s).length + 1]

/-- The number of placements, counted along the time steps, is the number that is counted from the
symbols row by row. -/
theorem length_placements (l : Layout) : (l.placements (α := α)).length = l.placementCount := by
  have hsymbols : l.grid.symbols.length = l.grid.rowCount * l.grid.columnCount :=
    length_flatten l.grid.length_row
  have hsteps : (l.grid.steps.zipIdx.map fun step =>
      (stepPlacements (α := α) l.vocabulary l.grid.rowCount (columnX step.2) step.1).length).sum =
      (l.grid.symbols.map fun s => (l.vocabulary.stamps (α := Rat) s).length).sum +
        l.grid.symbols.length := by
    simp only [length_stepPlacements]
    rw [map_zipIdx_fst fun symbols : List Symbol =>
        (symbols.map fun s => (l.vocabulary.stamps (α := Rat) s).length + 1).sum,
      Grid.steps, sum_columns _ l.grid.length_row, ← Grid.symbols, sum_map_add_one]
  have hcount : (l.grid.symbols.map fun s => (l.vocabulary.stamps (α := Rat) s).length).sum =
      l.grid.symbols.foldr (fun s n => (l.vocabulary.stamps (α := Rat) s).length + n) 0 := by
    rw [List.sum_eq_foldr, List.foldr_map]
  rw [placements, List.length_append, List.length_flatMap, hsteps, hcount, hsymbols,
    placementCount, leadIn, List.length_map, List.length_range, Nat.add_assoc]

end Layout

end CircuitPicture
