import CircuitPicture.Proofs.LayoutCells
import Mathlib.Algebra.BigOperators.Group.Finset.Basic

/-! # The order of placements

The cells before a cell are those of the time steps before it and those above it, and each of them
has drawn its stamps and one wire. So the index of a cell's own wire can be counted from the symbols
(`wireIndex`), and its stamps stand directly before it (`placements_order`). -/

namespace CircuitPicture

theorem range_eq_append {i n : Nat} (h : i < n) :
    ∃ after, List.range n = List.range i ++ i :: after := by
  obtain ⟨k, rfl⟩ := Nat.exists_eq_add_of_lt h
  refine ⟨(List.range k).map fun j => i + (j + 1), ?_⟩
  rw [Nat.add_assoc, List.range_add, List.range_succ_eq_map, List.map_cons, List.map_map]
  rfl

theorem sum_map_range (f : Nat → Nat) (n : Nat) :
    ((List.range n).map f).sum = ∑ i ∈ Finset.range n, f i := by
  induction n with
  | zero => rfl
  | succ n ih => simp [List.range_succ, Finset.sum_range_succ, ih]

theorem extract_append {α : Type} (front middle rest : List α) :
    (front ++ (middle ++ rest)).extract front.length (front.length + middle.length) = middle := by
  simp [List.extract_eq_take_drop]

namespace Layout
open Raster

variable {α : Type} [Scalar α]

/-- The number of stamps that a cell draws. -/
def stampCount (l : Layout) (qubit step : Nat) : Nat :=
  (l.vocabulary.stamps (α := Rat) (l.grid.symbolAt qubit step)).length

/-- The index of a cell's wire: behind the wires at the left edge, the stamps of all cells up to
this one, time step by time step, and the wires of all cells before it. -/
def wireIndex (l : Layout) (qubit step : Nat) : Nat :=
  l.grid.rowCount +
    (∑ s ∈ Finset.range step, ∑ q ∈ Finset.range l.grid.rowCount, l.stampCount q s +
      ∑ q ∈ Finset.range (qubit + 1), l.stampCount q step) +
    step * l.grid.rowCount + qubit

/-- The cells of a picture with this many rows that are drawn before a cell. -/
def cellsBefore (rows qubit step : Nat) : List (Nat × Nat) :=
  cells rows step ++ (List.range qubit).map fun q => (step, q)

theorem cells_succ (rows step : Nat) : cells rows (step + 1) = cellsBefore rows rows step := by
  rw [cells, List.range_succ, List.flatMap_append, List.flatMap_singleton, ← cells, cellsBefore]

theorem cells_eq_append {rows columns qubit step : Nat} (hq : qubit < rows) (hs : step < columns) :
    ∃ after, cells rows columns = cellsBefore rows qubit step ++ (step, qubit) :: after := by
  obtain ⟨steps, hsteps⟩ := range_eq_append hs
  obtain ⟨qubits, hqubits⟩ := range_eq_append hq
  have hcolumn : (List.range rows).map (fun q => (step, q)) =
      (List.range qubit).map (fun q => (step, q)) ++
        (step, qubit) :: qubits.map fun q => (step, q) := by
    rw [hqubits, List.map_append, List.map_cons]
  refine ⟨qubits.map (fun q => (step, q)) ++
    steps.flatMap fun s => (List.range rows).map fun q => (s, q), ?_⟩
  rw [cells, hsteps, List.flatMap_append, List.flatMap_cons, hcolumn, ← cells, cellsBefore]
  simp only [List.append_assoc, List.cons_append]

theorem length_cellsBefore (rows qubit step : Nat) :
    (cellsBefore rows qubit step).length = step * rows + qubit := by
  rw [cellsBefore, List.length_append, length_cells, List.length_map, List.length_range]

theorem sum_cells (f : Nat × Nat → Nat) (rows columns : Nat) :
    ((cells rows columns).map f).sum =
      ∑ s ∈ Finset.range columns, ∑ q ∈ Finset.range rows, f (s, q) := by
  induction columns with
  | zero => rfl
  | succ step ih =>
    rw [cells_succ, cellsBefore, List.map_append, List.sum_append, ih, List.map_map, sum_map_range,
      Finset.sum_range_succ]
    rfl

theorem sum_cellsBefore (f : Nat × Nat → Nat) (rows qubit step : Nat) :
    ((cellsBefore rows qubit step).map f).sum =
      ∑ s ∈ Finset.range step, ∑ q ∈ Finset.range rows, f (s, q) +
        ∑ q ∈ Finset.range qubit, f (step, q) := by
  rw [cellsBefore, List.map_append, List.sum_append, sum_cells, List.map_map, sum_map_range]
  rfl

theorem length_flatMap_block (l : Layout) (cells : List (Nat × Nat)) :
    (cells.flatMap (l.block (α := α))).length =
      (cells.map fun cell => l.stampCount cell.2 cell.1).sum + cells.length := by
  rw [List.length_flatMap, ← sum_map_add_one]
  simp only [block, length_cellPlacements, stampCount]

/-- A layout around the stamps and the wire of one cell. -/
theorem placements_around (l : Layout) {qubit step : Nat} {before after : List (Nat × Nat)}
    (h : cells l.grid.rowCount l.grid.columnCount = before ++ (step, qubit) :: after) :
    l.placements (α := α) = (leadIn l.grid.rowCount ++ before.flatMap l.block) ++
      ((l.vocabulary.stamps (l.grid.symbolAt qubit step)).map
        (fun stamp => stamp.place (anchor l.grid.rowCount qubit step)) ++
          trailingWire (anchor l.grid.rowCount qubit step) :: after.flatMap l.block) := by
  rw [placements_eq_cells, h, List.flatMap_append, List.flatMap_cons, List.append_assoc, block,
    cellPlacements, List.append_assoc, List.singleton_append]

theorem placements_eq_append (l : Layout) {qubit step : Nat} (hq : qubit < l.grid.rowCount)
    (hs : step < l.grid.columnCount) :
    ∃ front rest : List (Placement α),
      l.placements = front ++ ((l.vocabulary.stamps (l.grid.symbolAt qubit step)).map
        (fun stamp => stamp.place (anchor l.grid.rowCount qubit step)) ++
          trailingWire (anchor l.grid.rowCount qubit step) :: rest) ∧
      front.length + l.stampCount qubit step = l.wireIndex qubit step := by
  obtain ⟨after, hcells⟩ := cells_eq_append hq hs
  refine ⟨_, _, placements_around l hcells, ?_⟩
  rw [List.length_append, length_flatMap_block, length_cellsBefore, sum_cellsBefore, leadIn,
    List.length_map, List.length_range, wireIndex, Finset.sum_range_succ]
  dsimp only
  omega

/-- The index of each placement follows from the symbols: the wires at the left edge come first, the
wire of a cell stands at `wireIndex`, and the stamps of the cell directly before it, in the order of
the table. -/
theorem placements_order (l : Layout) :
    let drawn : List (Placement α) := l.placements
    let rows := l.grid.rowCount
    drawn.length = l.placementCount ∧
    (∀ qubit < rows, drawn[qubit]? = some ⟨.wire, ⟨Scalar.quarters 0, rowY rows qubit⟩⟩) ∧
    ∀ qubit step symbol, l.grid.symbol? qubit step = some symbol →
      let stamps := l.vocabulary.stamps symbol
      let index := l.wireIndex qubit step
      drawn[index]? = some (trailingWire (anchor rows qubit step)) ∧
      drawn.extract (index - stamps.length) index =
        stamps.map fun stamp => stamp.place (anchor rows qubit step) := by
  intro drawn rows
  refine ⟨length_placements l, fun qubit hq => ?_, fun qubit step symbol hsymbol => ?_⟩
  · have hlead : (leadIn rows : List (Placement α))[qubit]? =
        some ⟨.wire, ⟨Scalar.quarters 0, rowY rows qubit⟩⟩ := by
      simp [leadIn, hq]
    have hlength : qubit < (leadIn rows : List (Placement α)).length := by simp [leadIn, hq]
    change l.placements[qubit]? = _
    rw [placements, List.getElem?_append_left hlength, hlead]
  · intro stamps index
    obtain ⟨hq, hs, rfl⟩ := Grid.symbol?_eq_some_iff.1 hsymbol
    obtain ⟨front, rest, hdrawn, hindex⟩ := placements_eq_append (α := α) l hq hs
    let placed : List (Placement α) := stamps.map fun stamp => stamp.place (anchor rows qubit step)
    have hplaced : placed.length = stamps.length := List.length_map _
    have hcount : stamps.length = l.stampCount qubit step := length_stamps _ _
    let wire : Placement α := trailingWire (anchor rows qubit step)
    have hcell : drawn = front ++ (placed ++ wire :: rest) := hdrawn
    have hend : index = front.length + placed.length := by
      rw [hplaced, hcount, hindex]
    have hstart : index - stamps.length = front.length := by omega
    refine ⟨?_, ?_⟩
    · rw [hcell, hend, List.getElem?_append_right (Nat.le_add_right _ _), Nat.add_sub_cancel_left,
        List.getElem?_append_right (Nat.le_refl _), Nat.sub_self, List.getElem?_cons_zero]
    · rw [hstart, hcell, hend]
      exact extract_append front placed _

end Layout

end CircuitPicture
