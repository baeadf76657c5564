import CircuitPicture.Proofs.LayoutDecoding
import CircuitPicture.Proofs.RecordedArithmetic

/-! # Layouts without rounding

Up to `2 ^ 49` rows and as many columns, all numbers of a layout are quarters that doubles hold, and
so are all numbers on the way to them (`holds_of_mem_numbers`). In doubles the rows and columns
therefore stand on an exact raster (`numbers_unrounded`). -/

namespace CircuitPicture
open Double

namespace Raster
open Recorded

theorem holds_height {rows : Nat} (hrows : rows ≤ 2 ^ 49) :
    (height rows : Recorded).Holds (6 + 9 * rows) := by
  have hbands : (Scalar.ofNat rows * rowPitch : Recorded).Holds (9 * rows : Nat) :=
    (holds_ofNat (by omega)).mul (k := 9) (holds_quarters (by decide)) (by omega) (by omega)
  exact ((holds_quarters (k := 6) (by decide)).add hbands (by omega)).of_eq (by push_cast; rfl)

theorem holds_rowY {rows qubit : Nat} (hrows : rows ≤ 2 ^ 49) (hq : qubit ≤ rows) :
    (rowY rows qubit : Recorded).Holds (3 + 9 * (rows - qubit)) := by
  have habove : (rowPitch * Scalar.ofNat qubit : Recorded).Holds (9 * qubit : Nat) :=
    Holds.mul (j := 9) (holds_quarters (by decide)) (holds_ofNat (by omega)) (by omega) (by omega)
  have htop : (height rows - wireDepth : Recorded).Holds (6 + 9 * rows - 3) :=
    (holds_height hrows).sub (holds_quarters (by decide)) (by omega)
  exact (htop.sub habove (by omega)).of_eq (by push_cast; ring)

theorem holds_stepPitch : (stepPitch : Recorded).Holds (12 : Nat) :=
  (holds_quarters (k := 6) (by decide)).add (holds_quarters (k := 6) (by decide)) (by decide)

theorem holds_columnX {step : Nat} (hstep : step ≤ 2 ^ 49) :
    (columnX step : Recorded).Holds (6 + 12 * step) := by
  have hsteps : (stepPitch * Scalar.ofNat step : Recorded).Holds (12 * step : Nat) :=
    holds_stepPitch.mul (holds_ofNat (by omega)) (by omega) (by omega)
  exact ((holds_quarters (k := 6) (by decide)).add hsteps (by omega)).of_eq (by push_cast; rfl)

theorem holds_width {columns : Nat} (hcolumns : columns ≤ 2 ^ 49) :
    (width columns : Recorded).Holds (12 * columns + 6) := by
  have hsteps : (stepPitch * Scalar.ofNat columns : Recorded).Holds (12 * columns : Nat) :=
    holds_stepPitch.mul (holds_ofNat (by omega)) (by omega) (by omega)
  exact (hsteps.add (holds_quarters (k := 6) (by decide)) (by omega)).of_eq (by push_cast; rfl)

end Raster

namespace Layout
open Raster Recorded

theorem holds_offset {s : Symbol} {stamp : Stamp Recorded} (h : stamp ∈ s.stamps) :
    ∃ k, -9 ≤ k ∧ k ≤ 0 ∧ stamp.offset.Holds k := by
  rcases Symbol.cases_of_mem_stamps h with ⟨p, -, rfl⟩ | rfl | rfl
  · exact ⟨0, by decide, le_rfl, holds_quarters (by decide)⟩
  · exact ⟨-9, le_rfl, by decide, holds_quarters (by decide)⟩
  · exact ⟨-6, by decide, by decide, holds_quarters (by decide)⟩

theorem holds_of_mem_block {l : Layout} (hrows : l.grid.rowCount ≤ 2 ^ 49)
    (hcolumns : l.grid.columnCount ≤ 2 ^ 49) {step qubit : Nat} (hs : step < l.grid.columnCount)
    (hq : qubit < l.grid.rowCount) {p : Placement Recorded} (h : p ∈ l.block (step, qubit)) :
    p.position.x.Exact ∧ p.position.y.Exact := by
  have hx : (columnX step : Recorded).Holds (6 + 12 * step) := holds_columnX (by omega)
  have hy : (rowY l.grid.rowCount qubit : Recorded).Holds (3 + 9 * (l.grid.rowCount - qubit)) :=
    holds_rowY hrows (by omega)
  have hzero : (Scalar.quarters 0 : Recorded).Holds 0 := holds_quarters (by decide)
  rcases List.mem_append.1 h with hstamp | hwire
  · obtain ⟨stamp, hmem, rfl⟩ := List.mem_map.1 hstamp
    obtain ⟨k, hlow, hhigh, hoffset⟩ := holds_offset (Vocabulary.mem_symbol_stamps hmem)
    exact ⟨⟨_, hx.add hzero (by omega)⟩, _, hy.add hoffset (by omega)⟩
  · have hgate : (gatePitch : Recorded).Holds 6 := holds_quarters (by decide)
    rw [List.mem_singleton.1 hwire]
    exact ⟨⟨_, hx.add hgate (by omega)⟩, _, hy.add hzero (by omega)⟩

theorem holds_of_mem_placements {l : Layout} (hrows : l.grid.rowCount ≤ 2 ^ 49)
    (hcolumns : l.grid.columnCount ≤ 2 ^ 49) {p : Placement Recorded} (h : p ∈ l.placements) :
    p.position.x.Exact ∧ p.position.y.Exact := by
  rcases mem_placements.1 h with hlead | ⟨step, hs, qubit, hq, hblock⟩
  · obtain ⟨qubit, hq, rfl⟩ := mem_leadIn.1 hlead
    exact ⟨⟨0, holds_quarters (by decide)⟩, _, holds_rowY hrows (Nat.le_of_lt hq)⟩
  · exact holds_of_mem_block hrows hcolumns hs hq hblock

theorem holds_of_mem_numbers {l : Layout} (hrows : l.grid.rowCount ≤ 2 ^ 49)
    (hcolumns : l.grid.columnCount ≤ 2 ^ 49) {c : Recorded} (h : c ∈ l.numbers) : c.Exact := by
  have hzero : (Scalar.quarters 0 : Recorded).Holds 0 := holds_quarters (by decide)
  have hright := hzero.add (holds_width hcolumns) (by omega)
  have htop := hzero.add (holds_height hrows) (by omega)
  simp only [numbers, List.mem_append, List.mem_map, List.mem_range, List.mem_cons,
    List.not_mem_nil, or_false, List.mem_flatMap] at h
  rcases h with ((⟨q, hq, rfl⟩ | ⟨s, hs, rfl⟩) | hframe) | ⟨p, hp, rfl | rfl⟩
  · exact ⟨_, holds_rowY hrows (Nat.le_of_lt hq)⟩
  · exact ⟨_, holds_columnX (by omega)⟩
  · rcases hframe with rfl | rfl | rfl | rfl | rfl | rfl
    · exact ⟨0, hzero⟩
    · exact ⟨0, hzero⟩
    · exact ⟨_, hright⟩
    · exact ⟨_, htop⟩
    · exact ⟨_, hright.sub hzero (by omega)⟩
    · exact ⟨_, htop.sub hzero (by omega)⟩
  · exact (holds_of_mem_placements hrows hcolumns hp).1
  · exact (holds_of_mem_placements hrows hcolumns hp).2

theorem rowY_eq_quarter {rows qubit : Nat} (hrows : rows ≤ 2 ^ 49) (hq : qubit ≤ rows) :
    (rowY rows qubit : Float) = quarter (3 + 9 * (rows - qubit)) :=
  (double_hom.map_rowY rows qubit).symm.trans (holds_rowY hrows hq).double

theorem columnX_eq_quarter {step : Nat} (hstep : step ≤ 2 ^ 49) :
    (columnX step : Float) = quarter (6 + 12 * step) :=
  (double_hom.map_columnX step).symm.trans (holds_columnX hstep).double

theorem value?_rowY {rows qubit : Nat} (hrows : rows ≤ 2 ^ 49) (hq : qubit ≤ rows) :
    value? (rowY rows qubit) = some (3 / 4 + 9 / 4 * (rows - qubit) : Rat) := by
  rw [rowY_eq_quarter hrows hq, value?_quarter (by omega)]
  push_cast
  congr 1
  ring

theorem rowY_sub_rowY_succ {rows qubit : Nat} (hrows : rows ≤ 2 ^ 49) (hq : qubit < rows) :
    (rowY rows qubit - rowY rows (qubit + 1) : Float) = rowPitch := by
  have hpitch : (rowPitch : Float) = quarter 9 := (holds_quarters (k := 9) (by decide)).double
  rw [rowY_eq_quarter hrows (by omega), rowY_eq_quarter hrows (by omega), hpitch,
    quarter_sub (by omega) (by omega) (by omega)]
  congr 1
  push_cast
  ring

theorem rowY_lt_rowY {rows q r : Nat} (hrows : rows ≤ 2 ^ 49) (hlt : q < r) (hr : r ≤ rows) :
    (rowY rows r : Float) < rowY rows q := by
  have hnat {i : Nat} (hi : i ≤ rows) :
      (3 + 9 * (rows - i) : Int) = (3 + 9 * (rows - i) : Nat) := by omega
  rw [rowY_eq_quarter hrows hr, rowY_eq_quarter hrows (by omega), hnat hr, hnat (by omega)]
  exact quarter_lt (by omega) (by omega)

theorem columnX_succ_sub_columnX {step : Nat} (hstep : step < 2 ^ 49) :
    (columnX (step + 1) - columnX step : Float) = stepPitch := by
  have hpitch : (stepPitch : Float) = quarter (12 : Nat) := holds_stepPitch.double
  rw [columnX_eq_quarter hstep, columnX_eq_quarter (by omega), hpitch,
    quarter_sub (by omega) (by omega) (by omega)]
  congr 1
  push_cast
  ring

/-- Up to `2 ^ 49` rows and as many columns nothing is rounded: each result on the way to a number
of the layout is a multiple of 1/4 below `2 ^ 51`, and the double that is computed stands for it. -/
theorem numbers_unrounded (l : Layout) (hrows : l.grid.rowCount ≤ 2 ^ 49)
    (hcolumns : l.grid.columnCount ≤ 2 ^ 49) :
    let rows := l.grid.rowCount
    let columns := l.grid.columnCount
    let recorded : List Recorded := l.numbers
    recorded.map Recorded.exact = l.numbers ∧
    recorded.map Recorded.double = l.numbers ∧
    (∀ c ∈ recorded, ∀ r ∈ c.results, Unrounded r.1 r.2) ∧
    (∀ qubit < rows,
      value? (rowY rows qubit) = some (3 / 4 + 9 / 4 * (rows - qubit) : Rat)) ∧
    (∀ qubit, qubit + 1 < rows →
      (rowY rows qubit - rowY rows (qubit + 1) : Float) = rowPitch) ∧
    (∀ q r, q < r → r < rows → (rowY rows r : Float) < rowY rows q) ∧
    ∀ step, step + 1 < columns → (columnX (step + 1) - columnX step : Float) = stepPitch := by
  intro rows columns recorded
  refine ⟨exact_hom.map_numbers l, double_hom.map_numbers l, fun c hc => ?_,
    fun qubit hq => value?_rowY hrows (Nat.le_of_lt hq),
    fun qubit hq => rowY_sub_rowY_succ hrows (Nat.lt_of_succ_lt hq),
    fun q r hlt hr => rowY_lt_rowY hrows hlt (Nat.le_of_lt hr),
    fun step hstep => columnX_succ_sub_columnX ?_⟩
  · obtain ⟨k, hk⟩ := holds_of_mem_numbers hrows hcolumns hc
    exact hk.results
  · exact Nat.lt_of_lt_of_le (Nat.lt_of_succ_lt hstep) hcolumns

/-- Two rows and two time steps. -/
theorem numbers_unrounded_cross :
    let g : Grid := ⟨[[.crossDown, .identity], [.crossUp, .hadamard]], 2, by decide, by decide,
      by decide⟩
    g.rowCount ≤ 2 ^ 49 ∧ g.columnCount ≤ 2 ^ 49 ∧
      value? (rowY g.rowCount 0) = some (21 / 4 : Rat) ∧
      (rowY g.rowCount 0 - rowY g.rowCount 1 : Float) = rowPitch ∧
      (rowY g.rowCount 1 : Float) < rowY g.rowCount 0 ∧
      (columnX 1 - columnX 0 : Float) = stepPitch := by
  intro g
  have hrows : g.rowCount ≤ 2 ^ 49 := by decide
  have hcolumns : g.columnCount ≤ 2 ^ 49 := by decide
  obtain ⟨-, -, -, hvalue, hrow, hlower, hcolumn⟩ :=
    numbers_unrounded ⟨g, .extended⟩ hrows hcolumns
  have hcount : (g.rowCount : Rat) = 2 := rfl
  refine ⟨hrows, hcolumns, (hvalue 0 (by decide)).trans ?_, hrow 0 (by decide),
    hlower 0 1 (by decide) (by decide), hcolumn 0 (by decide)⟩
  rw [hcount]
  norm_num

end Layout

end CircuitPicture
