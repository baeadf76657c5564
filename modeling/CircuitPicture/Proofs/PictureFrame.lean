import CircuitPicture.Proofs.LayoutDecoding

/-! # The frame of a picture

The bounds of a picture and the places of what is drawn in it come from different formulas. Still
nothing leaves the bounds, since no symbol draws above its row or more than one row pitch below it,
and there is a margin on three of their sides (`placements_framed`). -/

namespace CircuitPicture

/-- The point keeps its distance from the right, lower and upper edge of the rectangle. -/
structure Bounds.Framed (b : Bounds Rat) (p : Point Rat) : Prop where
  left : b.low.x ≤ p.x
  right : p.x ≤ b.high.x - 3 / 2
  bottom : b.low.y + 3 / 4 ≤ p.y
  top : p.y ≤ b.high.y - 3 / 4

theorem Bounds.Framed.contains {b : Bounds Rat} {p : Point Rat} (h : b.Framed p) :
    b.contains p = true := by
  have hright : p.x ≤ b.high.x := by linarith [h.right]
  have hbottom : b.low.y ≤ p.y := by linarith [h.bottom]
  have htop : p.y ≤ b.high.y := by linarith [h.top]
  simp [Bounds.contains, h.left, hright, hbottom, htop]

namespace Symbol

/-- No stamp is above the row of its cell, or below the next row. -/
theorem offset_of_mem_stamps {s : Symbol} {stamp : Stamp Rat} (h : stamp ∈ s.stamps) :
    -9 / 4 ≤ stamp.offset ∧ stamp.offset ≤ 0 := by
  rcases cases_of_mem_stamps h with ⟨p, -, rfl⟩ | rfl | rfl <;>
    norm_num [Stamp.onAnchor, Stamp.oneRowDown, Stamp.downToGate]

end Symbol

namespace Raster

theorem columnX_add_le {step columns : Nat} (h : step < columns) :
    (columnX step : Rat) + 3 / 2 ≤ 3 * columns := by
  have hnext : (step : Rat) + 1 ≤ columns := by exact_mod_cast h
  rw [columnX_rat]
  linarith

theorem rowY_le (rows qubit : Nat) : (rowY rows qubit : Rat) ≤ 9 / 4 * rows + 3 / 4 := by
  have hdepth : (0 : Rat) ≤ qubit := Nat.cast_nonneg _
  rw [rowY_rat]
  linarith

theorem le_rowY {rows qubit : Nat} (h : qubit < rows) : 3 ≤ (rowY rows qubit : Rat) := by
  have hnext : (qubit : Rat) + 1 ≤ rows := by exact_mod_cast h
  rw [rowY_rat]
  linarith

end Raster

namespace Layout
open Raster

variable (l : Layout)

theorem width_bounds_rat : (l.bounds : Bounds Rat).width = 3 * l.grid.columnCount + 3 / 2 := by
  rw [bounds_rat, Bounds.width, sub_zero]

theorem height_bounds_rat : (l.bounds : Bounds Rat).height = 3 / 2 + 9 / 4 * l.grid.rowCount := by
  rw [bounds_rat, Bounds.height, sub_zero]

variable {l} {p : Placement Rat}

theorem framed_iff {x y : Rat} : (l.bounds : Bounds Rat).Framed ⟨x, y⟩ ↔
    (0 ≤ x ∧ x ≤ 3 * l.grid.columnCount) ∧ 3 / 4 ≤ y ∧ y ≤ 9 / 4 * l.grid.rowCount + 3 / 4 := by
  rw [bounds_rat]
  constructor
  · rintro ⟨hleft, hright, hbottom, htop⟩
    dsimp only at hleft hright hbottom htop
    exact ⟨⟨hleft, by linarith⟩, by linarith, by linarith⟩
  · rintro ⟨⟨hleft, hright⟩, hbottom, htop⟩
    exact ⟨hleft, by dsimp only; linarith, by dsimp only; linarith, by dsimp only; linarith⟩

theorem framed_of_mem_leadIn (h : p ∈ leadIn l.grid.rowCount) :
    (l.bounds : Bounds Rat).Framed p.position := by
  obtain ⟨qubit, hq, rfl⟩ := mem_leadIn.1 h
  have hlow := le_rowY hq
  have hhigh := rowY_le l.grid.rowCount qubit
  simp only [framed_iff, Scalar.quarters_rat, Int.cast_zero, zero_div]
  refine ⟨⟨le_rfl, by positivity⟩, by linarith, hhigh⟩

/-- What a cell draws keeps the margins, in the last row and the last time step as everywhere. -/
theorem framed_of_mem_block {step qubit : Nat} (hs : step < l.grid.columnCount)
    (hq : qubit < l.grid.rowCount) (h : p ∈ l.block (step, qubit)) :
    (l.bounds : Bounds Rat).Framed p.position := by
  have hright := columnX_add_le hs
  have hlow := le_rowY hq
  have hhigh := rowY_le l.grid.rowCount qubit
  have hleft : (0 : Rat) ≤ columnX step := by
    rw [columnX_rat]
    positivity
  rcases List.mem_append.1 h with hstamp | hwire
  · obtain ⟨stamp, hmem, rfl⟩ := List.mem_map.1 hstamp
    obtain ⟨hdown, hup⟩ := Symbol.offset_of_mem_stamps (Vocabulary.mem_symbol_stamps hmem)
    simp only [Stamp.place_rat, framed_iff, anchor]
    refine ⟨⟨hleft, by linarith⟩, by linarith, by linarith⟩
  · rw [List.mem_singleton.1 hwire]
    simp only [trailingWire_rat, framed_iff, anchor]
    refine ⟨⟨by linarith, hright⟩, by linarith, hhigh⟩

theorem framed_of_mem_placements (h : p ∈ l.placements) :
    (l.bounds : Bounds Rat).Framed p.position := by
  rcases mem_placements.1 h with hlead | ⟨step, hs, qubit, hq, hblock⟩
  · exact framed_of_mem_leadIn hlead
  · exact framed_of_mem_block hs hq hblock

/-- Everything that is drawn, wires and stamps, stands inside the picture and keeps a margin there,
also the lines that the cells of the last row hang below it. -/
theorem placements_framed (l : Layout) (p : Placement Rat) (hp : p ∈ l.placements) :
    let frame : Bounds Rat := l.bounds
    frame.contains p.position = true ∧
      0 ≤ p.position.x ∧ p.position.x ≤ frame.width - 3 / 2 ∧
      3 / 4 ≤ p.position.y ∧ p.position.y ≤ frame.height - 3 / 4 := by
  intro frame
  have hframed : frame.Framed p.position := framed_of_mem_placements hp
  obtain ⟨⟨hleft, hright⟩, hbottom, htop⟩ := framed_iff.1 hframed
  rw [width_bounds_rat, height_bounds_rat]
  refine ⟨hframed.contains, hleft, by linarith, hbottom, by linarith⟩

/-- A line that a cell of the only row hangs below it stands on the margin. -/
theorem placements_framed_below_row :
    let g : Grid := ⟨[[.crossDown]], 1, by decide, by decide, by decide⟩
    let l : Layout := ⟨g, .extended⟩
    let p : Placement Rat := ⟨.lineUpTouching, ⟨3 / 2, 3 / 4⟩⟩
    p ∈ l.placements ∧ (l.bounds : Bounds Rat).contains p.position = true ∧
      3 / 4 ≤ p.position.y := by
  intro g l p
  have hp : p ∈ l.placements := by decide +kernel
  obtain ⟨hcontains, -, -, hbottom, -⟩ := placements_framed l p hp
  exact ⟨hp, hcontains, hbottom⟩

end Layout

end CircuitPicture
