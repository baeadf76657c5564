import CircuitPicture.Proofs.LayoutCells

/-! # Layouts in different number types

A layout uses nothing of its numbers but their arithmetic. A function from one number type to
another that keeps the arithmetic therefore takes every number of a layout to the same number of the
layout in the other type (`map_numbers`). -/

namespace CircuitPicture

/-- A function that keeps the arithmetic of coordinates. -/
structure ScalarHom {α β : Type} [Scalar α] [Scalar β] (f : α → β) : Prop where
  add : ∀ a b, f (a + b) = f a + f b
  sub : ∀ a b, f (a - b) = f a - f b
  mul : ∀ a b, f (a * b) = f a * f b
  ofNat : ∀ n, f (Scalar.ofNat n) = Scalar.ofNat n
  quarters : ∀ k, f (Scalar.quarters k) = Scalar.quarters k

section Maps

variable {α β : Type} (f : α → β)

def Point.map (p : Point α) : Point β := ⟨f p.x, f p.y⟩

def Bounds.map (b : Bounds α) : Bounds β := ⟨b.low.map f, b.high.map f⟩

def Stamp.map (stamp : Stamp α) : Stamp β := ⟨stamp.primitive, f stamp.offset⟩

def Placement.map (p : Placement α) : Placement β := ⟨p.primitive, p.position.map f⟩

@[simp] theorem Point.map_mk (x y : α) : (⟨x, y⟩ : Point α).map f = ⟨f x, f y⟩ := rfl

end Maps

namespace Layout
open Raster

/-- The numbers that a layout gives out: the heights of its rows, the places of its gate columns,
its bounds with their width and height, and the coordinates of all that it draws. -/
def numbers {α : Type} [Scalar α] (l : Layout) : List α :=
  let frame : Bounds α := l.bounds
  (List.range l.grid.rowCount).map (rowY l.grid.rowCount) ++
    (List.range l.grid.columnCount).map columnX ++
    [frame.low.x, frame.low.y, frame.high.x, frame.high.y, frame.width, frame.height] ++
    l.placements.flatMap fun p => [p.position.x, p.position.y]

end Layout

namespace ScalarHom
open Raster Layout

variable {α β : Type} [Scalar α] [Scalar β] {f : α → β} (hf : ScalarHom f)
include hf

theorem map_height (rows : Nat) : f (height rows) = height rows := by
  simp only [height, topMargin, rowPitch, hf.add, hf.mul, hf.ofNat, hf.quarters]

theorem map_rowY (rows qubit : Nat) : f (rowY rows qubit) = rowY rows qubit := by
  simp only [rowY, wireDepth, rowPitch, hf.sub, hf.mul, hf.ofNat, hf.quarters, hf.map_height]

theorem map_columnX (step : Nat) : f (columnX step) = columnX step := by
  simp only [columnX, stepPitch, wirePitch, gatePitch, hf.add, hf.mul, hf.ofNat, hf.quarters]

theorem map_width (columns : Nat) : f (width columns) = width columns := by
  simp only [width, stepPitch, wirePitch, gatePitch, hf.add, hf.mul, hf.ofNat, hf.quarters]

theorem map_add_point (p q : Point α) : (p + q).map f = p.map f + q.map f :=
  congrArg₂ Point.mk (hf.add p.x q.x) (hf.add p.y q.y)

theorem map_stamps (v : Vocabulary) (s : Symbol) :
    (v.stamps s).map (Stamp.map f) = v.stamps s := by
  have hstamps : s.stamps.map (Stamp.map f) = s.stamps := by
    cases s <;> simp only [Symbol.stamps, Stamp.onAnchor, Stamp.oneRowDown, Stamp.downToGate,
      List.map_cons, List.map_nil, Stamp.map, hf.quarters]
  unfold Vocabulary.stamps
  split
  · exact hstamps
  · rfl

theorem map_place (stamp : Stamp α) (anchor : Point α) :
    (stamp.place anchor).map f = (stamp.map f).place (anchor.map f) := by
  simp only [Placement.map, Stamp.place, Stamp.map, hf.map_add_point, Point.map_mk, hf.quarters]

theorem map_trailingWire (anchor : Point α) :
    (trailingWire anchor).map f = trailingWire (anchor.map f) := by
  simp only [Placement.map, trailingWire, gatePitch, hf.map_add_point, Point.map_mk, hf.quarters]

theorem map_block (l : Layout) (cell : Nat × Nat) :
    (l.block cell).map (Placement.map f) = l.block cell := by
  have hanchor : (anchor l.grid.rowCount cell.2 cell.1).map f =
      anchor l.grid.rowCount cell.2 cell.1 := by
    simp only [Point.map, anchor, hf.map_columnX, hf.map_rowY]
  rw [block, block, cellPlacements, cellPlacements, ← hf.map_stamps, List.map_append,
    List.map_singleton, hf.map_trailingWire, hanchor, List.map_map, List.map_map]
  simp only [Function.comp_def, hf.map_place, hanchor]

theorem map_leadIn (rows : Nat) : (leadIn rows).map (Placement.map f) = leadIn rows := by
  simp only [leadIn, List.map_map, Function.comp_def, Placement.map, Point.map, hf.quarters,
    hf.map_rowY]

theorem map_placements (l : Layout) : l.placements.map (Placement.map f) = l.placements := by
  rw [placements_eq_cells, placements_eq_cells, List.map_append, List.map_flatMap, hf.map_leadIn]
  simp only [hf.map_block]

theorem map_bounds (l : Layout) : l.bounds.map f = l.bounds := by
  simp only [bounds, Bounds.map, Bounds.ofBottomLeft, hf.map_add_point, Point.map_mk, hf.quarters,
    hf.map_width, hf.map_height]

/-- The numbers of a layout are computed alike in all number types. -/
theorem map_numbers (l : Layout) : l.numbers.map f = l.numbers := by
  simp only [numbers, ← hf.map_placements, ← hf.map_bounds, List.map_append, List.map_map,
    List.map_flatMap, List.flatMap_map, List.map_cons, List.map_nil, Function.comp_def,
    Bounds.width, Bounds.height, hf.sub, hf.map_rowY, hf.map_columnX, Bounds.map, Placement.map,
    Point.map]

end ScalarHom

end CircuitPicture
