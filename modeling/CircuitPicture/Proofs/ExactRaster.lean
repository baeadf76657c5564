import CircuitPicture.Layout
import Mathlib.Algebra.Order.Ring.Rat
import Mathlib.Tactic.NormNum
import Mathlib.Tactic.Ring

/-! # The raster in exact numbers

Where rows and columns stand, and how large a picture is, as rational numbers. -/

namespace CircuitPicture

@[simp] theorem Point.add_x {α : Type} [Add α] (p q : Point α) : (p + q).x = p.x + q.x := rfl
@[simp] theorem Point.add_y {α : Type} [Add α] (p q : Point α) : (p + q).y = p.y + q.y := rfl

@[simp] theorem Scalar.quarters_rat (k : Int) : (Scalar.quarters k : Rat) = k / 4 := rfl

namespace Raster

@[simp] theorem columnX_rat (step : Nat) : (columnX step : Rat) = 3 / 2 + 3 * step := by
  change (6 : Int) / 4 + ((6 : Int) / 4 + (6 : Int) / 4) * (step : Rat) = _
  norm_num

@[simp] theorem rowY_rat (rows qubit : Nat) :
    (rowY rows qubit : Rat) = 3 / 4 + 9 / 4 * (rows - qubit) := by
  change (6 : Int) / 4 + (rows : Rat) * ((9 : Int) / 4) - (3 : Int) / 4 -
    (9 : Int) / 4 * (qubit : Rat) = _
  push_cast
  ring

@[simp] theorem width_rat (columns : Nat) : (width columns : Rat) = 3 * columns + 3 / 2 := by
  change ((6 : Int) / 4 + (6 : Int) / 4) * (columns : Rat) + (6 : Int) / 4 = _
  norm_num

@[simp] theorem height_rat (rows : Nat) : (height rows : Rat) = 3 / 2 + 9 / 4 * rows := by
  change (6 : Int) / 4 + (rows : Rat) * ((9 : Int) / 4) = _
  push_cast
  ring

end Raster

theorem Stamp.place_rat (stamp : Stamp Rat) (anchor : Point Rat) :
    stamp.place anchor = ⟨stamp.primitive, ⟨anchor.x, anchor.y + stamp.offset⟩⟩ := by
  have hx : anchor.x + ((0 : Int) : Rat) / 4 = anchor.x := by norm_num
  exact congrArg (fun x => (⟨stamp.primitive, ⟨x, anchor.y + stamp.offset⟩⟩ : Placement Rat)) hx

namespace Layout
open Raster

theorem trailingWire_rat (anchor : Point Rat) :
    trailingWire anchor = ⟨.wire, ⟨anchor.x + 3 / 2, anchor.y⟩⟩ := by
  have hx : anchor.x + ((6 : Int) : Rat) / 4 = anchor.x + 3 / 2 := by norm_num
  have hy : anchor.y + ((0 : Int) : Rat) / 4 = anchor.y := by norm_num
  exact congrArg₂ (fun x y => (⟨.wire, ⟨x, y⟩⟩ : Placement Rat)) hx hy

theorem bounds_rat (l : Layout) : (l.bounds : Bounds Rat) =
    ⟨⟨0, 0⟩, ⟨3 * l.grid.columnCount + 3 / 2, 3 / 2 + 9 / 4 * l.grid.rowCount⟩⟩ := by
  change (⟨_, _ + _⟩ : Bounds Rat) = _
  rw [width_rat, height_rat, Scalar.quarters_rat, Int.cast_zero, zero_div]
  exact congrArg (Bounds.mk _) (congrArg₂ Point.mk (zero_add _) (zero_add _))

end Layout

end CircuitPicture
