import CircuitPicture.Proofs.DoubleQuarters
import CircuitPicture.Proofs.LayoutCells

/-! # The raster in doubles

The program gets to a stamp or to a wire by adding an offset to an anchor, of which one coordinate
is often zero, and measures the picture from edge to edge. For grids of every size the doubles that
come out are those of the plain formulas. -/

namespace CircuitPicture

namespace Raster
open Double

theorem width_double (columns : Nat) :
    (width columns : Float) = 3 * Float.ofNat columns + 1.5 := by
  have hstep : (stepPitch : Float) = 3 := by decide +kernel
  have hwire : (wirePitch : Float) = 1.5 := by decide +kernel
  rw [width, hstep, hwire]
  rfl

theorem height_double (rows : Nat) : (height rows : Float) = 1.5 + 2.25 * Float.ofNat rows := by
  have htop : (topMargin : Float) = 1.5 := by decide +kernel
  have hrow : (rowPitch : Float) = 2.25 := by decide +kernel
  rw [height, htop, hrow, Double.mul_comm]
  rfl

theorem columnX_double (step : Nat) : (columnX step : Float) = 1.5 + 3 * Float.ofNat step := by
  have hstep : (stepPitch : Float) = 3 := by decide +kernel
  have hwire : (wirePitch : Float) = 1.5 := by decide +kernel
  rw [columnX, hstep, hwire]
  rfl

theorem ne_negativeZero_margin : (1.5 : Float) ≠ negativeZero := by decide +kernel

theorem width_ne_negativeZero (columns : Nat) : (width columns : Float) ≠ negativeZero := by
  rw [width_double, Double.add_comm]
  exact add_ne_negativeZero ne_negativeZero_margin _

theorem height_ne_negativeZero (rows : Nat) : (height rows : Float) ≠ negativeZero := by
  rw [height_double]
  exact add_ne_negativeZero ne_negativeZero_margin _

theorem columnX_ne_negativeZero (step : Nat) : (columnX step : Float) ≠ negativeZero := by
  rw [columnX_double]
  exact add_ne_negativeZero ne_negativeZero_margin _

theorem rowY_ne_negativeZero (rows qubit : Nat) : (rowY rows qubit : Float) ≠ negativeZero :=
  sub_ne_negativeZero (sub_ne_negativeZero (height_ne_negativeZero rows) _) _

/-- Up to here the wires behind the gate columns stand at multiples of the step, not only nearly. -/
theorem wire_double {step : Nat} (h : step ≤ 2 ^ 49) :
    (1.5 : Float) + 3 * Float.ofNat step + 1.5 = 3 + 3 * Float.ofNat step := by
  have hhalf : (1.5 : Float) = quarter 6 := by decide +kernel
  have hthree : (3 : Float) = quarter (12 : Nat) := by decide +kernel
  have hsteps : (3 : Float) * Float.ofNat step = quarter (12 * step) := by
    have hmul := quarter_mul (j := 12) (k := 4 * step) (l := 12 * step) (by decide) (by omega)
      (by omega) (by omega)
    rw [hthree, ofNat_eq_quarter (by omega)]
    exact_mod_cast hmul
  rw [hsteps, hhalf, hthree, quarter_add (by decide) (by omega) (by omega),
    quarter_add (by omega) (by decide) (by omega), quarter_add (by decide) (by omega) (by omega)]
  congr 1
  push_cast
  omega

end Raster

namespace Layout
open Raster Double

theorem width_bounds_double (l : Layout) :
    (l.bounds : Bounds Float).width = 3 * Float.ofNat l.grid.columnCount + 1.5 := by
  change (0 : Float) + width l.grid.columnCount - 0 = _
  rw [Double.sub_zero, Double.zero_add (width_ne_negativeZero _), width_double]

theorem height_bounds_double (l : Layout) :
    (l.bounds : Bounds Float).height = 1.5 + 2.25 * Float.ofNat l.grid.rowCount := by
  change (0 : Float) + height l.grid.rowCount - 0 = _
  rw [Double.sub_zero, Double.zero_add (height_ne_negativeZero _), height_double]

theorem low_bounds_double (l : Layout) : (l.bounds : Bounds Float).low = ⟨0, 0⟩ := rfl

/-- What a cell draws at these coordinates: its stamps, then the wire behind its gate column. -/
def drawnCell (v : Vocabulary) (s : Symbol) (x y : Float) : List (Placement Float) :=
  (v.stamps s).map (fun stamp => ⟨stamp.primitive, ⟨x, y + stamp.offset⟩⟩) ++
    [⟨.wire, ⟨x + 1.5, y⟩⟩]

/-- What a grid draws: a wire for each qubit at the left edge, then the cells, time step by time
step and within a step from top to bottom. -/
def drawn (l : Layout) : List (Placement Float) :=
  let rows := l.grid.rowCount
  (List.range rows).map (fun qubit => ⟨.wire, ⟨0, rowY rows qubit⟩⟩) ++
    (List.range l.grid.columnCount).flatMap fun step =>
      (List.range rows).flatMap fun qubit =>
        drawnCell l.vocabulary (l.grid.symbolAt qubit step) (1.5 + 3 * Float.ofNat step)
          (rowY rows qubit)

theorem cellPlacements_eq_drawnCell (v : Vocabulary) (s : Symbol) {anchor : Point Float}
    (hx : anchor.x ≠ negativeZero) (hy : anchor.y ≠ negativeZero) :
    cellPlacements v s anchor = drawnCell v s anchor.x anchor.y := by
  have hstamp : ∀ stamp : Stamp Float,
      stamp.place anchor = ⟨stamp.primitive, ⟨anchor.x, anchor.y + stamp.offset⟩⟩ := by
    intro stamp
    change (⟨stamp.primitive, ⟨anchor.x + 0, anchor.y + stamp.offset⟩⟩ : Placement Float) = _
    rw [Double.add_zero hx]
  have hwire : trailingWire anchor = ⟨.wire, ⟨anchor.x + 1.5, anchor.y⟩⟩ := by
    have hgate : (gatePitch : Float) = 1.5 := by decide +kernel
    change (⟨.wire, ⟨anchor.x + gatePitch, anchor.y + 0⟩⟩ : Placement Float) = _
    rw [Double.add_zero hy, hgate]
  rw [cellPlacements, drawnCell, hwire, funext hstamp]

theorem placements_eq_drawn (l : Layout) : l.placements = l.drawn := by
  have hblock : ∀ step qubit, l.block (step, qubit) =
      drawnCell l.vocabulary (l.grid.symbolAt qubit step) (1.5 + 3 * Float.ofNat step)
        (rowY l.grid.rowCount qubit) := by
    intro step qubit
    rw [block, cellPlacements_eq_drawnCell _ _ (columnX_ne_negativeZero step)
      (rowY_ne_negativeZero _ qubit), anchor, columnX_double]
  rw [placements_eq, drawn]
  simp only [hblock]
  rfl

end Layout

end CircuitPicture
