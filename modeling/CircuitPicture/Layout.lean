import CircuitPicture.Grid
import CircuitPicture.Vocabulary

/-! # Layout

A grid is drawn on a fixed raster. Every qubit has a band of one row pitch, qubit 0 on top. Every
time step has a gate column followed by a piece of wire, and one more piece of wire leads in from
the left edge. Placements come out time step by time step, and within a step from top to bottom. -/

namespace CircuitPicture

namespace Raster

variable {α : Type} [Scalar α]

open Scalar

/-- The space above the first band. -/
def topMargin : α := quarters 6

/-- The distance from the top of a band to its wire. -/
def wireDepth : α := quarters 3

/-- The distance between two rows. -/
def rowPitch : α := quarters 9

def wirePitch : α := quarters 6

def gatePitch : α := quarters 6

def stepPitch : α := wirePitch + gatePitch

def height (rows : Nat) : α := topMargin + ofNat rows * rowPitch

def width (columns : Nat) : α := stepPitch * ofNat columns + wirePitch

/-- The height of a qubit's wire in a picture with this many rows. -/
def rowY (rows qubit : Nat) : α := height rows - wireDepth - rowPitch * ofNat qubit

/-- The left edge of a time step's gate column. -/
def columnX (step : Nat) : α := wirePitch + stepPitch * ofNat step

end Raster

structure Layout where
  grid : Grid
  vocabulary : Vocabulary
deriving DecidableEq

namespace Layout

variable {α : Type} [Scalar α]

open Raster

/-- The wire from a gate column to the next one. -/
def trailingWire (anchor : Point α) : Placement α :=
  ⟨.wire, anchor + ⟨gatePitch, Scalar.quarters 0⟩⟩

/-- What a cell draws: its stamps, then its wire. -/
def cellPlacements (v : Vocabulary) (s : Symbol) (anchor : Point α) : List (Placement α) :=
  (v.stamps s).map (fun stamp => stamp.place anchor) ++ [trailingWire anchor]

def stepPlacements (v : Vocabulary) (rows : Nat) (x : α) (symbols : List Symbol) :
    List (Placement α) :=
  symbols.zipIdx.flatMap fun cell => cellPlacements v cell.1 ⟨x, rowY rows cell.2⟩

/-- The wires at the left edge of a picture with this many rows. -/
def leadIn (rows : Nat) : List (Placement α) :=
  (List.range rows).map fun qubit => ⟨.wire, ⟨Scalar.quarters 0, rowY rows qubit⟩⟩

def placements (l : Layout) : List (Placement α) :=
  let rows := l.grid.rowCount
  leadIn rows ++
    l.grid.steps.zipIdx.flatMap fun step =>
      stepPlacements l.vocabulary rows (columnX step.2) step.1

/-- The number of placements, counted from the symbols alone. -/
def placementCount (l : Layout) : Nat :=
  l.grid.rowCount +
    l.grid.symbols.foldr (fun s n => (l.vocabulary.stamps (α := Rat) s).length + n) 0 +
    l.grid.rowCount * l.grid.columnCount

/-- The rectangle of the picture, with its bottom left corner at the origin. -/
def bounds (l : Layout) : Bounds α :=
  .ofBottomLeft ⟨Scalar.quarters 0, Scalar.quarters 0⟩
    ⟨width l.grid.columnCount, height l.grid.rowCount⟩

end Layout

end CircuitPicture
