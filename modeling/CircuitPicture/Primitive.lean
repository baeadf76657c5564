import CircuitPicture.Geometry

/-! # Drawing primitives

The boxes that a picture is put together from. A primitive has a key, by which configuration
refers to it, and a default box name, by which the picture does. -/

namespace CircuitPicture

inductive Primitive where
  /-- The wire between two gate columns. -/
  | wire
  /-- The wire through a gate column. -/
  | throughWire
  | hadamard
  | pauliZ
  | pauliX
  | cnotControlTop
  | cnotControlBottom
  | controlDot
  /-- A vertical line up to the wire above. -/
  | lineUpTouching
  /-- A vertical line up to the gate box above. -/
  | lineUpRoom
  | xor
  /-- The piece that covers the seam of an `xor`. -/
  | xorFixer
  | swap
deriving DecidableEq, Repr

namespace Primitive

/-- Every primitive, in the order in which they are listed and checked. -/
def all : List Primitive :=
  [wire, throughWire, hadamard, pauliZ, pauliX, cnotControlTop, cnotControlBottom, controlDot,
    lineUpTouching, lineUpRoom, xor, xorFixer, swap]

def defaultName : Primitive → String
  | wire => "gatesep"
  | throughWire => "gateunder"
  | hadamard => "hgate"
  | pauliZ => "zgate"
  | pauliX => "xgate"
  | cnotControlTop => "cnotA"
  | cnotControlBottom => "cnotB"
  | controlDot => "ctrldot"
  | lineUpTouching => "lineuptouch"
  | lineUpRoom => "lineuproom"
  | xor => "xorsym"
  | xorFixer => "xorfixer"
  | swap => "swapsym"

def key : Primitive → String
  | wire => "wire"
  | throughWire => "through_wire"
  | hadamard => "hadamard"
  | pauliZ => "pauli_z"
  | pauliX => "pauli_x"
  | cnotControlTop => "cnot_control_top"
  | cnotControlBottom => "cnot_control_bottom"
  | controlDot => "control_dot"
  | lineUpTouching => "line_up_touching"
  | lineUpRoom => "line_up_room"
  | xor => "xor"
  | xorFixer => "xor_fixer"
  | swap => "swap"

def ofKey? (key : String) : Option Primitive := all.find? fun p => p.key == key

@[simp] theorem mem_all (p : Primitive) : p ∈ all := by
  cases p <;> simp [all]

theorem ofKey?_key (p : Primitive) : ofKey? p.key = some p := by
  cases p <;> decide

end Primitive

structure Placement (α : Type) where
  primitive : Primitive
  position : Point α
deriving DecidableEq, Repr

end CircuitPicture
