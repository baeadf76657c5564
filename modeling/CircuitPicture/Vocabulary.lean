import CircuitPicture.Symbol
import CircuitPicture.Primitive

/-! # Vocabularies

A vocabulary says what each symbol draws: a list of stamps, each a primitive with a vertical offset
from the cell's anchor. No symbol looks at its neighbours, so a gate that spans several rows is put
together from the rows' own stamps. -/

namespace CircuitPicture

inductive Vocabulary where
  | minimal
  | extended
deriving DecidableEq, Repr

/-- A primitive with its vertical offset from the anchor of a cell. -/
structure Stamp (α : Type) where
  primitive : Primitive
  offset : α
deriving DecidableEq, Repr

namespace Stamp

variable {α : Type} [Scalar α]

def place (stamp : Stamp α) (anchor : Point α) : Placement α :=
  ⟨stamp.primitive, anchor + ⟨Scalar.quarters 0, stamp.offset⟩⟩

def onAnchor (p : Primitive) : Stamp α := ⟨p, Scalar.quarters 0⟩

/-- A primitive one row below the anchor. -/
def oneRowDown (p : Primitive) : Stamp α := ⟨p, Scalar.quarters (-9)⟩

/-- A primitive below the anchor that ends at the gate box of the next row. -/
def downToGate (p : Primitive) : Stamp α := ⟨p, Scalar.quarters (-6)⟩

end Stamp

namespace Symbol

variable {α : Type} [Scalar α]

def stamps : Symbol → List (Stamp α)
  | identity => [.onAnchor .throughWire]
  | hadamard => [.onAnchor .hadamard]
  | pauliZ => [.onAnchor .pauliZ]
  | pauliX => [.onAnchor .pauliX]
  | blank => []
  | cnotControlBottom => [.onAnchor .cnotControlBottom]
  | cnotControlTop => [.onAnchor .cnotControlTop]
  | crossUp => [.onAnchor .throughWire, .onAnchor .lineUpTouching]
  | crossDown => [.onAnchor .throughWire, .oneRowDown .lineUpTouching]
  | controlUpToGate => [.onAnchor .controlDot, .onAnchor .lineUpRoom]
  | controlUp => [.onAnchor .controlDot, .onAnchor .lineUpTouching]
  | controlDownToGate => [.onAnchor .controlDot, .downToGate .lineUpRoom]
  | controlDown => [.onAnchor .controlDot, .oneRowDown .lineUpTouching]
  | target => [.onAnchor .xor, .onAnchor .xorFixer]
  | swapTop => [.onAnchor .swap]
  | swapBottom => [.onAnchor .swap, .onAnchor .lineUpTouching]
  | unknown _ => []

end Symbol

namespace Vocabulary

def standard : Vocabulary := extended

def name : Vocabulary → String
  | minimal => "minimal"
  | extended => "extended"

/-- The vocabulary with the given name, spelt exactly. -/
def ofName? (name : String) : Option Vocabulary :=
  [minimal, extended].find? fun v => v.name == name

def unsupported : String := "Unsupported vocabulary"

/-- The symbols with a meaning, in table order. -/
def symbols : Vocabulary → List Symbol
  | minimal => Symbol.basic
  | extended => Symbol.known

def contains (v : Vocabulary) (s : Symbol) : Bool := decide (s ∈ v.symbols)

/-- What a symbol draws; one without a meaning draws nothing. -/
def stamps {α : Type} [Scalar α] (v : Vocabulary) (s : Symbol) : List (Stamp α) :=
  if v.contains s then s.stamps else []

theorem ofName?_eq_some_iff {name : String} {v : Vocabulary} :
    ofName? name = some v ↔ v.name = name := by
  constructor
  · intro h
    simpa using List.find?_some h
  · rintro rfl
    cases v <;> decide

theorem contains_extended (s : Symbol) : extended.contains s = s.isKnown := by
  cases s <;> simp [contains, symbols, Symbol.known, Symbol.basic, Symbol.spanning, Symbol.isKnown]

@[simp] theorem stamps_extended {α : Type} [Scalar α] (s : Symbol) :
    extended.stamps (α := α) s = s.stamps := by
  unfold stamps
  rw [contains_extended]
  cases s <;> rfl

end Vocabulary

end CircuitPicture
