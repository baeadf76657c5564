/-! # Circuit symbols

The letters of a circuit text and what each of them stands for. Reading a letter and writing the
symbol back gives the same letter (`toChar_ofChar`). -/

namespace CircuitPicture

/-- One cell of a circuit: a gate, one row's share of a gate that spans several rows, or a
character without a meaning. -/
inductive Symbol where
  | identity
  | hadamard
  | pauliZ
  | pauliX
  | blank
  | cnotControlBottom
  | cnotControlTop
  | crossUp
  | crossDown
  | controlUpToGate
  | controlUp
  | controlDownToGate
  | controlDown
  | target
  | swapTop
  | swapBottom
  | unknown (char : Char)
deriving DecidableEq, Repr

namespace Symbol

/-- The symbols that every vocabulary draws, in table order. -/
def basic : List Symbol :=
  [identity, hadamard, pauliZ, pauliX, blank, cnotControlBottom, cnotControlTop]

/-- The symbols that only the extended vocabulary draws, in table order. -/
def spanning : List Symbol :=
  [crossUp, crossDown, controlUpToGate, controlUp, controlDownToGate, controlDown, target,
    swapTop, swapBottom]

def known : List Symbol := basic ++ spanning

def toChar : Symbol → Char
  | identity => 'I'
  | hadamard => 'H'
  | pauliZ => 'Z'
  | pauliX => 'X'
  | blank => 'B'
  | cnotControlBottom => 'C'
  | cnotControlTop => 'F'
  | crossUp => 'L'
  | crossDown => 'V'
  | controlUpToGate => 'U'
  | controlUp => 'P'
  | controlDownToGate => 'D'
  | controlDown => 'N'
  | target => 'O'
  | swapTop => 'S'
  | swapBottom => 'W'
  | unknown c => c

/-- The symbol that a character stands for; a character without a meaning is kept as it is. -/
def ofChar (c : Char) : Symbol :=
  (known.find? fun s => s.toChar == c).getD (unknown c)

def isKnown : Symbol → Bool
  | unknown _ => false
  | _ => true

def description : Symbol → String
  | identity => "identity (wire passes through)"
  | hadamard => "Hadamard gate"
  | pauliZ => "Pauli-Z gate"
  | pauliX => "Pauli-X gate"
  | blank => "blank, the other end of a C/F CNOT covers it"
  | cnotControlBottom => "CNOT control on the bottom, line goes up"
  | cnotControlTop => "CNOT control on the top, line goes down"
  | crossUp => "wire crossed by a line going up"
  | crossDown => "wire crossed by a line going down"
  | controlUpToGate => "control, line up to a gate box"
  | controlUp => "control, line up to the row above"
  | controlDownToGate => "control, line down to a gate box"
  | controlDown => "control, line down to the row below"
  | target => "CNOT/Toffoli target"
  | swapTop => "swap, top endpoint"
  | swapBottom => "swap, bottom endpoint with connecting line"
  | unknown _ => "unknown, draws nothing"

@[simp] theorem toChar_ofChar (c : Char) : (ofChar c).toChar = c := by
  unfold ofChar
  cases h : known.find? fun s => s.toChar == c with
  | none => rfl
  | some s => simpa using List.find?_some h

theorem mem_known {s : Symbol} : s ∈ known ↔ s.isKnown = true := by
  cases s <;> simp [known, basic, spanning, isKnown]

end Symbol

end CircuitPicture
