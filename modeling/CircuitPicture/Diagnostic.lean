import CircuitPicture.Text.Span

/-! # Diagnostics

What is wrong with a circuit text, and where. -/

namespace CircuitPicture

inductive FaultCode where
  | noLines
  | irregular
deriving DecidableEq, Repr

namespace FaultCode

def text : FaultCode → String
  | noLines => "E100"
  | irregular => "E101"

end FaultCode

structure Label where
  span : Span
  message : String
  /-- Whether this piece is the fault itself, and not what it is compared with. -/
  isPrimary : Bool
deriving DecidableEq, Repr

structure Diagnostic where
  code : Option FaultCode
  message : String
  labels : List Label
  help : Option String
deriving DecidableEq, Repr

namespace Diagnostic

/-- The diagnostic in one line: its code, if it has one, and its message. -/
def text (d : Diagnostic) : String :=
  match d.code with
  | some code => "error[" ++ code.text ++ "]: " ++ d.message
  | none => "error: " ++ d.message

end Diagnostic

structure ParseError where
  diagnostics : List Diagnostic
deriving DecidableEq, Repr

namespace ParseError

/-- The first diagnostic, and how many follow it. -/
def text (e : ParseError) : String :=
  match e.diagnostics with
  | [] => ""
  | [first] => first.text
  | first :: rest => first.text ++ " (+" ++ toString rest.length ++ " more)"

def code (e : ParseError) : Option FaultCode := e.diagnostics.head?.bind Diagnostic.code

end ParseError

end CircuitPicture
