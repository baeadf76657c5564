import CircuitPicture.Grid
import CircuitPicture.Diagnostic
import CircuitPicture.Text.Line

/-! # Reading a grid

A circuit text is a grid if it has a line and all its lines have the same number of characters.
Otherwise one diagnostic says so and points at every line that differs from the first. -/

namespace CircuitPicture

namespace Diagnostic

def symbolCount (count : Nat) : String :=
  if count = 1 then "1 symbol" else toString count ++ " symbols"

/-- The diagnostic for a text that is not cut into lines. -/
def unsplit : Diagnostic where
  code := none
  message := "failed to split input into lines"
  labels := []
  help := none

def noLines : Diagnostic where
  code := some .noLines
  message := "you need at least one qubit line"
  labels := []
  help := some "add one line of gate symbols per qubit"

/-- The remark on the line that the others are compared with. -/
def firstLineLabel (first : Line) : Label where
  span := first.span
  message := "first qubit line has " ++ symbolCount first.text.length
  isPrimary := false

def mismatchLabel (expected : Nat) (line : Line) : Label where
  span := line.span
  message := symbolCount line.text.length ++ ", expected " ++ toString expected
  isPrimary := true

def irregular (first : Line) (mismatched : List Line) : Diagnostic where
  code := some .irregular
  message := "qubit lines must all be the same length"
  labels := firstLineLabel first :: mismatched.map (mismatchLabel first.text.length)
  help := some "qubit lines must be the same length; pad with `I` (identity) if necessary"

def misshapen (e : ShapeError) : Diagnostic where
  code := some .irregular
  message := e.message
  labels := []
  help := none

end Diagnostic

namespace Grid

def ofLines : List Line → Except ParseError Grid
  | [] => .error ⟨[.noLines]⟩
  | first :: rest =>
    let lines := first :: rest
    match lines.filter fun line => line.text.length != first.text.length with
    | [] =>
      match ofRows (lines.map fun line => line.text.map Symbol.ofChar) with
      | .ok grid => .ok grid
      | .error e => .error ⟨[.misshapen e]⟩
    | mismatched => .error ⟨[.irregular first mismatched]⟩

def parse (source : String) : Except ParseError Grid :=
  match Line.ofText source with
  | none => .error ⟨[.unsplit]⟩
  | some lines => ofLines lines

end Grid

end CircuitPicture
