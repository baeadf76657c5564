/-! # Reading characters

A reader takes characters from the front of a text, or fails. -/

namespace CircuitPicture.Toml

abbrev Reader := StateT (List Char) Option

/-- What one round of a loop comes to. -/
inductive Round (β γ : Type) where
  | again (state : β)
  | done (result : γ)

namespace Reader

def peek? : Reader (Option Char) := fun input => some (input.head?, input)

def next : Reader Char
  | [] => none
  | c :: rest => some (c, rest)

/-- Takes characters as long as they are in the class. -/
def takeWhile (p : Char → Bool) : Reader (List Char) := fun input =>
  some (input.takeWhile p, input.dropWhile p)

/-- Takes the text if it comes next. -/
def accept (text : String) : Reader Bool := fun input =>
  if text.toList.isPrefixOf input then some (true, input.drop text.length) else some (false, input)

/-- Takes the text, which has to come next. -/
def expect (text : String) : Reader Unit := do
  if ← accept text then pure () else failure

/-- Rounds of a loop until one is the last; a round that takes nothing may only be the last. -/
def loop {β γ : Type} (round : β → Reader (Round β γ)) (state : β) : Reader γ := fun input =>
  match round state input with
  | none => none
  | some (.done result, rest) => some (result, rest)
  | some (.again state, rest) =>
    if rest.length < input.length then loop round state rest else none
termination_by input => input.length

/-- Whether a character may stand in a comment or a string. -/
def isTextChar (c : Char) : Bool := c == '\t' || (decide (' ' ≤ c) && c != '\x7f')

def isBlankChar (c : Char) : Bool := c == ' ' || c == '\t'

def blanks : Reader Unit := do
  let _ ← takeWhile isBlankChar

def newline : Reader Bool := do
  if ← accept "\n" then return true else accept "\r\n"

def comment : Reader Unit := do
  if ← accept "#" then
    let text ← takeWhile fun c => c != '\n' && c != '\r'
    if text.all isTextChar then pure () else failure

def gap : Reader Unit :=
  loop (fun () => do
    blanks
    comment
    if ← newline then return .again () else return .done ()) ()

/-- Skips what may stand between an expression and the end of its line. -/
def lineEnd : Reader Unit := do
  blanks
  comment
  if ← newline then pure ()
  else if (← peek?).isNone then pure ()
  else failure

end Reader

end CircuitPicture.Toml
