import CircuitPicture.Toml.Reader

/-! # TOML strings

Strings in double quotes have escapes, those in single quotes have none. Either kind may run over
several lines between triple quotes. -/

namespace CircuitPicture.Toml.Reader

def hexDigit? (c : Char) : Option Nat :=
  if c.isDigit then some (c.toNat - '0'.toNat)
  else if 'a' ≤ c ∧ c ≤ 'f' then some (c.toNat - 'a'.toNat + 10)
  else if 'A' ≤ c ∧ c ≤ 'F' then some (c.toNat - 'A'.toNat + 10)
  else none

/-- A character given by a number of hexadecimal digits. -/
def codePoint (digits : Nat) : Reader Char := do
  let value ← (List.replicate digits ()).foldlM (fun value _ => do
    match hexDigit? (← next) with
    | some digit => return 16 * value + digit
    | none => failure) 0
  if value.isValidChar then return Char.ofNat value else failure

def escape : Reader Char := do
  match ← next with
  | 'b' => return '\x08'
  | 't' => return '\t'
  | 'n' => return '\n'
  | 'f' => return '\x0c'
  | 'r' => return '\r'
  | 'e' => return '\x1b'
  | '"' => return '"'
  | '\\' => return '\\'
  | 'x' => codePoint 2
  | 'u' => codePoint 4
  | 'U' => codePoint 8
  | _ => failure

/-- The rest of a string in double quotes. -/
def basicString : Reader String :=
  loop (fun text => do
    let text := text ++ (← takeWhile fun c => isTextChar c && c != '"' && c != '\\')
    if ← accept "\"" then return .done (String.ofList text)
    else
      expect "\\"
      return .again (text ++ [← escape])) ([] : List Char)

/-- The rest of a string in single quotes. -/
def literalString : Reader String := do
  let text ← takeWhile fun c => isTextChar c && c != '\''
  expect "'"
  return String.ofList text

/-- Takes a run of at most five quotes. -/
def quotes (quote : Char) : Reader Nat := fun input =>
  let count := (input.take 5).takeWhile (fun c => c == quote) |>.length
  some (count, input.drop count)

/-- Takes a line ending as it stands. -/
def keptNewline : Reader (List Char) := do
  if ← accept "\n" then return ['\n']
  else
    expect "\r\n"
    return ['\r', '\n']

/-- Skips the line ending and the blanks that a backslash at the end of a line hides, if that is
where the reader stands. -/
def hiddenNewline : Reader Bool := fun input =>
  let skipped : Reader Unit := do
    blanks
    if ← newline then
      loop (fun () => do
        blanks
        if ← newline then return .again () else return .done ()) ()
    else failure
  match skipped input with
  | some ((), rest) => some (true, rest)
  | none => some (false, input)

/-- The rest of a string between triple quotes, where `backslash` takes what follows a backslash. -/
def multiline (quote : Char) (isPlain : Char → Bool) (backslash : Reader (List Char)) :
    Reader String := do
  let _ ← newline
  loop (fun text => do
    let text := text ++ (← takeWhile fun c => isPlain c && c != quote)
    let count ← quotes quote
    if 3 ≤ count then
      return .done (String.ofList (text ++ List.replicate (count - 3) quote))
    else if 0 < count then return .again (text ++ List.replicate count quote)
    else if ← accept "\\" then return .again (text ++ (← backslash))
    else return .again (text ++ (← keptNewline))) ([] : List Char)

def multilineBasicString : Reader String :=
  multiline '"' (fun c => isTextChar c && c != '\\') do
    if ← hiddenNewline then return [] else return [← escape]

def multilineLiteralString : Reader String := multiline '\'' isTextChar failure

def string? : Reader (Option String) := do
  if ← accept "\"\"\"" then return some (← multilineBasicString)
  else if ← accept "'''" then return some (← multilineLiteralString)
  else if ← accept "\"" then return some (← basicString)
  else if ← accept "'" then return some (← literalString)
  else return none

end CircuitPicture.Toml.Reader
