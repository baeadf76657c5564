import CircuitPicture.Toml.DateTime
import CircuitPicture.Toml.Number
import CircuitPicture.Toml.Text
import CircuitPicture.Toml.Value

/-! # TOML documents

A document is a list of lines: an entry, a header that opens a table for the entries after it, or
nothing. -/

namespace CircuitPicture.Toml

namespace Reader

/-- Whether a character may stand in a value that is not quoted. -/
def isBareValueChar (c : Char) : Bool := !"=,[]\x7b\x7d \t#\r\n".toList.contains c

def isBareKeyChar (c : Char) : Bool := c.isAlphanum || c == '_' || c == '-'

def simpleKey : Reader String := do
  if ← accept "\"" then basicString
  else if ← accept "'" then literalString
  else
    let key ← takeWhile isBareKeyChar
    if key.isEmpty then failure else return String.ofList key

/-- How deep arrays and tables in braces may nest, and how many parts a key may have. -/
def maxDepth : Nat := 80

/-- A key with the blanks after it: the parts in front of its last dot, and the last part. -/
def key : Reader (List String × String) := do
  let first ← simpleKey
  let (path, last) ← loop (fun (path, last) => do
    blanks
    if ← accept "." then
      blanks
      return .again (path ++ [last], ← simpleKey)
    else return .done (path, last)) (([] : List String), first)
  if path.length < maxDepth then return (path, last) else failure

/-- Takes blanks if a value without quotes goes on after them. -/
def innerBlanks : Reader (List Char) := fun input =>
  match input.dropWhile isBlankChar with
  | [] => some ([], input)
  | c :: rest =>
    if isBareValueChar c && c != '"' && c != '\'' then
      some (input.takeWhile isBlankChar, c :: rest)
    else some ([], input)

/-- Takes a text without quotes. It may have blanks in it, as a date with its time has. -/
def bareText : Reader (List Char) :=
  loop (fun text => do
    let text := text ++ (← takeWhile isBareValueChar)
    let blanks ← innerBlanks
    if blanks.isEmpty then return .done text else return .again (text ++ blanks)) ([] : List Char)

def bareValue? (text : List Char) : Option Value :=
  if text == ['t', 'r', 'u', 'e'] then some (.boolean true)
  else if text == ['f', 'a', 'l', 's', 'e'] then some (.boolean false)
  else if isDateTime text then some (.dateTime (String.ofList text))
  else number? text

def scalar : Reader Value := do
  match ← string? with
  | some text => return .string text
  | none =>
    match bareValue? (← bareText) with
    | some value => return value
    | none => failure

/-- The rest of an array with the given kind of items. -/
def array (item : Reader Value) : Reader Value :=
  loop (fun items => do
    gap
    if ← accept "]" then return .done (.array false items)
    let items := items ++ [← item]
    gap
    if ← accept "," then return .again items
    expect "]"
    return .done (.array false items)) ([] : List Value)

/-- An entry, added to the ones in front of it; `space` may stand around its equals sign. -/
def entry (space : Reader Unit) (item : Reader Value)
    (add : List String → String → Value → Option Entries) : Reader Entries := do
  let (path, last) ← key
  space
  expect "="
  space
  let value ← item
  match add path last value with
  | some entries => return entries
  | none => failure

/-- The rest of a table in braces with the given kind of values. -/
def inlineTable (item : Reader Value) : Reader Value :=
  loop (fun entries => do
    gap
    if ← accept "\x7d" then return .done (.table .inlined entries)
    let entries ← entry gap item fun path last value => Entries.insert last value path entries
    gap
    if ← accept "," then return .again entries
    expect "\x7d"
    return .done (.table .inlined entries)) ([] : Entries)

/-- A value in which arrays and tables nest at most to the given depth. -/
def value : Nat → Reader Value
  | 0 => scalar
  | depth + 1 => do
    if ← accept "[" then array (value depth)
    else if ← accept "\x7b" then inlineTable (value depth)
    else scalar

/-- A document in the making: what it holds, and the header in force. -/
structure Draft where
  entries : Entries
  header : List String

/-- A header, which opens a table or the next table of an array. -/
def header (draft : Draft) : Reader Draft := do
  let isElement ← accept "[["
  if !isElement then expect "["
  blanks
  let (path, last) ← key
  expect (if isElement then "]]" else "]")
  let opened :=
    if isElement then Entries.openElement path last draft.entries
    else Entries.openTable path last draft.entries
  match opened with
  | some entries => return ⟨entries, path ++ [last]⟩
  | none => failure

def line (draft : Draft) : Reader Draft := do
  blanks
  match ← peek? with
  | none => return draft
  | some c =>
    if c == '#' || c == '\n' || c == '\r' then return draft
    else if c == '[' then header draft
    else
      let entries ← entry blanks (value maxDepth) fun path last value =>
        Entries.atHeader (Entries.insert last value path) draft.header draft.entries
      return { draft with entries }

/-- All lines up to the end of the text. -/
def document : Reader Entries :=
  loop (fun draft => do
    let draft ← line draft
    lineEnd
    if (← peek?).isNone then return .done draft.entries else return .again draft)
    (⟨[], []⟩ : Draft)

end Reader

/-- The entries of a document, unless it has a fault. A byte order mark in front is skipped. -/
def parse? (text : String) : Option Entries :=
  let input := match text.toList with
    | '\ufeff' :: rest => rest
    | input => input
  match Reader.document input with
  | some (entries, []) => some entries
  | _ => none

end CircuitPicture.Toml
