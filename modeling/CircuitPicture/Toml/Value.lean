/-! # TOML values

The values of a TOML document. A table remembers how it came about, and an array whether it is an
array of tables, because that decides what later lines may add to it. -/

namespace CircuitPicture.Toml

inductive TableOrigin where
  /-- By a header of its own, `[a]`. -/
  | header
  /-- By a longer header, such as `[a.b]` for `a`. -/
  | implied
  /-- By a dotted key, such as `a.b = 1` for `a`. -/
  | dotted
  /-- In braces; nothing can be added to it. -/
  | inlined
deriving DecidableEq, Repr

inductive Value where
  | string (text : String)
  /-- An integer, unless what was written cannot be read as one. -/
  | integer (value : Option Int)
  /-- A float as it was written, and whether doubles go that far. -/
  | float (text : String) (inRange : Bool)
  | boolean (value : Bool)
  | dateTime (text : String)
  /-- An array; `ofTables` if it is made of `[[a]]` headers. -/
  | array (ofTables : Bool) (items : List Value)
  | table (origin : TableOrigin) (entries : List (String × Value))

mutual

/-- Whether all numbers in a value can be read. A number that cannot is a fault only where somebody
looks at it. -/
def Value.isReadable : Value → Bool
  | .integer value => value.isSome
  | .float _ inRange => inRange
  | .array _ items => areReadable items
  | .table _ entries => entriesAreReadable entries
  | _ => true

def areReadable : List Value → Bool
  | [] => true
  | value :: rest => value.isReadable && areReadable rest

def entriesAreReadable : List (String × Value) → Bool
  | [] => true
  | (_, value) :: rest => value.isReadable && entriesAreReadable rest

end

/-- The entries of a table in the order in which they came. -/
abbrev Entries := List (String × Value)

namespace Entries

/-- Sets the value of a key from the one it has, if any. -/
def update (key : String) (f : Option Value → Option Value) : Entries → Option Entries
  | [] => (f none).map fun v => [(key, v)]
  | (k, v) :: rest =>
    if k = key then (f (some v)).map fun v => (k, v) :: rest
    else (update key f rest).map fun rest => (k, v) :: rest

def updateLast (f : Entries → Option Entries) (items : List Value) : Option Value :=
  match items.getLast? with
  | some (.table origin entries) =>
    (f entries).map fun entries => .array true (items.dropLast ++ [.table origin entries])
  | _ => none

/-- Changes the table at the end of a header's path. Tables on the way that are missing are
implied; of an array of tables the last one counts. -/
def atHeader (f : Entries → Option Entries) : List String → Entries → Option Entries
  | [], entries => f entries
  | key :: path, entries =>
    entries.update key fun
      | none => (atHeader f path []).map (.table .implied)
      | some (.table origin inner) =>
        if origin = .inlined then none else (atHeader f path inner).map (.table origin)
      | some (.array true items) => updateLast (atHeader f path) items
      | some _ => none

/-- Opens the table of a header `[path.key]`. -/
def openTable (path : List String) (key : String) : Entries → Option Entries :=
  atHeader (update key fun
    | none => some (.table .header [])
    | some (.table .implied entries) => some (.table .header entries)
    | some _ => none) path

/-- Opens the next table of the array of a header `[[path.key]]`. -/
def openElement (path : List String) (key : String) : Entries → Option Entries :=
  atHeader (update key fun
    | none => some (.array true [.table .header []])
    | some (.array true items) => some (.array true (items ++ [.table .header []]))
    | some _ => none) path

/-- Adds the entry `path.key = value`. A dotted key leads through tables without a header of their
own, which from then on cannot have one, and through the last table of an array of tables; but it
does not end in the latter. -/
def insert (key : String) (value : Value) : List String → Entries → Option Entries
  | [], entries => entries.update key fun
    | none => some value
    | some _ => none
  | step :: path, entries =>
    entries.update step fun
      | none => (insert key value path []).map (.table .dotted)
      | some (.table .dotted inner) => (insert key value path inner).map (.table .dotted)
      | some (.table .implied inner) => (insert key value path inner).map (.table .dotted)
      | some (.array true items) =>
        if path.isEmpty then none else updateLast (insert key value path) items
      | some _ => none

end Entries

end CircuitPicture.Toml
