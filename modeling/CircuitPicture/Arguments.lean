import CircuitPicture.Help

/-! # Command-line arguments

A command line names one input and may set options. An option's value stands in the same argument
or in the next one; what comes after `--` is no option. A value that is missing or given twice is
noticed only when the next item is taken, so an item that is not understood is reported first. -/

namespace CircuitPicture

structure Arguments where
  input : String
  /-- The file to write; standard output if there is none. -/
  output : Option String
  config : Option String
  vocabulary : Option String
  standalone : Bool
  logLevel : String
deriving DecidableEq, Repr

inductive Invocation where
  | run (arguments : Arguments)
  | shortHelp
  | longHelp
  | version
deriving DecidableEq, Repr

inductive UsageError where
  | missingInput
  | unexpectedArgument
  | missingValue
  | unexpectedValue
  | repeated
deriving DecidableEq, Repr

inductive ValueOption where
  | output
  | config
  | vocabulary
  | logLevel
deriving DecidableEq, Repr

namespace ValueOption

def all : List ValueOption := [output, config, vocabulary, logLevel]

def longName : ValueOption → String
  | output => "output"
  | config => "config"
  | vocabulary => "vocabulary"
  | logLevel => "log-level"

def letter? : ValueOption → Option Char
  | output => some 'o'
  | config => some 'c'
  | _ => none

end ValueOption

inductive ArgumentItem where
  /-- An input, or the value of the option before it. -/
  | plain (text : String)
  | option (o : ValueOption) (value : Option String)
  | standalone
  /-- A request that ends the reading. -/
  | stop (request : Invocation)
  | unknown
  | flagWithValue
deriving DecidableEq, Repr

namespace ArgumentItem

def flag? (name : List Char) : Option ArgumentItem :=
  [("standalone", standalone), ("help", stop .longHelp), ("version", stop .version)].lookup
    (String.ofList name)

def ofLong (text : List Char) : ArgumentItem :=
  let name := text.takeWhile fun c => c != '='
  let value := match text.dropWhile fun c => c != '=' with
    | [] => none
    | _ :: value => some (String.ofList value)
  match ValueOption.all.find? fun o => o.longName.toList == name with
  | some o => option o value
  | none =>
    match flag? name with
    | some item => if value.isSome then flagWithValue else item
    | none => unknown

def ofShort (letter : Char) (text : List Char) : ArgumentItem :=
  if letter == 'h' then stop .shortHelp
  else if letter == 'V' then stop .version
  else
    match ValueOption.all.find? fun o => o.letter? == some letter with
    | none => unknown
    | some o =>
      match text with
      | [] => option o none
      | '=' :: value => option o (some (String.ofList value))
      | value => option o (some (String.ofList value))

def ofText (text : String) : ArgumentItem :=
  match text.toList with
  | '-' :: '-' :: rest => ofLong rest
  | '-' :: letter :: rest => ofShort letter rest
  | _ => plain text

end ArgumentItem

namespace Arguments

structure Draft where
  input : Option String
  values : ValueOption → Option String
  standalone : Bool
  /-- The last option, which is not yet set, and its value if that has come. -/
  pending : Option (ValueOption × Option String)

namespace Draft

def empty : Draft := ⟨none, fun _ => none, false, none⟩

/-- Sets the pending option. -/
def settle (d : Draft) : Except UsageError Draft :=
  match d.pending with
  | none => .ok d
  | some (_, none) => .error .missingValue
  | some (o, some value) =>
    if (d.values o).isSome then .error .repeated
    else .ok {
      d with
      values := fun p => if p = o then some value else d.values p
      pending := none }

def setInput (d : Draft) (text : String) : Except UsageError Draft :=
  match d.input with
  | some _ => .error .unexpectedArgument
  | none => do return { ← d.settle with input := some text }

/-- Takes an argument that is no option: the value of the pending option or the input. -/
def setPlain (d : Draft) (text : String) : Except UsageError Draft :=
  match d.pending with
  | some (o, none) => .ok { d with pending := some (o, some text) }
  | _ => d.setInput text

/-- Takes an option. One with its value is set at once. -/
def setOption (d : Draft) (o : ValueOption) (value : Option String) : Except UsageError Draft := do
  let d := { ← d.settle with pending := some (o, value) }
  if value.isSome then d.settle else return d

def setStandalone (d : Draft) : Except UsageError Draft := do
  let d ← d.settle
  if d.standalone then .error .repeated else return { d with standalone := true }

def close (d : Draft) : Except UsageError Invocation := do
  let d ← d.settle
  match d.input with
  | none => .error .missingInput
  | some input => return .run {
      input := input
      output := d.values .output
      config := d.values .config
      vocabulary := d.values .vocabulary
      standalone := d.standalone
      logLevel := (d.values .logLevel).getD "warn" }

def readPlain (d : Draft) : List String → Except UsageError Invocation
  | [] => d.close
  | text :: rest => do (← d.setInput text).readPlain rest

/-- Reads the arguments up to the first that ends the reading. -/
def read (d : Draft) : List String → Except UsageError Invocation
  | [] => d.close
  | text :: rest =>
    if text = "--" then d.readPlain rest
    else
      match ArgumentItem.ofText text with
      | .plain text => do (← d.setPlain text).read rest
      | .option o value => do (← d.setOption o value).read rest
      | .standalone => do (← d.setStandalone).read rest
      | .stop request => do
        let _ ← d.settle
        return request
      | .unknown => .error .unexpectedArgument
      | .flagWithValue => .error .unexpectedValue

end Draft

end Arguments

namespace Invocation

def ofArguments (arguments : List String) : Except UsageError Invocation :=
  Arguments.Draft.empty.read arguments

end Invocation

namespace UsageError

def reason : UsageError → String
  | missingInput => "one or more required arguments were not provided"
  | unexpectedArgument => "unexpected argument found"
  | missingValue => "one of the values isn't valid for an argument"
  | unexpectedValue => "unexpected value for an argument found"
  | repeated =>
    "an argument cannot be used with one or more of the other specified arguments"

def message (e : UsageError) : String := e.reason ++ ". " ++ Help.usage

end UsageError

end CircuitPicture
