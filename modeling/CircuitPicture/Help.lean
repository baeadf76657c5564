import CircuitPicture.Vocabulary

/-! # Help

What the program says about itself: the short help lists the options one to a line, the long help
gives each of them a paragraph and explains the symbols. -/

namespace CircuitPicture

namespace Help

def version : String := "qcircuit 0.1.0"

def about : String := "Command-line interface for the qcircuit picture compiler"

def usage : String := "Usage: qcircuit [OPTIONS] <INPUT>"

structure Entry where
  spelling : String
  text : String
  standard : Option String
deriving DecidableEq, Repr

def input : Entry := ⟨"<INPUT>", "Path to the input file", none⟩

/-- The options, where the last but one is told where to find the other help. -/
def options (otherHelp : String) : List Entry :=
  [⟨"-o, --output <OUTPUT>", "Write the picture to this file instead of standard output", none⟩,
    ⟨"-c, --config <CONFIG>", "Path to configuration file (TOML)", none⟩,
    ⟨"    --vocabulary <VOCABULARY>",
      "Symbol vocabulary (minimal, extended), overrides the configuration", none⟩,
    ⟨"    --standalone", "Wrap the picture in a standalone LaTeX document", none⟩,
    ⟨"    --log-level <LOG_LEVEL>", "Log level (off, error, warn, info, debug, trace)",
      some "warn"⟩,
    ⟨"-h, --help", "Print help (" ++ otherHelp ++ ")", none⟩,
    ⟨"-V, --version", "Print version", none⟩]

namespace Entry

def standardNote (e : Entry) : Option String :=
  e.standard.map fun value => "[default: " ++ value ++ "]"

/-- The entry on one line, its text in the column `width` to the right of its spelling. -/
def line (width : Nat) (e : Entry) : String :=
  "  " ++ e.spelling ++ String.ofList (List.replicate (width - e.spelling.length) ' ') ++ "  " ++
    e.text ++ (match e.standardNote with | some note => " " ++ note | none => "")

def indented (text : String) : String := "          " ++ text

def paragraph (e : Entry) : List String :=
  ["  " ++ e.spelling, indented e.text] ++
    (match e.standardNote with | some note => [indented "", indented note] | none => [])

end Entry

def compact (entries : List Entry) : List String :=
  let width := entries.foldl (fun width e => max width e.spelling.length) 0
  entries.map (Entry.line width)

def spacious (entries : List Entry) : List String :=
  [""].intercalate (entries.map Entry.paragraph)

def sections (layOut : List Entry → List String) (otherHelp : String) : List String :=
  [about, "", usage, "", "Arguments:"] ++ layOut [input] ++ ["", "Options:"] ++
    layOut (options otherHelp)

def symbolLine (s : Symbol) : String :=
  "  " ++ String.ofList [s.toChar] ++ "  " ++ s.description

def symbolLines : List String :=
  ["Circuit files hold one line of symbols per qubit, top to bottom. Every",
    "column is one time step, and all lines must have the same length.",
    "",
    "Symbols:"] ++
  Vocabulary.minimal.symbols.map symbolLine ++
  ["", "Extended vocabulary only:"] ++
  (Vocabulary.extended.symbols.filter fun s => !Vocabulary.minimal.contains s).map symbolLine ++
  ["", "Any other character draws nothing."]

def symbolText : String := "\n".intercalate symbolLines

def shortText : String := "\n".intercalate (sections compact "see more with '--help'")

def longText : String :=
  "\n".intercalate (sections spacious "see a summary with '-h'" ++ [""] ++ symbolLines)

end Help

end CircuitPicture
