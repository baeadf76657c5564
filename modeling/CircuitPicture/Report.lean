import CircuitPicture.Failure

/-! # Reports

A failure as it is shown to a reader: one report for each diagnostic of a circuit text, or one for
any other failure. -/

namespace CircuitPicture

/-- A place in a source as a report shows it, with the remark that stands there, if there is one. -/
structure LabeledSpan where
  offset : Nat
  length : Nat
  remark : Option String
  isPrimary : Bool
deriving DecidableEq, Repr

namespace LabeledSpan

def primary (remark : Option String) (offset length : Nat) : LabeledSpan :=
  ⟨offset, length, remark, true⟩

def secondary (remark : Option String) (offset length : Nat) : LabeledSpan :=
  ⟨offset, length, remark, false⟩

def ofLabel (label : Label) : LabeledSpan :=
  let remark := some label.message
  if label.isPrimary then primary remark label.span.start label.span.length
  else secondary remark label.span.start label.span.length

end LabeledSpan

structure Report where
  text : String
  code : Option String
  help : Option String
  /-- The places that the report shows, unless there are none. -/
  labels : Option (List LabeledSpan)
  /-- The text that the labels point into. -/
  source : Option String
  /-- What led to the failure, outermost first. -/
  causes : List String
deriving DecidableEq, Repr

namespace Report

def ofDiagnostic (source : String) (d : Diagnostic) : Report where
  text := d.message
  code := d.code.map FaultCode.text
  help := d.help
  labels := if d.labels.isEmpty then none else some (d.labels.map .ofLabel)
  source := some source
  causes := []

end Report

namespace ExportError

def chain (e : ExportError) : List String :=
  e.message :: (e.cause?.map IoError.message).toList

end ExportError

namespace Failure

def plainReport (f : Failure) (code : String) (help : Option String) (causes : List String) :
    Report :=
  ⟨f.message, some ("qcircuit::" ++ code), help, none, none, causes⟩

def reports : Failure → List Report
  | parse error source => error.diagnostics.map (Report.ofDiagnostic source)
  | io error => [plainReport (io error) "io" none [error.message]]
  | config error =>
    [plainReport (config error) "config"
      (some "check the file passed with --config or qcircuit/config.toml") []]
  | exporting error => [plainReport (exporting error) "export" none error.chain]

end Failure

end CircuitPicture
