import CircuitPicture.Config
import CircuitPicture.Diagnostic
import CircuitPicture.Exporter

/-! # Failures

Every way in which making a picture of a circuit file can fail, and its one-line message. -/

namespace CircuitPicture

inductive ConfigError where
  /-- The file is no TOML, or its entries have the wrong types. -/
  | malformed
  | missing (path : String)
  | invalid (fault : ConfigFault)
  | unsupportedVocabulary (name : String)
  | other (message : String)
deriving DecidableEq, Repr

namespace ConfigError

def message : ConfigError → String
  | malformed => "Failed to parse TOML configuration:"
  | missing path => "Missing configuration file: " ++ path
  | invalid fault => "Validation error: " ++ fault.message
  | unsupportedVocabulary name =>
    "Validation error: " ++ Vocabulary.unsupported ++ ": `" ++ name ++ "`"
  | other message => message

end ConfigError

inductive Failure where
  | io (error : IoError)
  /-- The circuit text, which is kept for reports, is no grid. -/
  | parse (error : ParseError) (source : String)
  | config (error : ConfigError)
  | exporting (error : ExportError)
deriving DecidableEq, Repr

namespace Failure

def message : Failure → String
  | io error => "I/O error: " ++ error.message
  | parse error _ => error.text
  | config error => "Configuration error: " ++ error.message
  | exporting error => "Export error: " ++ error.message

/-- The number of the fault in the circuit text, if that is what failed. -/
def code? : Failure → Option FaultCode
  | parse error _ => error.code
  | _ => none

def isEmptyInput (f : Failure) : Bool := f.code? == some .noLines

def isIrregularGrid (f : Failure) : Bool := f.code? == some .irregular

end Failure

end CircuitPicture
