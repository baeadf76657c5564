import CircuitPicture.Config.Decode
import CircuitPicture.Failure
import CircuitPicture.FileAccess

/-! # Where the configuration comes from

One file decides: the one that is named, else the one in the working directory, else the one of the
platform. Without any of them the standard configuration is in force. The command line may then
change the vocabulary and ask for a document. -/

namespace CircuitPicture

open MonadExcept (ofExcept)

namespace Config

def localPath : String := "qcircuit/config.toml"

/-- The configuration file of the platform, below the directory for configuration if that is an
absolute path, else below the home directory. -/
def platformPath (configHome home : Option String) : Option String :=
  match configHome.filter fun path => path.startsWith "/" with
  | some path => some (path ++ "/qcircuit/config.toml")
  | none => home.map fun path => path ++ "/.config/qcircuit/config.toml"

def ofText (text : String) : Except ConfigError Config :=
  match ofToml? text with
  | none => .error .malformed
  | some config =>
    match config.validate with
    | .ok () => .ok config
    | .error fault => .error (.invalid fault)

variable {m : Type → Type} {target : Type}

def readPresent [Monad m] (files : FileAccess m target) (path : String) :
    ExceptT Failure m Config := do
  let text ← ExceptT.adapt Failure.io (files.readText path)
  ofExcept ((ofText text).mapError .config)

def readNamed [Monad m] (files : FileAccess m target) (path : String) :
    ExceptT Failure m Config := do
  if ← files.isPresent path then readPresent files path else throw (.config (.missing path))

/-- The configuration in the first of several files that is there. -/
def readFirst [Monad m] (files : FileAccess m target) : List String → ExceptT Failure m Config
  | [] => pure standard
  | path :: rest => do
    if ← files.isPresent path then readPresent files path else readFirst files rest

def load [Monad m] (files : FileAccess m target) (platform named : Option String) :
    ExceptT Failure m Config :=
  match named with
  | some path => readNamed files path
  | none => readFirst files (localPath :: platform.toList)

/-- The configuration as the command line changes it. A document is only ever asked for. -/
def override (c : Config) (vocabulary : Option String) (standalone : Bool) :
    Except ConfigError Config := do
  let c ← match vocabulary with
    | none => pure c
    | some name =>
      match Vocabulary.ofName? name with
      | some v => pure (c.withVocabulary v)
      | none => throw (.unsupportedVocabulary name)
  return if standalone then c.withStandalone true else c

end Config

end CircuitPicture
