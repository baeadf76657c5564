import CircuitPicture.IoError

/-! # Access to files

The file operations that the program is written in. They are given as a record, so that the same
program runs on the files of the machine and on a file tree that is a plain value. -/

namespace CircuitPicture

/-- File operations in the monad `m`, where a file that is being written is a `target`. -/
structure FileAccess (m : Type → Type) (target : Type) where
  isPresent : String → m Bool
  read : String → m (Except IoError ByteArray)
  /-- Opens a file for writing. It is empty then, whether or not it was there before. -/
  create : String → m (Except IoError target)
  append : target → ByteArray → m (Except IoError Unit)
  standardOutput : target

namespace FileAccess

variable {m : Type → Type} {target : Type}

/-- The text of a file, which has to be UTF-8. -/
def readText [Monad m] (files : FileAccess m target) (path : String) :
    m (Except IoError String) := do
  match ← files.read path with
  | .error e => return .error e
  | .ok bytes =>
    match String.fromUTF8? bytes with
    | some text => return .ok text
    | none => return .error .invalidText

end FileAccess

end CircuitPicture
