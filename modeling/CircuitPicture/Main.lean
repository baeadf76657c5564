import CircuitPicture.Run

/-! # The command line

The program on the files of the machine. -/

namespace CircuitPicture

def IoError.numbered (code : UInt32) (details : String) : IoError :=
  .other (details ++ " (os error " ++ toString code ++ ")")

def IoError.ofSystem : IO.Error → IoError
  | .noFileOrDirectory .. => .notFound
  | .inappropriateType _ code details => .numbered code details
  | .permissionDenied _ code details => .numbered code details
  | .resourceExhausted _ code details => .numbered code details
  | .invalidArgument _ code details => .numbered code details
  | e => .other (toString e)

def attempt {α : Type} (action : IO α) : IO (Except IoError α) := do
  match ← action.toBaseIO with
  | .ok result => return .ok result
  | .error e => return .error (.ofSystem e)

/-- The files of the machine; what cannot be opened is not there, unless only the permission is
missing. -/
def machineFiles (output : IO.FS.Stream) : FileAccess IO IO.FS.Stream where
  isPresent path := do
    match ← (IO.FS.Handle.mk path .read).toBaseIO with
    | .ok _ => return true
    | .error (.permissionDenied ..) => return true
    | .error _ => return false
  read path := attempt do (← IO.FS.Handle.mk path .read).readBinToEnd
  create path := attempt do return IO.FS.Stream.ofHandle (← IO.FS.Handle.mk path .write)
  append stream bytes := attempt do
    stream.write bytes
    stream.flush
  standardOutput := output

def program (arguments : List String) : IO UInt32 := do
  let platform := Config.platformPath (← IO.getEnv "XDG_CONFIG_HOME") (← IO.getEnv "HOME")
  execute (machineFiles (← IO.getStdout)) platform arguments

end CircuitPicture

def main (arguments : List String) : IO UInt32 := CircuitPicture.program arguments
