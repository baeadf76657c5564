import CircuitPicture.Arguments
import CircuitPicture.Buffer
import CircuitPicture.Config.Source
import CircuitPicture.Grid.Parse
import CircuitPicture.Picture

/-! # Runs

A run makes the picture of one circuit file. All that can be wrong with the configuration and the
circuit is found before anything is written. -/

namespace CircuitPicture

open MonadExcept (ofExcept)

variable {m : Type → Type} {target : Type}

def prepare [Monad m] (files : FileAccess m target) (platform : Option String) (a : Arguments) :
    ExceptT Failure m (Config × Grid) := do
  let config ← Config.load files platform a.config
  let config ← ofExcept ((config.override a.vocabulary a.standalone).mapError .config)
  let source ← ExceptT.adapt Failure.io (files.readText a.input)
  let grid ← ofExcept ((Grid.parse source).mapError fun e => .parse e source)
  return (config, grid)

/-- Hands over to the target, piece by piece, what has left the buffer. -/
def passOn [Monad m] (files : FileAccess m target) (out : target) (buffer : Buffer) :
    ExceptT IoError m Buffer := do
  buffer.passed.toList.forM fun bytes => ExceptT.mk (files.append out bytes)
  return { buffer with passed := #[] }

/-- Writes a picture through a buffer. The buffer is emptied again when it is given up, although
the end of a picture leaves nothing in it. -/
def transmit [Monad m] (files : FileAccess m target) (config : Config) (grid : Grid)
    (out : target) (buffer : Buffer) : ExceptT Failure m Unit := do
  let (result, buffer) := Picture.writeTo Buffer.writer config grid buffer
  let buffer ← ExceptT.adapt (fun e => Failure.exporting (.io e)) (passOn files out buffer)
  ofExcept (result.mapError .exporting)
  let _ ← ExceptT.adapt Failure.io (passOn files out buffer.drain)

def deliver [Monad m] (files : FileAccess m target) (config : Config) (grid : Grid)
    (output : Option String) : ExceptT Failure m Unit := do
  match output with
  | some path =>
    let file ← ExceptT.adapt Failure.io (files.create path)
    transmit files config grid file .forFile
  | none => transmit files config grid files.standardOutput .forOutput

def run [Monad m] (files : FileAccess m target) (platform : Option String) (a : Arguments) :
    ExceptT Failure m Unit := do
  let (config, grid) ← prepare files platform a
  deliver files config grid a.output

def printLine [Monad m] (files : FileAccess m target) (text : String) : m Unit := do
  let _ ← files.append files.standardOutput (text ++ "\n").toUTF8

/-- Runs the program on the arguments after its name and gives its exit code: 0 if all went well,
1 for a failed run and 2 for arguments that are not understood. -/
def execute [Monad m] (files : FileAccess m target) (platform : Option String)
    (arguments : List String) : m UInt32 := do
  match Invocation.ofArguments arguments with
  | .error e =>
    printLine files e.message
    return 2
  | .ok .shortHelp =>
    printLine files Help.shortText
    return 0
  | .ok .longHelp =>
    printLine files Help.longText
    return 0
  | .ok .version =>
    printLine files Help.version
    return 0
  | .ok (.run a) =>
    match ← (run files platform a).run with
    | .ok () => return 0
    | .error failure =>
      printLine files failure.message
      return 1

end CircuitPicture
