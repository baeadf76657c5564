/-! # Input and output errors

What can go wrong between the program and its files, in the words of the operating system. -/

namespace CircuitPicture

inductive IoError where
  | notFound
  | notDirectory
  | isDirectory
  | noSpace
  | nameTooLong
  /-- A path with a NUL character, which no system call takes. -/
  | nulInPath
  | invalidText
  | sinkFull
  /-- A sink that took none of the bytes it was given. -/
  | nothingWritten
  | flushFailed
  | other (message : String)
deriving DecidableEq, Repr

namespace IoError

def message : IoError → String
  | notFound => "No such file or directory (os error 2)"
  | notDirectory => "Not a directory (os error 20)"
  | isDirectory => "Is a directory (os error 21)"
  | noSpace => "No space left on device (os error 28)"
  | nameTooLong => "File name too long (os error 36)"
  | nulInPath => "file name contained an unexpected NUL byte"
  | invalidText => "stream did not contain valid UTF-8"
  | sinkFull => "sink full"
  | nothingWritten => "failed to write whole buffer"
  | flushFailed => "flush failed"
  | other message => message

end IoError

end CircuitPicture
