import CircuitPicture.Writer

/-! # Buffers

A program writes many short texts. A buffer collects them and passes them on in longer pieces, in
the order in which they came. A block buffer passes on what is pending when the next text has no
room behind it; a line buffer does not keep lines that are complete. -/

namespace CircuitPicture

inductive Buffering where
  | block
  | line
deriving DecidableEq, Repr

structure Buffer where
  kind : Buffering
  capacity : Nat
  pending : ByteArray
  /-- The pieces that have left the buffer. -/
  passed : Array ByteArray

namespace Buffer

/-- How many bytes stand before the end of the last line. -/
def lineEnd (bytes : ByteArray) : Nat :=
  bytes.size - (bytes.toList.reverse.takeWhile fun b => b != 10).length

def empty (kind : Buffering) (capacity : Nat) : Buffer := ⟨kind, capacity, .empty, #[]⟩

/-- The buffer of a file that is written in blocks. -/
def forFile : Buffer := empty .block 8192

/-- The buffer of standard output. -/
def forOutput : Buffer := empty .line 1024

/-- Lets bytes through. -/
def pass (b : Buffer) (bytes : ByteArray) : Buffer :=
  if bytes.isEmpty then b else { b with passed := b.passed.push bytes }

/-- Passes on what is pending. -/
def drain (b : Buffer) : Buffer := { b.pass b.pending with pending := .empty }

/-- Keeps bytes that have room in the buffer, after it has been drained if need be. -/
def keep (b : Buffer) (bytes : ByteArray) : Buffer :=
  let b := if b.capacity < b.pending.size + bytes.size then b.drain else b
  if b.capacity ≤ bytes.size then b.pass bytes else { b with pending := b.pending ++ bytes }

/-- Keeps bytes, but passes on every line that is complete. -/
def keepLine (b : Buffer) (bytes : ByteArray) : Buffer :=
  let lines := bytes.extract 0 (lineEnd bytes)
  let rest := bytes.extract (lineEnd bytes) bytes.size
  if lines.isEmpty then
    (if b.pending.toList.getLast? == some 10 then b.drain else b).keep bytes
  else if b.pending.isEmpty then (b.pass lines).keep rest
  else (b.keep lines).drain.keep rest

def add (b : Buffer) (bytes : ByteArray) : Buffer :=
  match b.kind with
  | .block => b.keep bytes
  | .line => b.keepLine bytes

/-- Writing to a buffer, which never fails. -/
def writer : Writer Buffer where
  write text := fun b => (.ok (), b.add text.toUTF8)
  flush := fun b => (.ok (), b.drain)

end Buffer

end CircuitPicture
