import CircuitPicture.Writer

/-! # Sinks

A sink receives text as bytes of UTF-8. It may take only a bounded number of bytes over its life; of
a text that does not fit it keeps the bytes that do. -/

namespace CircuitPicture

structure Sink where
  received : ByteArray
  /-- How many bytes the sink takes in all, if that is bounded. -/
  limit : Option Nat
  /-- The error that a text which does not fit ends in. -/
  overflow : IoError
  flushFails : Bool

namespace Sink

def unlimited : Sink := ⟨.empty, none, .sinkFull, false⟩

/-- How many of `bytes` more bytes the sink takes. -/
def room (sink : Sink) (bytes : Nat) : Nat :=
  match sink.limit with
  | none => bytes
  | some limit => min bytes (limit - sink.received.size)

def append : Sink → ByteArray → Sink
  | ⟨received, limit, overflow, flushFails⟩, bytes =>
    ⟨received ++ bytes, limit, overflow, flushFails⟩

/-- Writes a text, or as much of it as fits. -/
def write (text : String) : ExceptT IoError (StateM Sink) Unit := fun sink =>
  let bytes := text.toUTF8
  let room := sink.room bytes.size
  if room = bytes.size then (.ok (), sink.append bytes)
  else
    let overflow := sink.overflow
    (.error overflow, sink.append (bytes.extract 0 room))

def flush : ExceptT IoError (StateM Sink) Unit := fun sink =>
  (if sink.flushFails then .error .flushFailed else .ok (), sink)

def writer : Writer Sink := ⟨write, flush⟩

@[simp] theorem room_unlimited (bytes : Nat) : unlimited.room bytes = bytes := rfl

end Sink

end CircuitPicture
