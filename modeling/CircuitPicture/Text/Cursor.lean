import CircuitPicture.Text.Span

/-! # Cursors

A text is read from the front. A cursor knows how many bytes have been read and what is still to
come; a reader moves the cursor on, or fails. -/

namespace CircuitPicture

structure Cursor where
  /-- The bytes in front of the cursor. -/
  offset : Nat
  rest : List Char
deriving DecidableEq, Repr

namespace Cursor

abbrev Reader := StateT Cursor Option

def start (source : String) : Cursor := ⟨0, source.toList⟩

/-- Takes the characters in front of the first one that `stop` picks, which may be none at all, and
says where they stand. -/
def takeTill (stop : Char → Bool) : Reader (List Char × Span) := fun cursor =>
  let text := cursor.rest.takeWhile fun c => !stop c
  let next := cursor.offset + byteLength text
  some ((text, ⟨cursor.offset, next⟩), ⟨next, cursor.rest.dropWhile fun c => !stop c⟩)

/-- Takes the character, which has to come next. -/
def takeChar (c : Char) : Reader Unit := fun cursor =>
  match cursor.rest with
  | [] => none
  | d :: rest => if d = c then some ((), ⟨cursor.offset + d.utf8Size, rest⟩) else none

/-- Tries a reader; where that fails, the cursor stays where it is. -/
def optional (reader : Reader Unit) : Reader Unit := fun cursor =>
  match reader cursor with
  | some result => some result
  | none => some ((), cursor)

theorem optional_takeChar (c : Char) (cursor : Cursor) :
    optional (takeChar c) cursor =
      if cursor.rest.head? = some c then some ((), ⟨cursor.offset + c.utf8Size, cursor.rest.drop 1⟩)
      else some ((), cursor) := by
  obtain ⟨offset, rest⟩ := cursor
  cases rest with
  | nil => rfl
  | cons d rest => by_cases h : d = c <;> simp [optional, takeChar, h]

end Cursor

end CircuitPicture
