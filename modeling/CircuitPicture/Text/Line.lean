import CircuitPicture.Text.Cursor

/-! # Lines of a circuit text

A text is cut at every line feed. One carriage return at the end of a line belongs to its line
ending, and a line that is then empty is dropped. Each line knows its place in the text. Reading a
line never fails and always gets on (`read_eq`, `length_rest_lt_of_read`). -/

namespace CircuitPicture

/-- A line without its line ending, and where it stands. -/
structure Line where
  text : List Char
  span : Span
deriving DecidableEq, Repr

namespace Line

/-- Reads a line, and the line feed after it if there is one. -/
def read : Cursor.Reader Line := do
  let (text, span) ← Cursor.takeTill fun c => c == '\n'
  Cursor.optional (Cursor.takeChar '\n')
  return if text.getLast? = some '\r' then ⟨text.dropLast, ⟨span.start, span.stop - 1⟩⟩
    else ⟨text, span⟩

def firstLine (source : List Char) : List Char := source.takeWhile fun c => c != '\n'

def afterFirstLine (source : List Char) : List Char :=
  (source.dropWhile fun c => c != '\n').drop 1

/-- The text without one carriage return at its end. -/
def dropReturn (text : List Char) : List Char :=
  if text.getLast? = some '\r' then text.dropLast else text

/-- The line with this text, line ending apart, that starts at byte `start`. -/
def starting (start : Nat) (raw : List Char) : Line :=
  let text := dropReturn raw
  ⟨text, start, start + byteLength text⟩

theorem byteLength_of_getLast? {text : List Char} (h : text.getLast? = some '\r') :
    byteLength text = byteLength text.dropLast + 1 := by
  obtain ⟨front, rfl⟩ := List.getLast?_eq_some_iff.1 h
  rw [List.dropLast_concat, byteLength_append, byteLength_cons, byteLength_nil]
  rfl

/-- Behind the text of a line there is a line feed, which is taken, or nothing. -/
theorem optional_takeChar_behind (offset : Nat) (rest : List Char) :
    Cursor.optional (Cursor.takeChar '\n') ⟨offset, rest.dropWhile fun c => c != '\n'⟩ =
      some ((), ⟨offset + byteLength ((rest.dropWhile fun c => c != '\n').take 1),
        afterFirstLine rest⟩) := by
  rw [Cursor.optional_takeChar, afterFirstLine]
  rcases h : rest.dropWhile fun c => c != '\n' with _ | ⟨c, tail⟩
  · rfl
  · have hc : c = '\n' := by simpa [h] using List.head?_dropWhile_not (fun c => c != '\n') rest
    simp [hc]

/-- Reading always succeeds, and the line starts where the cursor stands. -/
theorem read_eq (cursor : Cursor) :
    read cursor = some (starting cursor.offset (firstLine cursor.rest),
      ⟨cursor.offset + byteLength (firstLine cursor.rest) +
        byteLength ((cursor.rest.dropWhile fun c => c != '\n').take 1),
        afterFirstLine cursor.rest⟩) := by
  obtain ⟨offset, rest⟩ := cursor
  have hline : (if (firstLine rest).getLast? = some '\r' then
        ⟨(firstLine rest).dropLast, offset, offset + byteLength (firstLine rest) - 1⟩
      else ⟨firstLine rest, offset, offset + byteLength (firstLine rest)⟩) =
      starting offset (firstLine rest) := by
    unfold starting dropReturn
    split
    · rename_i h
      rw [byteLength_of_getLast? h, Nat.add_sub_assoc (Nat.le_add_left 1 _), Nat.add_sub_cancel]
    · rfl
  change (Cursor.optional (Cursor.takeChar '\n')
    ⟨offset + byteLength (firstLine rest), rest.dropWhile fun c => c != '\n'⟩ >>= _) = _
  rw [optional_takeChar_behind]
  exact congrArg (fun line => some (line, _)) hline

theorem length_afterFirstLine_lt {source : List Char} (h : source ≠ []) :
    (afterFirstLine source).length < source.length := by
  cases source with
  | nil => exact absurd rfl h
  | cons c rest =>
    by_cases hc : c = '\n'
    · simp [afterFirstLine, hc]
    · have := (List.dropWhile_suffix (fun c => c != '\n') (l := rest)).length_le
      simp [afterFirstLine, hc]
      omega

theorem length_rest_lt_of_read {cursor next : Cursor} {line : Line} (h : cursor.rest ≠ [])
    (hread : read cursor = some (line, next)) : next.rest.length < cursor.rest.length := by
  rw [read_eq] at hread
  cases hread
  exact length_afterFirstLine_lt h

/-- Every line from the cursor on, empty ones included. -/
def readAll (cursor : Cursor) : Option (List Line) :=
  if _ : cursor.rest = [] then some []
  else
    match _ : read cursor with
    | none => none
    | some (line, next) => (readAll next).map fun lines => line :: lines
termination_by cursor.rest.length
decreasing_by exact length_rest_lt_of_read ‹_› ‹_›

/-- The lines of a text that are not empty. -/
def ofText (source : String) : Option (List Line) :=
  (readAll (.start source)).map fun lines => lines.filter fun line => !line.text.isEmpty

def shift (line : Line) (bytes : Nat) : Line := { line with span := line.span.shift bytes }

end Line

end CircuitPicture
