import CircuitPicture.Proofs.LinePlaces

/-! # What stands between lines

The lines of a text and their line endings are all of its bytes: a byte that no line has is a line
feed, or a carriage return directly before one or at the very end (`ofText_partition`). -/

namespace CircuitPicture

/-- The bytes of a text in UTF-8. -/
def utf8Bytes (text : List Char) : List UInt8 := text.flatMap String.utf8EncodeChar

@[simp] theorem utf8Bytes_nil : utf8Bytes [] = [] := rfl

@[simp] theorem utf8Bytes_cons (c : Char) (text : List Char) :
    utf8Bytes (c :: text) = String.utf8EncodeChar c ++ utf8Bytes text := rfl

@[simp] theorem utf8Bytes_append (a b : List Char) :
    utf8Bytes (a ++ b) = utf8Bytes a ++ utf8Bytes b := List.flatMap_append

@[simp] theorem length_utf8Bytes (text : List Char) :
    (utf8Bytes text).length = byteLength text := by
  induction text with
  | nil => rfl
  | cons c text ih => simp [ih]

theorem toUTF8_eq (source : String) : source.toUTF8.data.toList = utf8Bytes source.toList := by
  rw [← String.ofList_toList (s := source), String.toUTF8_eq_toByteArray, String.toByteArray_ofList,
    List.utf8Encode, List.data_toByteArray, String.toList_ofList]
  rfl

namespace Line

/-- The byte is a line feed, or a carriage return with a line feed or nothing behind it. -/
def IsEndingByte (bytes : List UInt8) (i : Nat) : Prop :=
  bytes[i]? = some '\n'.toUInt8 ∨
    bytes[i]? = some '\r'.toUInt8 ∧ (bytes[i + 1]? = some '\n'.toUInt8 ∨ i + 1 = bytes.length)

theorem IsEndingByte.append {bytes : List UInt8} {i : Nat} (h : IsEndingByte bytes i)
    (front : List UInt8) : IsEndingByte (front ++ bytes) (front.length + i) := by
  have hget (j : Nat) : (front ++ bytes)[front.length + j]? = bytes[j]? := by
    rw [List.getElem?_append_right (Nat.le_add_right _ _), Nat.add_sub_cancel_left]
  unfold IsEndingByte
  rw [hget, Nat.add_assoc, hget, List.length_append]
  refine h.imp_right (And.imp_right (Or.imp_right ?_))
  omega

theorem dropReturn_cases (piece : List Char) :
    dropReturn piece = piece ∨ piece = dropReturn piece ++ ['\r'] := by
  unfold dropReturn
  split
  · rename_i h
    obtain ⟨front, rfl⟩ := List.getLast?_eq_some_iff.1 h
    exact .inr (by rw [List.dropLast_concat])
  · exact .inl rfl

/-- Behind the text of a line there is one byte at most before the line feed. -/
theorem utf8Bytes_of_le {piece : List Char} {i : Nat} (hlow : byteLength (dropReturn piece) ≤ i)
    (hhigh : i < byteLength piece) :
    ∃ front, utf8Bytes piece = front ++ ['\r'.toUInt8] ∧ i = front.length := by
  rcases dropReturn_cases piece with heq | hreturn
  · rw [heq] at hlow
    omega
  · have hlength : byteLength piece = byteLength (dropReturn piece) + 1 := by
      rw [congrArg byteLength hreturn, byteLength_append]
      rfl
    refine ⟨utf8Bytes (dropReturn piece), ?_, ?_⟩
    · rw [congrArg utf8Bytes hreturn, utf8Bytes_append]
      rfl
    · rw [length_utf8Bytes]
      omega

/-- The invariant of the cut: a byte outside of all lines belongs to a line ending. -/
theorem isEndingByte_of_outside (start : Nat) {pieces : List (List Char)} {i : Nat}
    (hi : i < byteLength (['\n'].intercalate pieces))
    (hout : ∀ line ∈ laidOut start pieces,
      start + i < line.span.start ∨ line.span.stop ≤ start + i) :
    IsEndingByte (utf8Bytes (['\n'].intercalate pieces)) i := by
  induction pieces generalizing start i with
  | nil => simp at hi
  | cons piece pieces ih =>
    have hfirst := hout (starting start piece) (by simp [laidOut])
    have hline : byteLength (dropReturn piece) ≤ i := by
      simp only [starting] at hfirst
      omega
    cases pieces with
    | nil =>
      rw [List.intercalate_singleton] at hi ⊢
      obtain ⟨front, hbytes, rfl⟩ := utf8Bytes_of_le hline hi
      right
      simp [hbytes]
    | cons next pieces =>
      have hfeed : utf8Bytes ['\n'] = ['\n'.toUInt8] := rfl
      have hbytes : utf8Bytes (['\n'].intercalate (piece :: next :: pieces)) =
          utf8Bytes piece ++ '\n'.toUInt8 :: utf8Bytes (['\n'].intercalate (next :: pieces)) := by
        rw [List.intercalate_cons_cons, utf8Bytes_append, utf8Bytes_append, hfeed,
          List.append_assoc, List.singleton_append]
      rw [← length_utf8Bytes] at hi
      rw [hbytes] at hi ⊢
      generalize hrest : utf8Bytes (['\n'].intercalate (next :: pieces)) = rest at hi ih ⊢
      rcases Nat.lt_trichotomy i (byteLength piece) with hlt | rfl | hgt
      · obtain ⟨front, hpiece, rfl⟩ := utf8Bytes_of_le hline hlt
        right
        simp [hpiece]
      · left
        rw [← length_utf8Bytes]
        simp
      · obtain ⟨j, rfl⟩ := Nat.exists_eq_add_of_lt hgt
        have hj : j < byteLength (['\n'].intercalate (next :: pieces)) := by
          rw [← length_utf8Bytes, hrest]
          simp at hi
          omega
        have hlater := ih (start + byteLength piece + 1) hj fun line hmem => by
          have := hout line (List.mem_cons_of_mem _ hmem)
          omega
        have hending := hlater.append (utf8Bytes piece ++ ['\n'.toUInt8])
        rwa [List.append_assoc, List.singleton_append, List.length_append, length_utf8Bytes,
          List.length_singleton, Nat.add_right_comm] at hending

theorem stop_of_mem_laidOut {start : Nat} {pieces : List (List Char)} {line : Line}
    (h : line ∈ laidOut start pieces) :
    line.span.stop = line.span.start + byteLength line.text := by
  induction pieces generalizing start with
  | nil => cases h
  | cons piece pieces ih =>
    rcases List.mem_cons.1 h with rfl | hlater
    · rfl
    · exact ih hlater

theorem newline_notMem_of_ofText {source : String} {lines : List Line}
    (h : ofText source = some lines) {line : Line} (hline : line ∈ lines) : '\n' ∉ line.text := by
  rw [ofText_eq] at h
  cases h
  have htext := List.mem_map_of_mem (f := Line.text) (List.mem_filter.1 hline).1
  rw [map_text_laidOut] at htext
  obtain ⟨piece, hpiece, heq⟩ := List.mem_map.1 htext
  exact heq ▸ newline_notMem_dropReturn hpiece

theorem isEndingByte_of_ofText {source : String} {lines : List Line}
    (h : ofText source = some lines) {i : Nat} (hi : i < source.utf8ByteSize)
    (hout : ∀ line ∈ lines, i < line.span.start ∨ line.span.stop ≤ i) :
    IsEndingByte source.toUTF8.data.toList i := by
  rw [ofText_eq] at h
  cases h
  have hsource : ['\n'].intercalate (source.toList.splitOn '\n') = source.toList := by
    rw [List.intercalate_splitOn]
  have hlength : byteLength source.toList = source.utf8ByteSize := by
    rw [← utf8ByteSize_ofList, String.ofList_toList]
  rw [toUTF8_eq, ← hsource]
  refine isEndingByte_of_outside 0 (by rwa [hsource, hlength]) fun line hline => ?_
  rw [Nat.zero_add]
  -- A line that was dropped takes up no room.
  by_cases htext : line.text = []
  · have hstop := stop_of_mem_laidOut hline
    rw [htext, byteLength_nil] at hstop
    omega
  · exact hout line (List.mem_filter.2 ⟨hline, by simpa using htext⟩)

/-- A return at the end of what was taken up to a line feed is one byte of it. -/
theorem start_lt_stop_of_takeTill {cursor next : Cursor} {text : List Char} {span : Span}
    (h : Cursor.takeTill (fun c => c == '\n') cursor = some ((text, span), next))
    (hreturn : text.getLast? = some '\r') : span.start < span.stop := by
  cases h
  have hlength := byteLength_of_getLast? hreturn
  change cursor.offset < cursor.offset + byteLength _
  rw [hlength]
  omega

/-- The lines stand one behind the other in the source, each from a character to a character, and
all bytes between them are line feeds or carriage returns at the end of a line. Taking a carriage
return off a line leaves no span that ends before it starts. -/
theorem ofText_partition (source : String) :
    (∃ lines, ofText source = some lines ∧
      (∀ line ∈ lines, line.span.start < line.span.stop ∧ line.span.stop ≤ source.utf8ByteSize ∧
        line.span.start + line.span.length = line.span.stop ∧
        line.span.Cuts source (String.ofList line.text) ∧ '\n' ∉ line.text) ∧
      lines.Pairwise (fun a b => a.span.stop < b.span.start) ∧
      ∀ i < source.utf8ByteSize,
        (∀ line ∈ lines, i < line.span.start ∨ line.span.stop ≤ i) →
        IsEndingByte source.toUTF8.data.toList i) ∧
    ∀ cursor next text span,
      Cursor.takeTill (fun c => c == '\n') cursor = some ((text, span), next) →
      text.getLast? = some '\r' → 1 ≤ span.stop ∧ span.start ≤ span.stop - 1 := by
  obtain ⟨lines, hlines⟩ : ∃ lines, ofText source = some lines := ⟨_, ofText_eq source⟩
  have hplaced := placed_ofText hlines
  refine ⟨⟨lines, hlines, fun line hline => ?_, hplaced.pairwise,
    fun i hi hout => isEndingByte_of_ofText hlines hi hout⟩,
    fun cursor next text span h hreturn => ?_⟩
  · obtain ⟨hlt, hle⟩ := hplaced.inside line hline
    have hlength : line.span.start + line.span.length = line.span.stop := by
      rw [Span.length]
      omega
    exact ⟨hlt, hle, hlength, hplaced.cuts line hline, newline_notMem_of_ofText hlines hline⟩
  · have hlt := start_lt_stop_of_takeTill h hreturn
    omega

end Line

end CircuitPicture
