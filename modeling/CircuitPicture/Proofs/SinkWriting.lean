import CircuitPicture.Proofs.Effects

/-! # Texts that a sink cuts off

A text may reach a sink in many pieces, and the sink may stop at any byte of any of them. What it
has received in the end, and whether it stopped, is the same as if the text had come in one piece
(`take_take`, `room_append_iff`): being cut off is an `Effect`. -/

namespace CircuitPicture

namespace Sink

/-- The sink with the bytes, or with as many of them as it has room for. -/
def take (sink : Sink) (bytes : ByteArray) : Sink :=
  sink.append (bytes.extract 0 (sink.room bytes.size))

theorem room_bounded (received : ByteArray) (limit : Nat) (overflow : IoError) (flushFails : Bool)
    (bytes : Nat) :
    room ⟨received, some limit, overflow, flushFails⟩ bytes = min bytes (limit - received.size) :=
  rfl

theorem take_bounded (received bytes : ByteArray) (limit : Nat) (overflow : IoError)
    (flushFails : Bool) :
    take ⟨received, some limit, overflow, flushFails⟩ bytes =
      ⟨received ++ bytes.extract 0 (min bytes.size (limit - received.size)), some limit, overflow,
        flushFails⟩ :=
  rfl

theorem take_unbounded (received bytes : ByteArray) (overflow : IoError) (flushFails : Bool) :
    take ⟨received, none, overflow, flushFails⟩ bytes =
      ⟨received ++ bytes, none, overflow, flushFails⟩ := by
  simp only [take, room, append, ByteArray.extract_zero_size]

@[simp] theorem overflow_take (sink : Sink) (bytes : ByteArray) :
    (sink.take bytes).overflow = sink.overflow := rfl

theorem extract_min_size (bytes : ByteArray) (n : Nat) :
    bytes.extract 0 (min bytes.size n) = bytes.extract 0 n := by
  by_cases h : n ≤ bytes.size
  · rw [Nat.min_eq_right h]
  · have hmax : max n bytes.size = n := Nat.max_eq_left (by omega)
    rw [Nat.min_eq_left (by omega), ByteArray.extract_zero_size, ← hmax,
      ByteArray.extract_zero_max_size]

/-- Nothing is left for a text behind one that did not fit. -/
theorem extract_append_min (a b : ByteArray) (n : Nat) :
    (a ++ b).extract 0 (min (a ++ b).size n) =
      a.extract 0 (min a.size n) ++ b.extract 0 (min b.size (n - min a.size n)) := by
  rw [extract_min_size, extract_min_size, extract_min_size, ByteArray.extract_append, Nat.zero_sub]
  by_cases h : n ≤ a.size
  · rw [Nat.min_eq_right h, Nat.sub_self, Nat.sub_eq_zero_of_le h]
  · rw [Nat.min_eq_left (by omega)]

theorem take_take (sink : Sink) (a b : ByteArray) : (sink.take a).take b = sink.take (a ++ b) := by
  obtain ⟨received, limit, overflow, flushFails⟩ := sink
  cases limit with
  | none => simp only [take_unbounded, ByteArray.append_assoc]
  | some limit =>
    have hroom : limit - (received ++ a.extract 0 (min a.size (limit - received.size))).size =
        limit - received.size - min a.size (limit - received.size) := by
      rw [ByteArray.size_append, ByteArray.size_extract]
      omega
    rw [take_bounded, take_bounded, take_bounded, hroom, extract_append_min, ByteArray.append_assoc]

theorem room_append_iff (sink : Sink) (a b : ByteArray) :
    sink.room (a ++ b).size = (a ++ b).size ↔
      sink.room a.size = a.size ∧ (sink.take a).room b.size = b.size := by
  obtain ⟨received, limit, overflow, flushFails⟩ := sink
  cases limit with
  | none => exact ⟨fun _ => ⟨rfl, rfl⟩, fun _ => rfl⟩
  | some limit =>
    rw [take_bounded, room_bounded, room_bounded, room_bounded, ByteArray.size_append,
      ByteArray.size_append, ByteArray.size_extract]
    omega

/-- A sink that has cut a text off takes nothing more. -/
theorem take_of_room_ne {sink : Sink} {a : ByteArray} (h : sink.room a.size ≠ a.size)
    (b : ByteArray) : (sink.take a).take b = sink.take a := by
  obtain ⟨received, limit, overflow, flushFails⟩ := sink
  cases limit with
  | none => exact absurd rfl h
  | some limit =>
    rw [room_bounded] at h
    have hfull :
        limit - (received ++ a.extract 0 (min a.size (limit - received.size))).size = 0 := by
      rw [ByteArray.size_append, ByteArray.size_extract]
      omega
    rw [take_bounded, take_bounded, hfull, Nat.min_zero, ByteArray.extract_same,
      ByteArray.append_empty]

/-- A text is written as far as it fits, and an error reports that it does not. -/
theorem write_eq (text : String) (sink : Sink) :
    write text sink =
      (if sink.room text.toUTF8.size = text.toUTF8.size then .ok () else .error sink.overflow,
        sink.take text.toUTF8) := by
  unfold write
  by_cases h : sink.room text.toUTF8.size = text.toUTF8.size
  · simp only [h, if_true, take, ByteArray.extract_zero_size]
  · simp only [h, if_false, take]

/-- A text reaches the sink as far as it fits, and an error reports that it does not. -/
def cutOff : Effect Sink where
  rel s bytes result t := t = s.take bytes ∧
    result = if s.room bytes.size = bytes.size then .ok () else .error s.overflow
  empty s := by
    obtain ⟨received, limit, overflow, flushFails⟩ := s
    cases limit with
    | none => exact ⟨by rw [take_unbounded, ByteArray.append_empty], rfl⟩
    | some limit =>
      refine ⟨?_, ?_⟩
      · rw [take_bounded, ByteArray.size_empty, Nat.zero_min, ByteArray.extract_same,
          ByteArray.append_empty]
      · rw [room_bounded, ByteArray.size_empty, Nat.zero_min, if_pos rfl]
  append_ok := by
    rintro s t u a b result ⟨rfl, ha⟩ ⟨rfl, hb⟩
    have hroom : s.room a.size = a.size := by
      by_cases h : s.room a.size = a.size
      · exact h
      · rw [if_neg h] at ha
        cases ha
    refine ⟨take_take s a b, ?_⟩
    rw [hb, overflow_take]
    by_cases hrest : (s.take a).room b.size = b.size
    · rw [if_pos hrest, if_pos ((room_append_iff s a b).2 ⟨hroom, hrest⟩)]
    · rw [if_neg hrest, if_neg fun h => hrest ((room_append_iff s a b).1 h).2]
  append_error := by
    rintro s t a b cause ⟨rfl, ha⟩
    have hroom : s.room a.size ≠ a.size := by
      intro h
      rw [if_pos h] at ha
      cases ha
    refine ⟨?_, ?_⟩
    · rw [← take_take, take_of_room_ne hroom]
    · rw [ha, if_neg hroom, if_neg fun h => hroom ((room_append_iff s a b).1 h).1]

theorem cutOff_write (text : String) : cutOff.Describes text.toUTF8 (writer.write text) := by
  intro s
  change cutOff.rel s text.toUTF8 (write text s).1 (write text s).2
  rw [write_eq]
  exact ⟨rfl, rfl⟩

end Sink

end CircuitPicture
