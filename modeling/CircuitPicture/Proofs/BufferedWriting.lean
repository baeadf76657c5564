import CircuitPicture.Buffer
import CircuitPicture.Proofs.PictureStream

/-! # Buffered texts

What a buffer has passed on and what is pending are together what it has received, however the texts
fall on its blocks and lines. So a picture that is written through an empty buffer is passed on as a
whole (`writeTo_buffer`). -/

namespace CircuitPicture

def joined (pieces : List ByteArray) : ByteArray := pieces.foldr (· ++ ·) .empty

@[simp] theorem joined_nil : joined [] = .empty := rfl

@[simp] theorem joined_cons (piece : ByteArray) (pieces : List ByteArray) :
    joined (piece :: pieces) = piece ++ joined pieces := rfl

theorem joined_append (a b : List ByteArray) : joined (a ++ b) = joined a ++ joined b := by
  induction a with
  | nil => rw [List.nil_append, joined_nil, ByteArray.empty_append]
  | cons piece a ih => rw [List.cons_append, joined_cons, ih, joined_cons, ByteArray.append_assoc]

namespace Buffer

/-- The bytes that have left the buffer. -/
def sent (b : Buffer) : ByteArray := joined b.passed.toList

/-- The bytes that have come into the buffer. -/
def received (b : Buffer) : ByteArray := b.sent ++ b.pending

theorem eq_empty_of_isEmpty {bytes : ByteArray} (h : bytes.isEmpty = true) : bytes = .empty := by
  simpa [ByteArray.isEmpty] using h

theorem sent_pass (b : Buffer) (bytes : ByteArray) : (b.pass bytes).sent = b.sent ++ bytes := by
  rw [pass]
  split
  · rename_i h
    rw [eq_empty_of_isEmpty h, ByteArray.append_empty]
  · rw [sent, Array.toList_push, joined_append, joined_cons, joined_nil, ByteArray.append_empty]
    rfl

@[simp] theorem pending_pass (b : Buffer) (bytes : ByteArray) :
    (b.pass bytes).pending = b.pending := by
  rw [pass]
  split <;> rfl

@[simp] theorem pending_drain (b : Buffer) : b.drain.pending = .empty := rfl

theorem sent_drain (b : Buffer) : b.drain.sent = b.received := sent_pass b b.pending

theorem received_drain (b : Buffer) : b.drain.received = b.received := by
  rw [received, sent_drain, pending_drain, ByteArray.append_empty]

/-- Bytes that pass by a buffer keep their place only if nothing is pending. -/
theorem received_pass {b : Buffer} (h : b.pending = .empty) (bytes : ByteArray) :
    (b.pass bytes).received = b.received ++ bytes := by
  rw [received, sent_pass, pending_pass, h, received, h, ByteArray.append_empty,
    ByteArray.append_empty]

theorem received_keep (b : Buffer) (bytes : ByteArray) :
    (b.keep bytes).received = b.received ++ bytes := by
  rw [keep]
  by_cases hfull : b.capacity < b.pending.size + bytes.size
  · rw [if_pos hfull]
    split
    · rw [received_pass b.pending_drain, received_drain]
    · rw [← received_drain b]
      exact ByteArray.append_assoc.symm
  · rw [if_neg hfull]
    split
    · -- Bytes that fill the buffer on their own have room in it only if nothing is pending.
      have hpending : b.pending = .empty := ByteArray.size_eq_zero_iff.1 (by omega)
      exact received_pass hpending bytes
    · exact ByteArray.append_assoc.symm

theorem received_keepLine (b : Buffer) (bytes : ByteArray) :
    (b.keepLine bytes).received = b.received ++ bytes := by
  have hparts : bytes.extract 0 (lineEnd bytes) ++ bytes.extract (lineEnd bytes) bytes.size =
      bytes := by
    simp [ByteArray.extract_append_extract]
  rw [keepLine]
  split
  · rw [received_keep]
    split
    · rw [received_drain]
    · rfl
  · split
    · rename_i hpending
      rw [received_keep, received_pass (eq_empty_of_isEmpty hpending), ByteArray.append_assoc,
        hparts]
    · rw [received_keep, received_drain, received_keep, ByteArray.append_assoc, hparts]

theorem received_add (b : Buffer) (bytes : ByteArray) :
    (b.add bytes).received = b.received ++ bytes := by
  rw [add]
  cases b.kind with
  | block => exact received_keep b bytes
  | line => exact received_keepLine b bytes

/-- Bytes come into a buffer as they are. -/
def collects : Effect Buffer where
  rel b bytes result b' := result = .ok () ∧ b'.received = b.received ++ bytes
  empty b := ⟨rfl, by rw [ByteArray.append_empty]⟩
  append_ok := by
    rintro b b' b'' x y result ⟨-, hx⟩ ⟨rfl, hy⟩
    exact ⟨rfl, by rw [hy, hx, ByteArray.append_assoc]⟩
  append_error := by
    rintro b b' x y cause ⟨h, -⟩
    cases h

theorem collects_write (text : String) : collects.Describes text.toUTF8 (writer.write text) :=
  fun b => ⟨rfl, received_add b text.toUTF8⟩

end Buffer

namespace Picture

theorem writeTo_buffer (config : Config) (grid : Grid) (b : Buffer) :
    ∃ b' : Buffer, writeTo Buffer.writer config grid b = (.ok (), b') ∧ b'.pending = .empty ∧
      b'.sent = b.received ++ (text config grid).toUTF8 := by
  obtain ⟨result, b', ⟨rfl, hreceived⟩, hwrite⟩ := writeTo_eq Buffer.collects_write config grid b
  exact ⟨b'.drain, hwrite, rfl, (Buffer.sent_drain b').trans hreceived⟩

end Picture

end CircuitPicture
