import CircuitPicture.Proofs.LineCutting

/-! # Places of lines

The span of a line cuts exactly its text out of the source, and lines stand behind one another
without touching (`placed_ofText`). -/

namespace CircuitPicture

theorem utf8ByteSize_ofList (text : List Char) :
    (String.ofList text).utf8ByteSize = byteLength text := by
  induction text with
  | nil => rfl
  | cons c text ih =>
    rw [← List.singleton_append, String.ofList_append, String.utf8ByteSize_append, ih,
      byteLength_append, ← String.singleton_eq_ofList, String.utf8ByteSize_singleton]
    rfl

namespace Span

variable {s : Span} {source piece : String}

/-- The source, cut at the ends of the span, gives the piece. Both ends are positions in the source,
so that no character is cut apart. -/
def Cuts (s : Span) (source piece : String) : Prop :=
  ∃ start stop : source.Pos, start.offset.byteIdx = s.start ∧ stop.offset.byteIdx = s.stop ∧
    source.extract start stop = piece

theorem cuts_append (front piece back : String) :
    Cuts ⟨front.utf8ByteSize, front.utf8ByteSize + piece.utf8ByteSize⟩ (front ++ (piece ++ back))
      piece := by
  have hstart : (⟨front.utf8ByteSize⟩ : String.Pos.Raw).IsValid (front ++ (piece ++ back)) :=
    String.Pos.Raw.isValid_iff_exists_append.2 ⟨front, piece ++ back, rfl, rfl⟩
  have hstop : (⟨front.utf8ByteSize + piece.utf8ByteSize⟩ : String.Pos.Raw).IsValid
      (front ++ (piece ++ back)) :=
    String.Pos.Raw.isValid_iff_exists_append.2
      ⟨front ++ piece, back, String.append_assoc.symm, by simp [String.Pos.Raw.ext_iff]⟩
  refine ⟨⟨_, hstart⟩, ⟨_, hstop⟩, rfl, rfl, String.toByteArray_inj.1 ?_⟩
  have hpiece : (front.toByteArray ++ (piece.toByteArray ++ back.toByteArray)).extract
      (front.toByteArray.size + 0) (front.toByteArray.size + piece.toByteArray.size) =
      piece.toByteArray := by
    rw [ByteArray.extract_append_size_add, ByteArray.extract_append_size_left,
      ByteArray.extract_zero_size]
  rwa [← String.toByteArray_append, ← String.toByteArray_append] at hpiece

theorem Cuts.stop_le (h : s.Cuts source piece) : s.stop ≤ source.utf8ByteSize := by
  obtain ⟨-, stop, -, hstop, -⟩ := h
  rw [← hstop]
  exact stop.isValid.le_rawEndPos

/-- A piece that is not empty takes up room. -/
theorem Cuts.start_lt_stop (h : s.Cuts source piece) (hpiece : piece ≠ "") : s.start < s.stop := by
  obtain ⟨start, stop, hstart, hstop, hextract⟩ := h
  by_contra hle
  refine hpiece (String.toByteArray_eq_empty_iff.1 ?_)
  rw [← hextract, String.extract, ByteArray.extract_eq_empty_iff]
  omega

end Span

namespace Line

theorem exists_of_mem_laidOut (front : List Char) {pieces : List (List Char)} {line : Line}
    (h : line ∈ laidOut (byteLength front) pieces) :
    ∃ before after, front ++ ['\n'].intercalate pieces = before ++ (line.text ++ after) ∧
      line.span = ⟨byteLength before, byteLength before + byteLength line.text⟩ := by
  induction pieces generalizing front with
  | nil => cases h
  | cons piece pieces ih =>
    rcases List.mem_cons.1 h with rfl | hlater
    · obtain ⟨ending, hending⟩ := dropReturn_isPrefix piece
      obtain ⟨later, hlater⟩ : ∃ later, ['\n'].intercalate (piece :: pieces) = piece ++ later := by
        cases pieces with
        | nil => exact ⟨[], by simp⟩
        | cons next pieces => exact ⟨_, by rw [List.intercalate_cons_cons, List.append_assoc]⟩
      refine ⟨front, ending ++ later, ?_, rfl⟩
      rw [hlater, text_starting, ← List.append_assoc (dropReturn piece), hending]
    · have hne : pieces ≠ [] := by
        rintro rfl
        cases hlater
      have hfront : byteLength (front ++ piece ++ ['\n']) =
          byteLength front + byteLength piece + 1 := by
        rw [byteLength_append, byteLength_append]
        rfl
      obtain ⟨before, after, hsource, hspan⟩ :=
        ih (front ++ piece ++ ['\n']) (hfront ▸ hlater)
      refine ⟨before, after, ?_, hspan⟩
      rw [List.intercalate_cons_of_ne_nil hne, ← hsource]
      simp

theorem start_le_of_mem_laidOut {start : Nat} {pieces : List (List Char)} {line : Line}
    (h : line ∈ laidOut start pieces) : start ≤ line.span.start := by
  induction pieces generalizing start with
  | nil => cases h
  | cons piece pieces ih =>
    rcases List.mem_cons.1 h with rfl | hlater
    · exact Nat.le_refl start
    · have := ih hlater
      omega

theorem byteLength_dropReturn_le (piece : List Char) :
    byteLength (dropReturn piece) ≤ byteLength piece := by
  obtain ⟨ending, hending⟩ := dropReturn_isPrefix piece
  have := congrArg byteLength hending
  rw [byteLength_append] at this
  omega

theorem pairwise_laidOut (start : Nat) (pieces : List (List Char)) :
    (laidOut start pieces).Pairwise fun a b => a.span.stop < b.span.start := by
  induction pieces generalizing start with
  | nil => exact .nil
  | cons piece pieces ih =>
    refine .cons (fun later hlater => ?_) (ih _)
    have hstop : (starting start piece).span.stop = start + byteLength (dropReturn piece) := rfl
    have := start_le_of_mem_laidOut hlater
    have := byteLength_dropReturn_le piece
    omega

/-- Lines that stand in the source where their spans say, one behind the other. -/
structure Placed (source : String) (lines : List Line) : Prop where
  text_ne_nil : ∀ line ∈ lines, line.text ≠ []
  cuts : ∀ line ∈ lines, line.span.Cuts source (String.ofList line.text)
  pairwise : lines.Pairwise fun a b => a.span.stop < b.span.start

theorem Placed.inside {source : String} {lines : List Line} (h : Placed source lines) :
    ∀ line ∈ lines, line.span.start < line.span.stop ∧ line.span.stop ≤ source.utf8ByteSize := by
  intro line hline
  have hcut := h.cuts line hline
  refine ⟨hcut.start_lt_stop ?_, hcut.stop_le⟩
  simpa using h.text_ne_nil line hline

theorem placed_ofText {source : String} {lines : List Line} (h : ofText source = some lines) :
    Placed source lines := by
  rw [ofText_eq] at h
  cases h
  refine ⟨fun line hline => ?_, fun line hline => ?_, (pairwise_laidOut _ _).filter _⟩
  · simpa using (List.mem_filter.1 hline).2
  · obtain ⟨before, after, hsource, hspan⟩ :=
      exists_of_mem_laidOut [] (List.mem_filter.1 hline).1
    rw [List.intercalate_splitOn, List.nil_append] at hsource
    have hstring : source =
        String.ofList before ++ (String.ofList line.text ++ String.ofList after) := by
      rw [← String.ofList_append, ← String.ofList_append, ← hsource, String.ofList_toList]
    have hcuts := Span.cuts_append (String.ofList before) (String.ofList line.text)
      (String.ofList after)
    rwa [← hstring, utf8ByteSize_ofList, utf8ByteSize_ofList, ← hspan] at hcuts

end Line

end CircuitPicture
