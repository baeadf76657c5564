import CircuitPicture.Proofs.GridFaults
import CircuitPicture.Proofs.GridWriting

/-! # Joined texts

A line feed between two texts cuts them apart again: the lines of the whole are the lines of both,
those of the second text moved by the bytes in front of it (`ofText_joined`). What the whole is read
as follows from what its parts are read as (`parse_joined`). -/

namespace CircuitPicture

def Label.shift (label : Label) (bytes : Nat) : Label :=
  { label with span := label.span.shift bytes }

def Diagnostic.shift (d : Diagnostic) (bytes : Nat) : Diagnostic :=
  { d with labels := d.labels.map fun label => label.shift bytes }

/-- The same error for a text that has `bytes` more bytes in front. -/
def ParseError.shift (e : ParseError) (bytes : Nat) : ParseError :=
  ⟨e.diagnostics.map fun d => d.shift bytes⟩

namespace Line

@[simp] theorem text_shift (line : Line) (bytes : Nat) : (line.shift bytes).text = line.text := rfl

theorem starting_add (start bytes : Nat) (raw : List Char) :
    starting (start + bytes) raw = (starting start raw).shift bytes := by
  simp only [starting, shift, Span.shift, Nat.add_right_comm]

theorem laidOut_add (start bytes : Nat) (pieces : List (List Char)) :
    laidOut (start + bytes) pieces = (laidOut start pieces).map fun line => line.shift bytes := by
  induction pieces generalizing start with
  | nil => rfl
  | cons piece pieces ih =>
    have hnext : start + bytes + byteLength piece + 1 = start + byteLength piece + 1 + bytes := by
      omega
    rw [laidOut, laidOut, List.map_cons, starting_add, hnext, ih]

theorem laidOut_append (start : Nat) {pieces : List (List Char)} (hne : pieces ≠ [])
    (more : List (List Char)) : laidOut start (pieces ++ more) =
      laidOut start pieces ++
        laidOut (start + (byteLength (['\n'].intercalate pieces) + 1)) more := by
  induction pieces generalizing start with
  | nil => exact absurd rfl hne
  | cons piece pieces ih =>
    cases pieces with
    | nil => simp [laidOut, Nat.add_assoc]
    | cons next pieces =>
      have hfeed : byteLength ['\n'] = 1 := rfl
      rw [List.cons_append, laidOut, ih _ (List.cons_ne_nil _ _), laidOut.eq_2 start piece,
        List.cons_append, List.intercalate_cons_cons, byteLength_append, byteLength_append, hfeed]
      congr 3
      omega

theorem ofText_joined {a b : String} {front back : List Line} (ha : ofText a = some front)
    (hb : ofText b = some back) : ofText (a ++ "\n" ++ b) =
      some (front ++ back.map fun line => line.shift (a.utf8ByteSize + 1)) := by
  rw [ofText_eq] at ha hb
  cases ha
  cases hb
  have hsplit : (a ++ "\n" ++ b).toList.splitOn '\n' =
      a.toList.splitOn '\n' ++ b.toList.splitOn '\n' := by
    rw [String.toList_append, String.toList_append, ← List.splitOn_append_cons_self]
    exact congrArg (List.splitOn '\n') (List.append_assoc _ _ _)
  have hlength : byteLength (['\n'].intercalate (a.toList.splitOn '\n')) = a.utf8ByteSize := by
    rw [List.intercalate_splitOn, ← utf8ByteSize_ofList, String.ofList_toList]
  rw [ofText_eq, hsplit, laidOut_append 0 (List.splitOn_ne_nil _ _), hlength, laidOut_add,
    List.filter_append, List.filter_map]
  rfl

end Line

namespace Grid
open Line

theorem irregular_shift (first : Line) (mismatched : List Line) (bytes : Nat) :
    Diagnostic.irregular (first.shift bytes) (mismatched.map fun line => line.shift bytes) =
      (Diagnostic.irregular first mismatched).shift bytes := by
  simp only [Diagnostic.irregular, Diagnostic.shift, List.map_cons, List.map_map]
  rfl

/-- Where the lines of a text stand changes nothing but the places in its error. -/
theorem ofLines_shift (lines : List Line) (bytes : Nat) :
    ofLines (lines.map fun line => line.shift bytes) =
      (ofLines lines).mapError fun e => e.shift bytes := by
  rcases lines with _ | ⟨first, rest⟩
  · rfl
  · have hfilter : ((first :: rest).map fun line => line.shift bytes).filter
        (fun line => line.text.length != first.text.length) =
        ((first :: rest).filter fun line => line.text.length != first.text.length).map
          fun line => line.shift bytes := List.filter_map
    rcases hmismatched : (first :: rest).filter fun line =>
      line.text.length != first.text.length with _ | ⟨other, others⟩
    · rw [hmismatched] at hfilter
      simp only [List.map_cons, List.map_nil] at hfilter
      simp only [ofLines, List.map_cons, text_shift, hfilter, hmismatched, List.map_map,
        Function.comp_def]
      cases ofRows _ <;> rfl
    · have hshift := irregular_shift first (other :: others) bytes
      rw [hmismatched] at hfilter
      simp only [List.map_cons] at hfilter hshift
      simp only [ofLines, List.map_cons, text_shift, hfilter, hmismatched, hshift]
      rfl

/-- A text fails with a code. -/
def FailsWith (code source : String) : Prop :=
  ∃ e, parse source = .error e ∧ e.code.map FaultCode.text = some code

theorem failsWith_noLines_iff (source : String) :
    FailsWith "E100" source ↔ qubitLines source = [] := by
  rcases parse_cases source with ⟨hnil, hparse⟩ | ⟨hne, -, g, hparse, -⟩ |
    ⟨hne, -, first, other, others, hparse⟩
  · exact iff_of_true ⟨_, hparse, rfl⟩ hnil
  · refine iff_of_false ?_ hne
    rintro ⟨e, he, -⟩
    cases hparse.symm.trans he
  · refine iff_of_false ?_ hne
    rintro ⟨e, he, hcode⟩
    cases hparse.symm.trans he
    have hcodes : some "E101" = some "E100" := hcode
    exact absurd hcodes (by decide)

theorem failsWith_irregular {source : String} (h : ¬ SameLength (qubitLines source)) :
    FailsWith "E101" source := by
  obtain ⟨first, rest, -, -, hparse⟩ := parse_of_not_sameLength h
  exact ⟨_, hparse, rfl⟩

theorem length_of_parse {source : String} {g : Grid} (h : parse source = .ok g) :
    ∀ line ∈ qubitLines source, line.length = g.columnCount := by
  intro line hline
  have hrow : line.map Symbol.ofChar ∈ g.rows := rows_of_parse h ▸ List.mem_map_of_mem hline
  rw [← g.length_row _ hrow, List.length_map]

theorem exists_parse_of_length {source : String} {width : Nat} (hne : qubitLines source ≠ [])
    (hwidth : ∀ line ∈ qubitLines source, line.length = width) :
    ∃ g, parse source = .ok g ∧ g.columnCount = width := by
  rcases parse_cases source with ⟨hnil, -⟩ | ⟨-, -, g, hparse, -⟩ | ⟨-, hsame, -⟩
  · exact absurd hnil hne
  · obtain ⟨line, hline⟩ := List.exists_mem_of_ne_nil _ hne
    exact ⟨g, hparse, (length_of_parse hparse line hline).symm.trans (hwidth line hline)⟩
  · exact absurd ⟨width, hwidth⟩ hsame

theorem qubitLines_joined (a b : String) :
    qubitLines (a ++ "\n" ++ b) = qubitLines a ++ qubitLines b := by
  have ha := ofText_eq a
  have hb := ofText_eq b
  rw [qubitLines_eq (ofText_joined ha hb), qubitLines_eq ha, qubitLines_eq hb, List.map_append,
    List.map_map]
  rfl

theorem parse_joined_of_ok {a b : String} {g h : Grid} (ha : parse a = .ok g)
    (hb : parse b = .ok h) (hcolumns : g.columnCount = h.columnCount) :
    ∃ k, parse (a ++ "\n" ++ b) = .ok k ∧ k.rows = g.rows ++ h.rows := by
  have hjoined := qubitLines_joined a b
  have hne : qubitLines (a ++ "\n" ++ b) ≠ [] := by
    intro hnil
    have hrows := rows_of_parse ha
    rw [hjoined, List.append_eq_nil_iff] at hnil
    rw [hnil.1] at hrows
    exact g.rows_ne_nil hrows
  have hlength : ∀ line ∈ qubitLines (a ++ "\n" ++ b), line.length = g.columnCount := by
    intro line hline
    rw [hjoined] at hline
    rcases List.mem_append.1 hline with hfront | hback
    · exact length_of_parse ha line hfront
    · exact (length_of_parse hb line hback).trans hcolumns.symm
  obtain ⟨k, hparse, -⟩ := exists_parse_of_length hne hlength
  refine ⟨k, hparse, ?_⟩
  rw [rows_of_parse hparse, rows_of_parse ha, rows_of_parse hb, hjoined, List.map_append]

/-- Two texts that have lines make a text of equally long lines only if both are grids, with the
same number of columns. -/
theorem parse_of_sameLength_joined {a b : String} (ha : qubitLines a ≠ []) (hb : qubitLines b ≠ [])
    (hsame : SameLength (qubitLines (a ++ "\n" ++ b))) :
    ∃ g h, parse a = .ok g ∧ parse b = .ok h ∧ g.columnCount = h.columnCount := by
  obtain ⟨width, hwidth⟩ := hsame
  rw [qubitLines_joined] at hwidth
  obtain ⟨hfront, hback⟩ := List.forall_mem_append.1 hwidth
  obtain ⟨g, hg, hgwidth⟩ := exists_parse_of_length ha hfront
  obtain ⟨h, hh, hhwidth⟩ := exists_parse_of_length hb hback
  exact ⟨g, h, hg, hh, hgwidth.trans hhwidth.symm⟩

/-- The lines of two texts with a line feed between them are those of the first text and, moved,
those of the second. So two grids of one width are read as the rows of both, and a text without
lines leaves the other one as it is. -/
theorem parse_joined (a b : String) :
    let joined := a ++ "\n" ++ b
    let offset := a.utf8ByteSize + 1
    (∃ front back, Line.ofText a = some front ∧ Line.ofText b = some back ∧
      Line.ofText joined = some (front ++ back.map fun line => line.shift offset)) ∧
    (∀ g h, parse a = .ok g → parse b = .ok h → g.columnCount = h.columnCount →
      ∃ k, parse joined = .ok k ∧ k.rows = g.rows ++ h.rows) ∧
    (FailsWith "E100" a → parse joined = (parse b).mapError fun e => e.shift offset) ∧
    (FailsWith "E100" b → parse joined = parse a) ∧
    (¬ FailsWith "E100" a → ¬ FailsWith "E100" b →
      (∀ g h, parse a = .ok g → parse b = .ok h → g.columnCount ≠ h.columnCount) →
      FailsWith "E101" joined) := by
  intro joined offset
  obtain ⟨front, ha⟩ : ∃ front, ofText a = some front := ⟨_, ofText_eq a⟩
  obtain ⟨back, hb⟩ : ∃ back, ofText b = some back := ⟨_, ofText_eq b⟩
  have hlines : ofText joined = some (front ++ back.map fun line => line.shift offset) :=
    ofText_joined ha hb
  refine ⟨⟨front, back, ha, hb, hlines⟩, fun g h => parse_joined_of_ok, fun hempty => ?_,
    fun hempty => ?_, fun hfront hback hcolumns => ?_⟩
  · obtain rfl : front = [] := by
      rwa [failsWith_noLines_iff, qubitLines_eq ha, List.map_eq_nil_iff] at hempty
    simp only [parse, hlines, hb, List.nil_append, ofLines_shift]
  · obtain rfl : back = [] := by
      rwa [failsWith_noLines_iff, qubitLines_eq hb, List.map_eq_nil_iff] at hempty
    simp only [parse, hlines, ha, List.map_nil, List.append_nil]
  · rw [failsWith_noLines_iff] at hfront hback
    refine failsWith_irregular fun hsame => ?_
    obtain ⟨g, h, hg, hh, heq⟩ := parse_of_sameLength_joined hfront hback hsame
    exact hcolumns g h hg hh heq

end Grid

end CircuitPicture
