import CircuitPicture.Grid.Parse
import CircuitPicture.Proofs.LineCutting

/-! # Reading a grid

Which texts are grids is said of their qubit lines alone (`qubitLines`): there must be one, and they
must have the same number of characters. What is no grid ends in one diagnostic. -/

namespace CircuitPicture.Grid
open Line

/-- Lines of one length make the grid with one row per line. -/
theorem ofLines_of_forall_length {lines : List Line} {width : Nat} (hne : lines ≠ [])
    (hpos : 0 < width) (hlength : ∀ line ∈ lines, line.text.length = width) :
    ∃ g, ofLines lines = .ok g ∧ g.columnCount = width ∧
      g.rows = lines.map fun line => line.text.map Symbol.ofChar := by
  let g : Grid := {
    rows := lines.map fun line => line.text.map Symbol.ofChar
    columnCount := width
    rows_ne_nil := by simpa using hne
    columnCount_pos := hpos
    length_row := by simpa using hlength }
  refine ⟨g, ?_, rfl, rfl⟩
  rcases lines with _ | ⟨first, rest⟩
  · exact absurd rfl hne
  · have hfilter :
        ((first :: rest).filter fun line => line.text.length != first.text.length) = [] := by
      refine List.filter_eq_nil_iff.2 fun line hline => ?_
      simp [hlength line hline, hlength first (by simp)]
    have hrows : ofRows ((first :: rest).map fun line => line.text.map Symbol.ofChar) = .ok g :=
      ofRows_rows g
    simp only [ofLines, hfilter, hrows]

/-- Lines of which one differs in length from the first make one diagnostic that points at the first
line and at all that differ from it. -/
theorem ofLines_of_exists_length_ne {first line : Line} {rest : List Line}
    (hmem : line ∈ first :: rest) (hne : line.text.length ≠ first.text.length) :
    ∃ other others, ofLines (first :: rest) = .error ⟨[.irregular first (other :: others)]⟩ := by
  have hfilter : line ∈ (first :: rest).filter fun line => line.text.length != first.text.length :=
    List.mem_filter.2 ⟨hmem, by simpa using hne⟩
  rcases h : (first :: rest).filter fun line => line.text.length != first.text.length with
    _ | ⟨other, others⟩
  · rw [h] at hfilter
    cases hfilter
  · exact ⟨other, others, by simp only [ofLines, h]⟩

/-- The qubit lines of a text: its pieces between line feeds, each without one carriage return at
its end, and the empty ones left out. -/
def qubitLines (source : String) : List (List Char) :=
  ((source.toList.splitOn '\n').map dropReturn).filter fun line => !line.isEmpty

def SameLength (lines : List (List Char)) : Prop := ∃ width, ∀ line ∈ lines, line.length = width

theorem qubitLines_eq {source : String} {lines : List Line} (h : ofText source = some lines) :
    qubitLines source = lines.map Line.text := by
  rw [ofText_eq] at h
  cases h
  rw [qubitLines, ← map_text_laidOut 0, List.filter_map]
  rfl

theorem parse_cases (source : String) :
    (qubitLines source = [] ∧ parse source = .error ⟨[.noLines]⟩) ∨
    (qubitLines source ≠ [] ∧ SameLength (qubitLines source) ∧ ∃ g, parse source = .ok g ∧
      g.rows = (qubitLines source).map fun line => line.map Symbol.ofChar) ∨
    (qubitLines source ≠ [] ∧ ¬ SameLength (qubitLines source) ∧ ∃ first other others,
      parse source = .error ⟨[.irregular first (other :: others)]⟩) := by
  have htext := ofText_eq source
  have hlines := qubitLines_eq htext
  generalize (laidOut 0 (source.toList.splitOn '\n')).filter _ = lines at htext hlines
  simp only [parse, htext, hlines]
  rcases lines with _ | ⟨first, rest⟩
  · exact .inl ⟨rfl, rfl⟩
  · right
    by_cases hsame : ∀ line ∈ first :: rest, line.text.length = first.text.length
    · left
      have hpos : 0 < first.text.length := by
        have : first.text ∈ qubitLines source := by simp [hlines]
        simpa [qubitLines, List.length_pos_iff] using (List.mem_filter.1 this).2
      obtain ⟨g, hg, _, hrows⟩ := ofLines_of_forall_length (List.cons_ne_nil _ _) hpos hsame
      refine ⟨by simp, ⟨first.text.length, ?_⟩, g, hg, by rw [hrows, List.map_map]; rfl⟩
      simpa only [List.forall_mem_map] using hsame
    · right
      obtain ⟨line, hline⟩ := Classical.not_forall.1 hsame
      obtain ⟨hline, hne⟩ := Classical.not_imp.1 hline
      refine ⟨by simp, ?_, first, ofLines_of_exists_length_ne hline hne⟩
      -- A common length would be the length of the first line, with which the line was compared.
      rintro ⟨width, hwidth⟩
      have hall : ∀ line ∈ first :: rest, line.text.length = width := by
        simpa only [List.forall_mem_map] using hwidth
      exact hne ((hall line hline).trans (hall first (by simp)).symm)

/-- A text is a grid of the characters of its qubit lines if and only if it has one and all of them
have the same number of characters. Any other text ends in one diagnostic, for its lack of lines or
for their lengths. -/
theorem parse_outcome (source : String) :
    ((∃ g, parse source = .ok g) ↔ qubitLines source ≠ [] ∧ SameLength (qubitLines source)) ∧
    (∀ g, parse source = .ok g →
      g.rowCount = (qubitLines source).length ∧
      (∀ line ∈ qubitLines source, line.length = g.columnCount) ∧
      ∀ qubit step, g.symbol? qubit step =
        ((qubitLines source)[qubit]?.bind fun cells => cells[step]?).map Symbol.ofChar) ∧
    (qubitLines source = [] → ∃ d, parse source = .error ⟨[d]⟩ ∧
      d.code.map FaultCode.text = some "E100" ∧ d.labels = []) ∧
    (qubitLines source ≠ [] → ¬ SameLength (qubitLines source) →
      ∃ d, parse source = .error ⟨[d]⟩ ∧
        d.code.map FaultCode.text = some "E101" ∧ 2 ≤ d.labels.length) ∧
    (∃ lines, Line.ofText source = some lines) ∧
    ∀ e, parse source ≠ .error ⟨[.misshapen e]⟩ := by
  have hsplit : ∃ lines, Line.ofText source = some lines := ⟨_, ofText_eq source⟩
  rcases parse_cases source with ⟨hnil, hparse⟩ | ⟨hne, hsame, g, hparse, hrows⟩ |
    ⟨hne, hsame, first, other, others, hparse⟩
  · refine ⟨?_, ?_, fun _ => ⟨_, hparse, rfl, rfl⟩, fun h => absurd hnil h, hsplit, ?_⟩
    · simp [hparse, hnil]
    · simp [hparse]
    · simp [hparse, Diagnostic.noLines, Diagnostic.misshapen]
  · refine ⟨?_, ?_, fun h => absurd h hne, fun _ h => absurd hsame h, hsplit, ?_⟩
    · simp [hparse, hne, hsame]
    · rintro g' hg
      cases hparse.symm.trans hg
      refine ⟨by simp [rowCount, hrows], fun line hline => ?_, fun qubit step => ?_⟩
      · have hmem : line.map Symbol.ofChar ∈ g.rows := hrows ▸ List.mem_map_of_mem hline
        simpa using g.length_row _ hmem
      · rw [symbol?, hrows, List.getElem?_map]
        cases (qubitLines source)[qubit]? <;> simp
    · simp [hparse]
  · refine ⟨?_, ?_, fun h => absurd h hne, fun _ _ => ⟨_, hparse, rfl, ?_⟩, hsplit, ?_⟩
    · simp [hparse, hsame]
    · simp [hparse]
    · simp [Diagnostic.irregular]
    · simp [hparse, Diagnostic.irregular, Diagnostic.misshapen]

end CircuitPicture.Grid
