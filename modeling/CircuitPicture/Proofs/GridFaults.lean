import CircuitPicture.Report
import CircuitPicture.Proofs.GridReading
import CircuitPicture.Proofs.LinePlaces
import Mathlib.Data.List.Forall2

/-! # Lines of different lengths

A text whose lines differ in length ends in one diagnostic. Its labels stand on the first line and
on every line that differs from it, in the order of the text, and a report shows the same places. -/

namespace CircuitPicture

namespace LabeledSpan

/-- The place is that of the label, with its remark. The place ends where the span does, so that its
length is not cut off at zero. -/
structure Shows (place : LabeledSpan) (label : Label) : Prop where
  offset : place.offset = label.span.start
  stop : place.offset + place.length = label.span.stop
  remark : place.remark = some label.message
  isPrimary : place.isPrimary = label.isPrimary

end LabeledSpan

namespace Grid
open Line

/-- The lines of another length than the first one. -/
def differing (first : Line) (rest : List Line) : List Line :=
  rest.filter fun line => line.text.length != first.text.length

theorem filter_cons_eq_differing (first : Line) (rest : List Line) :
    ((first :: rest).filter fun line => line.text.length != first.text.length) =
      differing first rest := by
  simp [differing]

theorem sameLength_of_differing_eq_nil {first : Line} {rest : List Line}
    (h : differing first rest = []) : SameLength ((first :: rest).map Line.text) := by
  have hrest : ∀ line ∈ rest, line.text.length = first.text.length := by
    simpa [differing] using h
  exact ⟨first.text.length, by simpa using hrest⟩

theorem parse_of_not_sameLength {source : String} (h : ¬ SameLength (qubitLines source)) :
    ∃ first rest, ofText source = some (first :: rest) ∧ differing first rest ≠ [] ∧
      parse source = .error ⟨[.irregular first (differing first rest)]⟩ := by
  have htext := ofText_eq source
  have hlines := qubitLines_eq htext
  generalize (laidOut 0 (source.toList.splitOn '\n')).filter _ = lines at htext hlines
  rw [hlines] at h
  rcases lines with _ | ⟨first, rest⟩
  · exact absurd ⟨0, nofun⟩ h
  · have hne : differing first rest ≠ [] := fun hnil => h (sameLength_of_differing_eq_nil hnil)
    refine ⟨first, rest, htext, hne, ?_⟩
    simp only [parse, htext, ofLines, filter_cons_eq_differing]

end Grid

end CircuitPicture
