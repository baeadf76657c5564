import CircuitPicture.Text.Line
import Mathlib.Data.List.TakeWhile

/-! # Cutting a text into lines

Reading line by line never fails, and it gives the pieces of the text between its line feeds, laid
out one after the other with one byte for each line feed (`readAll_eq`). -/

namespace CircuitPicture.Line

/-- The lines with these texts, line endings apart, of which the first starts at byte `start`. -/
def laidOut (start : Nat) : List (List Char) → List Line
  | [] => []
  | piece :: pieces => starting start piece :: laidOut (start + byteLength piece + 1) pieces

/-- Whether a text ends where a line begins. -/
def EndsLine (source : List Char) : Prop := source = [] ∨ source.getLast? = some '\n'

instance (source : List Char) : Decidable (EndsLine source) := by
  unfold EndsLine
  infer_instance

@[simp] theorem text_starting (start : Nat) (raw : List Char) :
    (starting start raw).text = dropReturn raw := rfl

@[simp] theorem dropReturn_nil : dropReturn [] = [] := rfl

theorem dropReturn_isPrefix (text : List Char) : dropReturn text <+: text := by
  rw [dropReturn]
  split
  · exact text.dropLast_prefix
  · exact List.prefix_rfl

theorem map_text_laidOut (start : Nat) (pieces : List (List Char)) :
    (laidOut start pieces).map Line.text = pieces.map dropReturn := by
  induction pieces generalizing start with
  | nil => rfl
  | cons piece pieces ih => simp [laidOut, ih]

theorem newline_notMem_firstLine (source : List Char) : '\n' ∉ firstLine source := by
  intro h
  simpa using List.mem_takeWhile_imp h

theorem newline_notMem_of_mem_splitOn {source piece : List Char}
    (h : piece ∈ source.splitOn '\n') : '\n' ∉ piece := by
  induction source generalizing piece with
  | nil =>
    rw [List.splitOn_nil, List.mem_singleton] at h
    simp [h]
  | cons c source ih =>
    rw [List.splitOn_cons_eq_if_modifyHead] at h
    by_cases hc : c = '\n'
    · rw [if_pos (beq_iff_eq.2 hc)] at h
      rcases List.mem_cons.1 h with rfl | h
      · exact List.not_mem_nil
      · exact ih h
    · rw [if_neg (by simpa using hc)] at h
      rcases hsplit : source.splitOn '\n' with _ | ⟨first, rest⟩
      · exact absurd hsplit (List.splitOn_ne_nil _ _)
      · rw [hsplit] at h
        rcases List.mem_cons.1 h with rfl | h
        · have hfirst : '\n' ∉ first := ih (by simp [hsplit])
          simp [hfirst, Ne.symm hc]
        · exact ih (by simp [hsplit, h])

theorem newline_notMem_dropReturn {source piece : List Char} (h : piece ∈ source.splitOn '\n') :
    '\n' ∉ dropReturn piece :=
  fun hmem => newline_notMem_of_mem_splitOn h ((dropReturn_isPrefix piece).subset hmem)

/-- A text is one line, or it is a line, a line feed and a rest. -/
theorem firstLine_cases (source : List Char) :
    (firstLine source = source ∧ (source.dropWhile fun c => c != '\n') = []) ∨
      ∃ rest, (source.dropWhile fun c => c != '\n') = '\n' :: rest ∧
        source = firstLine source ++ '\n' :: rest := by
  have happend : firstLine source ++ (source.dropWhile fun c => c != '\n') = source :=
    List.takeWhile_append_dropWhile
  rcases h : source.dropWhile fun c => c != '\n' with _ | ⟨c, rest⟩
  · rw [h, List.append_nil] at happend
    exact .inl ⟨happend, rfl⟩
  · have hc : c = '\n' := by simpa [h] using List.head?_dropWhile_not (fun c => c != '\n') source
    subst hc
    rw [h] at happend
    exact .inr ⟨rest, rfl, happend.symm⟩

theorem endsLine_append (line rest : List Char) :
    EndsLine (line ++ '\n' :: rest) ↔ EndsLine rest := by
  unfold EndsLine
  cases rest with
  | nil => simp
  | cons c rest => simp

theorem not_endsLine_of_notMem {source : List Char} (hne : source ≠ []) (hfeed : '\n' ∉ source) :
    ¬ EndsLine source := by
  rintro (hnil | hlast)
  · exact hne hnil
  · exact hfeed (List.mem_of_getLast? hlast)

/-- Reading line by line never fails and gives the pieces between the line feeds, except that
nothing is read after a last line feed. -/
theorem readAll_eq (cursor : Cursor) : ∃ lines, readAll cursor = some lines ∧
    laidOut cursor.offset (cursor.rest.splitOn '\n') =
      lines ++ if EndsLine cursor.rest then
        [starting (cursor.offset + byteLength cursor.rest) []] else [] := by
  fun_induction readAll cursor with
  | case1 cursor h => exact ⟨[], rfl, by simp [h, laidOut, EndsLine]⟩
  | case2 cursor h hread => rw [read_eq] at hread; cases hread
  | case3 cursor h line next hread ih =>
    obtain ⟨lines, hlines, hlaid⟩ := ih
    rw [read_eq] at hread
    cases hread
    refine ⟨_, congrArg (Option.map _) hlines, ?_⟩
    -- Without a line feed this is the last line, and reading goes on at the end of the text.
    rcases firstLine_cases cursor.rest with ⟨hline, hrest⟩ | ⟨rest, hrest, hsource⟩
    · have hfeed : '\n' ∉ cursor.rest := hline ▸ newline_notMem_firstLine cursor.rest
      have hends : ¬ EndsLine cursor.rest := not_endsLine_of_notMem h hfeed
      have hlines : lines = [] := by
        simpa [afterFirstLine, hrest, laidOut, EndsLine] using hlaid.symm
      rw [hline, hlines, List.splitOn_eq_singleton hfeed, if_neg hends]
      rfl
    · have hafter : afterFirstLine cursor.rest = rest := by rw [afterFirstLine, hrest]; rfl
      have hfeed : byteLength ['\n'] = 1 := rfl
      have hlength : byteLength cursor.rest =
          byteLength (firstLine cursor.rest) + 1 + byteLength rest := by
        have := congrArg byteLength hsource
        rwa [List.append_cons, byteLength_append, byteLength_append, hfeed] at this
      have hends : EndsLine cursor.rest ↔ EndsLine rest := by rw [hsource, endsLine_append]
      have hsplit : cursor.rest.splitOn '\n' = firstLine cursor.rest :: rest.splitOn '\n' :=
        (congrArg (List.splitOn '\n') hsource).trans
          (List.splitOn_append_cons_self_of_not_mem (newline_notMem_firstLine _) rest)
      simp only [hrest, hafter, List.take_succ_cons, List.take_zero, hfeed] at hlaid
      simp only [hsplit, laidOut, hlaid, hends, hlength, List.cons_append, ← Nat.add_assoc]

/-- The lines of a text are its pieces between line feeds, the empty ones left out. -/
theorem ofText_eq (source : String) : ofText source =
    some ((laidOut 0 (source.toList.splitOn '\n')).filter fun line => !line.text.isEmpty) := by
  obtain ⟨lines, hread, hlaid⟩ := readAll_eq (.start source)
  rw [ofText, hread, Option.map_some]
  change laidOut 0 (source.toList.splitOn '\n') = _ at hlaid
  rw [hlaid, List.filter_append]
  split <;> simp

end CircuitPicture.Line
