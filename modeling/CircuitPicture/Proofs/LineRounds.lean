import CircuitPicture.Proofs.GridReading

/-! # Rounds of reading

Lines are read round by round until nothing is left, and every round leaves less than it found
(`getsOn_read`). The rounds can be counted beforehand: one for each line feed, and one for a last
line without (`ofText_ends`). -/

namespace CircuitPicture

namespace Cursor

variable {α : Type} {reader : Reader α} {cursor last next : Cursor} {values : List α}

/-- Wherever something is left to read, the reader succeeds and leaves a shorter end of it. -/
def GetsOn (reader : Reader α) : Prop :=
  ∀ cursor : Cursor, cursor.rest ≠ [] → ∃ value next, reader cursor = some (value, next) ∧
    next.rest <:+ cursor.rest ∧ next.rest.length < cursor.rest.length

/-- What a reader gives that is used again and again, each time with something left to read, and
where the cursor then stands. -/
inductive Rounds (reader : Reader α) : Cursor → List α → Cursor → Prop
  | nil (cursor : Cursor) : Rounds reader cursor [] cursor
  | cons {cursor next last : Cursor} {value : α} {values : List α} (hrest : cursor.rest ≠ [])
      (hread : reader cursor = some (value, next)) (hrounds : Rounds reader next values last) :
      Rounds reader cursor (value :: values) last

/-- A reader that gets on comes to the end of the text. -/
theorem GetsOn.exists_rounds (h : GetsOn reader) (cursor : Cursor) :
    ∃ values last, Rounds reader cursor values last ∧ last.rest = [] := by
  -- Every round leaves less, so the induction is on what is left and not on the rounds.
  induction hlength : cursor.rest.length using Nat.strong_induction_on generalizing cursor with
  | _ n ih =>
    subst hlength
    by_cases hrest : cursor.rest = []
    · exact ⟨[], cursor, .nil cursor, hrest⟩
    · obtain ⟨value, next, hread, -, hlt⟩ := h cursor hrest
      obtain ⟨values, last, hrounds, hend⟩ := ih _ hlt next rfl
      exact ⟨value :: values, last, .cons hrest hread hrounds, hend⟩

/-- Any rounds are the first ones of those that come to the end, since there is one way to go on. -/
theorem Rounds.isPrefix (h : Rounds reader cursor values last) (hend : last.rest = [])
    {earlier : List α} (hearlier : Rounds reader cursor earlier next) : earlier <+: values := by
  induction hearlier generalizing values with
  | nil => exact List.nil_prefix
  | cons hrest hread _ ih =>
    cases h with
    | nil => exact absurd hend hrest
    | cons _ hread' hrounds =>
      cases hread.symm.trans hread'
      exact List.cons_prefix_cons.2 ⟨rfl, ih hrounds⟩

/-- Nothing is taken up to a character only where this character comes next, or nothing at all. -/
theorem eq_self_of_takeTill_iff {stop : Char → Bool} {taken : List Char × Span}
    (h : takeTill stop cursor = some (taken, next)) :
    next = cursor ↔ ∀ c ∈ cursor.rest.head?, stop c = true := by
  obtain ⟨offset, rest⟩ := cursor
  cases h
  cases rest with
  | nil => simp
  | cons c rest =>
    by_cases hstop : stop c = true
    · simp [hstop]
    · have hshorter := (List.dropWhile_suffix (fun c => !stop c) (l := rest)).length_le
      have hne : (rest.dropWhile fun c => !stop c) ≠ c :: rest := by
        intro heq
        rw [heq, List.length_cons] at hshorter
        omega
      simp [hstop, hne]

theorem eq_self_of_optional_takeChar_iff {c : Char}
    (h : optional (takeChar c) cursor = some ((), next)) :
    next = cursor ↔ cursor.rest.head? ≠ some c := by
  rw [optional_takeChar] at h
  split at h
  · rename_i hhead
    cases h
    have hsize := c.utf8Size_pos
    simp only [hhead, ne_eq, not_true_eq_false, iff_false]
    intro heq
    have := congrArg Cursor.offset heq
    simp only at this
    omega
  · rename_i hhead
    cases h
    simp [hhead]

end Cursor

namespace Line

/-- One round for each line feed, and one for a last line without. -/
def roundCount (source : List Char) : Nat :=
  source.count '\n' + if EndsLine source then 0 else 1

theorem roundCount_eq_add_one {source : List Char} (h : source ≠ []) :
    roundCount source = roundCount (afterFirstLine source) + 1 := by
  have hfirst : '\n' ∉ firstLine source := newline_notMem_firstLine source
  -- In the last round there is no line feed, and what is left does not end where a line begins.
  rcases firstLine_cases source with ⟨hline, hrest⟩ | ⟨rest, hrest, hsource⟩
  · have hafter : afterFirstLine source = [] := by rw [afterFirstLine, hrest]; rfl
    rw [hline] at hfirst
    rw [hafter, roundCount, if_neg (not_endsLine_of_notMem h hfirst),
      List.count_eq_zero_of_not_mem hfirst]
    rfl
  · have hafter : afterFirstLine source = rest := by rw [afterFirstLine, hrest]; rfl
    have hcount : source.count '\n' = rest.count '\n' + 1 := by
      rw [hsource, List.count_append, List.count_eq_zero_of_not_mem hfirst, List.count_cons_self,
        Nat.zero_add]
    have hends : EndsLine source ↔ EndsLine rest := by rw [hsource, endsLine_append]
    simp only [hafter, roundCount, hcount, hends]
    omega

theorem afterFirstLine_isSuffix (source : List Char) : afterFirstLine source <:+ source :=
  (List.drop_suffix 1 _).trans (List.dropWhile_suffix _)

theorem getsOn_read : Cursor.GetsOn read := fun cursor h =>
  ⟨_, _, read_eq cursor, afterFirstLine_isSuffix cursor.rest, length_afterFirstLine_lt h⟩

theorem roundCount_of_read {cursor next : Cursor} {line : Line} (h : cursor.rest ≠ [])
    (hread : read cursor = some (line, next)) :
    roundCount cursor.rest = roundCount next.rest + 1 := by
  rw [read_eq] at hread
  cases hread
  exact roundCount_eq_add_one h

/-- The rounds behind and the rounds ahead are always the same number together. -/
theorem length_add_roundCount {cursor last : Cursor} {lines : List Line}
    (h : Cursor.Rounds read cursor lines last) :
    lines.length + roundCount last.rest = roundCount cursor.rest := by
  induction h with
  | nil => exact Nat.zero_add _
  | cons hrest hread _ ih =>
    rw [roundCount_of_read hrest hread, ← ih, List.length_cons, Nat.add_right_comm]

theorem readAll_of_rounds {cursor last : Cursor} {lines : List Line}
    (h : Cursor.Rounds read cursor lines last) (hend : last.rest = []) :
    readAll cursor = some lines := by
  induction h with
  | nil => rw [readAll, dif_pos hend]
  | cons hrest hread _ ih =>
    rw [readAll, dif_neg hrest]
    split
    · rename_i hnone
      cases hread.symm.trans hnone
    · rename_i hsome
      cases hread.symm.trans hsome
      rw [ih hend, Option.map_some]

theorem newline_mem_iff (source : List Char) :
    '\n' ∈ source ↔ (source.dropWhile fun c => c != '\n').head? = some '\n' := by
  rcases firstLine_cases source with ⟨hline, hrest⟩ | ⟨rest, hrest, hsource⟩
  · have hfeed : '\n' ∉ source := hline ▸ newline_notMem_firstLine source
    simp [hrest, hfeed]
  · rw [hrest, hsource]
    simp

/-- A line is read in two parts, its text and a line feed. The first takes nothing in front of a
line feed, the second takes nothing where none is left. -/
theorem exists_parts {cursor : Cursor} (h : cursor.rest ≠ []) : ∃ text span middle line next,
    Cursor.takeTill (fun c => c == '\n') cursor = some ((text, span), middle) ∧
      Cursor.optional (Cursor.takeChar '\n') middle = some ((), next) ∧
      read cursor = some (line, next) ∧
      (middle = cursor ↔ cursor.rest.head? = some '\n') ∧ (next = middle ↔ '\n' ∉ cursor.rest) := by
  obtain ⟨⟨text, span⟩, middle, htext⟩ : ∃ taken middle,
      Cursor.takeTill (fun c => c == '\n') cursor = some (taken, middle) := ⟨_, _, rfl⟩
  have hmiddle : middle = ⟨cursor.offset + byteLength (firstLine cursor.rest),
      cursor.rest.dropWhile fun c => c != '\n'⟩ := by
    cases htext
    rfl
  have hfeed := optional_takeChar_behind (cursor.offset + byteLength (firstLine cursor.rest))
    cursor.rest
  rw [← hmiddle] at hfeed
  refine ⟨text, span, middle, _, _, htext, hfeed, read_eq cursor, ?_, ?_⟩
  · rw [Cursor.eq_self_of_takeTill_iff htext]
    obtain ⟨c, rest, hrest⟩ := List.exists_cons_of_ne_nil h
    simp [hrest]
  · rw [Cursor.eq_self_of_optional_takeChar_iff hfeed, hmiddle, newline_mem_iff]

/-- Wherever something of a text is left, a line is read and a shorter end of the text is left
behind it. So there is one round for each line feed and one for a last line without, and cutting a
text into lines never fails. -/
theorem ofText_ends (source : String) :
    Cursor.GetsOn read ∧
    (∀ cursor : Cursor, cursor.rest ≠ [] → ∃ text span middle line next,
      Cursor.takeTill (fun c => c == '\n') cursor = some ((text, span), middle) ∧
      Cursor.optional (Cursor.takeChar '\n') middle = some ((), next) ∧
      read cursor = some (line, next) ∧
      (middle = cursor ↔ cursor.rest.head? = some '\n') ∧
      (next = middle ↔ '\n' ∉ cursor.rest)) ∧
    (∃ lines last, Cursor.Rounds read (.start source) lines last ∧ last.rest = [] ∧
      lines.length = source.toList.count '\n' + (if EndsLine source.toList then 0 else 1) ∧
      ofText source = some (lines.filter fun line => !line.text.isEmpty) ∧
      ∀ earlier next, Cursor.Rounds read (.start source) earlier next →
        earlier <+: lines ∧ (next.rest ≠ [] → read next ≠ none)) ∧
    Grid.parse source ≠ .error ⟨[.unsplit]⟩ := by
  obtain ⟨lines, last, hrounds, hend⟩ := getsOn_read.exists_rounds (.start source)
  have hcount : lines.length + roundCount [] = roundCount source.toList :=
    hend ▸ length_add_roundCount hrounds
  have hread : readAll (.start source) = some lines := readAll_of_rounds hrounds hend
  refine ⟨getsOn_read, fun cursor h => exists_parts h, ⟨lines, last, hrounds, hend, hcount, ?_,
    fun earlier next hearlier => ⟨hrounds.isPrefix hend hearlier, fun _ => ?_⟩⟩, ?_⟩
  · rw [ofText, hread, Option.map_some]
  · rw [read_eq]
    exact Option.some_ne_none _
  · rcases Grid.parse_cases source with ⟨-, hparse⟩ | ⟨-, -, g, hparse, -⟩ |
      ⟨-, -, first, other, others, hparse⟩
    · simp [hparse, Diagnostic.noLines, Diagnostic.unsplit]
    · simp [hparse]
    · simp [hparse, Diagnostic.irregular, Diagnostic.unsplit]

end Line

end CircuitPicture
