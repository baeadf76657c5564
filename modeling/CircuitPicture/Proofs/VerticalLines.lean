import CircuitPicture.Proofs.PlacementCounts

/-! # Vertical lines across rows

A gate that spans several rows is drawn by its cells one by one. A line between two rows comes from
the lower cell, which draws it upwards, or from the upper cell, which draws it one row down; either
way it stands at the same place (`DrawnBy.count_line`). -/

namespace CircuitPicture

open Raster

/-- A primitive that the symbols `up` draw at their own row, and the symbols `down` at the height
`gap` above the row below them. -/
structure DrawnBy (p : Primitive) (up down : List Symbol) (gap : Rat) : Prop where
  ne_wire : p ≠ .wire
  gap_nonneg : 0 ≤ gap
  gap_lt : gap < 9 / 4
  count : ∀ (s : Symbol) (dy : Rat), s.stamps.count ⟨p, dy⟩ =
    (if dy = 0 ∧ s ∈ up then 1 else 0) + (if dy = gap - 9 / 4 ∧ s ∈ down then 1 else 0)

theorem touching_drawnBy : DrawnBy .lineUpTouching [.crossUp, .controlUp, .swapBottom]
    [.crossDown, .controlDown] 0 where
  ne_wire := by decide
  gap_nonneg := le_rfl
  gap_lt := by norm_num
  count s dy := by
    have hdown : (0 - 9 / 4 : Rat) = -9 / 4 := by norm_num
    rw [hdown]
    cases s <;> simp [Symbol.stamps, Stamp.onAnchor, Stamp.oneRowDown, Stamp.downToGate,
      List.count_cons, eq_comm (a := dy)]

theorem room_drawnBy : DrawnBy .lineUpRoom [.controlUpToGate] [.controlDownToGate] (3 / 4) where
  ne_wire := by decide
  gap_nonneg := by norm_num
  gap_lt := by norm_num
  count s dy := by
    have hdown : (3 / 4 - 9 / 4 : Rat) = -6 / 4 := by norm_num
    rw [hdown]
    cases s <;> simp [Symbol.stamps, Stamp.onAnchor, Stamp.oneRowDown, Stamp.downToGate,
      List.count_cons, eq_comm (a := dy)]

theorem sum_range_single (n k : Nat) (P : Nat → Prop) [DecidablePred P] :
    ∑ q ∈ Finset.range n, (if q = k ∧ P q then 1 else 0) = if k < n ∧ P k then 1 else 0 := by
  simp only [ite_and, Finset.sum_ite_eq', Finset.mem_range]

namespace DrawnBy

variable {p : Primitive} {up down : List Symbol} {gap : Rat}

/-- At one place there is at most one line of the row itself and one of the row above it. -/
theorem count_line (h : DrawnBy p up down gap) (g : Grid) {s : Nat} (hs : s < g.columnCount)
    (r : Nat) {e : Rat} (he : 0 ≤ e) (he' : e < 9 / 4) :
    (Layout.placements ⟨g, .extended⟩).count ⟨p, ⟨columnX s, rowY g.rowCount r + e⟩⟩ =
      (if r < g.rowCount ∧ e = 0 ∧ g.symbolAt r s ∈ up then 1 else 0) +
      (if 0 < r ∧ r ≤ g.rowCount ∧ e = gap ∧ g.symbolAt (r - 1) s ∈ down then 1 else 0) := by
  have hup : ∀ q, rowY g.rowCount r + e - rowY g.rowCount q = 0 ↔ q = r ∧ e = 0 := by
    intro q
    have hinj := rowY_add_inj g.rowCount q r le_rfl (by norm_num) he he'
    rw [sub_eq_zero, eq_comm, eq_comm (a := e), ← hinj, add_zero]
  have hdown : ∀ q, rowY g.rowCount r + e - rowY g.rowCount q = gap - 9 / 4 ↔
      q + 1 = r ∧ e = gap := by
    intro q
    have hinj := rowY_add_inj g.rowCount (q + 1) r h.gap_nonneg h.gap_lt he he'
    rw [eq_comm (a := e), ← hinj, rowY_succ]
    constructor <;> intro heq <;> linarith
  rw [Layout.count_placements _ h.ne_wire hs]
  simp only [Vocabulary.stamps_extended, h.count, hup, hdown, Finset.sum_add_distrib, and_assoc]
  congr 1
  · exact sum_range_single g.rowCount r fun q => e = 0 ∧ g.symbolAt q s ∈ up
  · cases r with
    | zero => simp
    | succ r =>
      have hsum := sum_range_single g.rowCount r fun q => e = gap ∧ g.symbolAt q s ∈ down
      simp only [Nat.add_right_cancel_iff, Nat.add_sub_cancel, Nat.succ_pos, true_and,
        Nat.succ_le_iff]
      exact hsum

/-- Every line that a cell draws stands at the cell's row, or above the row below it. -/
theorem eq_of_mem_block (h : DrawnBy p up down gap) (g : Grid) {s q : Nat} {x y : Rat}
    (hmem : (⟨p, ⟨x, y⟩⟩ : Placement Rat) ∈ Layout.block ⟨g, .extended⟩ (s, q)) :
    x = columnX s ∧ (y = rowY g.rowCount q ∧ g.symbolAt q s ∈ up ∨
      y = rowY g.rowCount (q + 1) + gap ∧ g.symbolAt q s ∈ down) := by
  have hcount := List.count_pos_iff.2 hmem
  rw [Layout.count_block _ h.ne_wire] at hcount
  have hx : columnX s = x := by
    by_contra hne
    rw [if_neg hne] at hcount
    exact absurd hcount (Nat.lt_irrefl 0)
  rw [if_pos hx, Vocabulary.stamps_extended, h.count] at hcount
  refine ⟨hx.symm, ?_⟩
  by_cases hup : y - rowY g.rowCount q = 0 ∧ g.symbolAt q s ∈ up
  · exact .inl ⟨sub_eq_zero.1 hup.1, hup.2⟩
  · by_cases hdown : y - rowY g.rowCount q = gap - 9 / 4 ∧ g.symbolAt q s ∈ down
    · refine .inr ⟨?_, hdown.2⟩
      rw [rowY_succ]
      linarith [hdown.1]
    · rw [if_neg hup, if_neg hdown] at hcount
      exact absurd hcount (Nat.lt_irrefl 0)

/-- A line below the last row comes from one cell of the last row. -/
theorem of_bottom_row (h : DrawnBy p up down gap) (g : Grid) {s q : Nat} (hq : q + 1 = g.rowCount)
    {cell : Nat × Nat} (hcell : cell ∈ Layout.cells g.rowCount g.columnCount)
    (hmem : (⟨p, ⟨columnX s, rowY g.rowCount (q + 1) + gap⟩⟩ : Placement Rat) ∈
      Layout.block ⟨g, .extended⟩ cell) : cell = (s, q) := by
  obtain ⟨s', q'⟩ := cell
  have hq' := (Layout.mem_cells.1 hcell).2
  obtain ⟨hx, hy⟩ := h.eq_of_mem_block g hmem
  obtain rfl := columnX_inj.1 hx
  rcases hy with ⟨hy, _⟩ | ⟨hy, _⟩
  · rw [← add_zero (rowY g.rowCount q')] at hy
    have hrow := (rowY_add_inj _ _ _ h.gap_nonneg h.gap_lt le_rfl (by norm_num)).1 hy
    change q' < g.rowCount at hq'
    omega
  · have hrow := (rowY_add_inj _ _ _ h.gap_nonneg h.gap_lt h.gap_nonneg h.gap_lt).1 hy
    obtain rfl : q = q' := by omega
    rfl

/-- A line stands at a row, or above a row, or comes from a cell of the last row. -/
theorem cases_of_mem (h : DrawnBy p up down gap) (g : Grid) {x y : Rat}
    (hmem : (⟨p, ⟨x, y⟩⟩ : Placement Rat) ∈ Layout.placements ⟨g, .extended⟩) :
    ∃ s < g.columnCount, x = columnX s ∧
      ((∃ r < g.rowCount, y = rowY g.rowCount r ∨ y = rowY g.rowCount r + gap) ∨
      (g.symbolAt (g.rowCount - 1) s ∈ down ∧
        ⟨p, ⟨x, y⟩⟩ ∈ Layout.block ⟨g, .extended⟩ (s, g.rowCount - 1) ∧
        ∀ cell ∈ Layout.cells g.rowCount g.columnCount,
          ⟨p, ⟨x, y⟩⟩ ∈ Layout.block ⟨g, .extended⟩ cell → cell = (s, g.rowCount - 1))) := by
  rcases Layout.mem_placements.1 hmem with hlead | ⟨s, hs, q, hq, hblock⟩
  · obtain ⟨q, _, hq⟩ := Layout.mem_leadIn.1 hlead
    exact absurd (congrArg Placement.primitive hq) h.ne_wire
  · change s < g.columnCount at hs
    change q < g.rowCount at hq
    obtain ⟨rfl, hy⟩ := h.eq_of_mem_block g hblock
    refine ⟨s, hs, rfl, ?_⟩
    rcases hy with ⟨rfl, _⟩ | ⟨rfl, hdown⟩
    · exact .inl ⟨q, hq, .inl rfl⟩
    · by_cases hlast : q + 1 = g.rowCount
      · obtain rfl : q = g.rowCount - 1 := by omega
        exact .inr ⟨hdown, hblock, fun cell hcell hmem => h.of_bottom_row g hlast hcell hmem⟩
      · exact .inl ⟨q + 1, by omega, .inr rfl⟩

end DrawnBy

namespace Layout

section Counts

variable (g : Grid) {s r : Nat} (hs : s < g.columnCount) (hr : r < g.rowCount)
include hs hr

theorem count_touching :
    (placements (α := Rat) ⟨g, .extended⟩).count
        ⟨.lineUpTouching, ⟨columnX s, rowY g.rowCount r⟩⟩ =
      (if g.symbolAt r s ∈ [.crossUp, .controlUp, .swapBottom] then 1 else 0) +
      (if 0 < r ∧ g.symbolAt (r - 1) s ∈ [.crossDown, .controlDown] then 1 else 0) := by
  have hcount := touching_drawnBy.count_line g hs r le_rfl (by norm_num)
  simpa only [add_zero, hr, Nat.le_of_lt hr, true_and] using hcount

theorem count_room_at_row :
    (placements (α := Rat) ⟨g, .extended⟩).count
        ⟨.lineUpRoom, ⟨columnX s, rowY g.rowCount r⟩⟩ =
      (if g.symbolAt r s = .controlUpToGate then 1 else 0) := by
  have hcount := room_drawnBy.count_line g hs r le_rfl (by norm_num)
  have hgap : (0 : Rat) ≠ 3 / 4 := by norm_num
  simpa only [add_zero, hr, true_and, hgap, false_and, and_false, if_false,
    List.mem_singleton] using hcount

theorem count_room_above_row :
    (placements (α := Rat) ⟨g, .extended⟩).count
        ⟨.lineUpRoom, ⟨columnX s, rowY g.rowCount r + 3 / 4⟩⟩ =
      (if 0 < r ∧ g.symbolAt (r - 1) s = .controlDownToGate then 1 else 0) := by
  have hnonneg : (0 : Rat) ≤ 3 / 4 := by norm_num
  have hcount := room_drawnBy.count_line g hs r hnonneg (by norm_num)
  have hgap : (3 / 4 : Rat) ≠ 0 := by norm_num
  simpa only [hr, Nat.le_of_lt hr, true_and, hgap, false_and, and_false, if_false, zero_add,
    List.mem_singleton] using hcount

theorem touching_mem_iff (hpos : 0 < r) :
    ⟨.lineUpTouching, ⟨columnX s, rowY g.rowCount r⟩⟩ ∈ placements (α := Rat) ⟨g, .extended⟩ ↔
      g.symbolAt r s ∈ [.crossUp, .controlUp, .swapBottom] ∨
        g.symbolAt (r - 1) s ∈ [.crossDown, .controlDown] := by
  rw [← List.count_pos_iff, count_touching g hs hr]
  by_cases hup : g.symbolAt r s ∈ [.crossUp, .controlUp, .swapBottom]
  · rw [if_pos hup]
    exact iff_of_true (by omega) (.inl hup)
  · rw [if_neg hup, Nat.zero_add, or_iff_right hup]
    by_cases hdown : g.symbolAt (r - 1) s ∈ [.crossDown, .controlDown]
    · rw [if_pos ⟨hpos, hdown⟩]
      exact iff_of_true Nat.one_pos hdown
    · rw [if_neg fun h => hdown h.2]
      exact iff_of_false (Nat.lt_irrefl 0) hdown

end Counts

/-- At each row there are as many touching lines as the row's own cell draws upwards and the cell
above draws downwards. So a column is joined from row to row exactly where one of the two cells
draws the line between them. -/
theorem vertical_lines (g : Grid) :
    let picture : Layout := ⟨g, .extended⟩
    let drawn : List (Placement Rat) := picture.placements
    let y : Nat → Rat := rowY g.rowCount
    let last := g.rowCount - 1
    (∀ s < g.columnCount, ∀ r < g.rowCount,
      drawn.count ⟨.lineUpTouching, ⟨columnX s, y r⟩⟩ =
        (if g.symbolAt r s ∈ [.crossUp, .controlUp, .swapBottom] then 1 else 0) +
        (if 0 < r ∧ g.symbolAt (r - 1) s ∈ [.crossDown, .controlDown] then 1 else 0) ∧
      drawn.count ⟨.lineUpRoom, ⟨columnX s, y r⟩⟩ =
        (if g.symbolAt r s = .controlUpToGate then 1 else 0) ∧
      drawn.count ⟨.lineUpRoom, ⟨columnX s, y r + 3 / 4⟩⟩ =
        (if 0 < r ∧ g.symbolAt (r - 1) s = .controlDownToGate then 1 else 0)) ∧
    (∀ p ∈ drawn, p.primitive = .lineUpTouching ∨ p.primitive = .lineUpRoom →
      (∃ s < g.columnCount, ∃ r < g.rowCount, p.position = ⟨columnX s, y r⟩ ∨
        p.primitive = .lineUpRoom ∧ p.position = ⟨columnX s, y r + 3 / 4⟩) ∨
      ∃ s < g.columnCount,
        g.symbolAt last s ∈ [.crossDown, .controlDown, .controlDownToGate] ∧
        p ∈ picture.block (s, last) ∧
        ∀ cell ∈ cells g.rowCount g.columnCount, p ∈ picture.block cell → cell = (s, last)) ∧
    (∀ s < g.columnCount, ∀ a b, a < b → b < g.rowCount →
      ((∀ r, a < r → r ≤ b → ⟨.lineUpTouching, ⟨columnX s, y r⟩⟩ ∈ drawn) ↔
        ∀ r, a < r → r ≤ b → g.symbolAt r s ∈ [.crossUp, .controlUp, .swapBottom] ∨
          g.symbolAt (r - 1) s ∈ [.crossDown, .controlDown])) := by
  intro picture drawn y last
  refine ⟨fun s hs r hr => ⟨count_touching g hs hr, count_room_at_row g hs hr,
    count_room_above_row g hs hr⟩, ?_, ?_⟩
  · have hdown : ([.crossDown, .controlDown] : List Symbol) ⊆
        [.crossDown, .controlDown, .controlDownToGate] := by simp
    have hroom : ([.controlDownToGate] : List Symbol) ⊆
        [.crossDown, .controlDown, .controlDownToGate] := by simp
    rintro ⟨p, ⟨x, h⟩⟩ hmem (rfl | rfl)
    · obtain ⟨s, hs, rfl, hrow | hlast⟩ := touching_drawnBy.cases_of_mem g hmem
      · obtain ⟨r, hr, rfl | rfl⟩ := hrow
        · exact .inl ⟨s, hs, r, hr, .inl rfl⟩
        · exact .inl ⟨s, hs, r, hr, .inl (by rw [add_zero])⟩
      · exact .inr ⟨s, hs, hdown hlast.1, hlast.2⟩
    · obtain ⟨s, hs, rfl, hrow | hlast⟩ := room_drawnBy.cases_of_mem g hmem
      · obtain ⟨r, hr, rfl | rfl⟩ := hrow
        · exact .inl ⟨s, hs, r, hr, .inl rfl⟩
        · exact .inl ⟨s, hs, r, hr, .inr ⟨rfl, rfl⟩⟩
      · exact .inr ⟨s, hs, hroom hlast.1, hlast.2⟩
  · intro s hs a b hab hb
    refine forall_congr' fun r => forall_congr' fun har => forall_congr' fun hrb => ?_
    exact touching_mem_iff g hs (by omega) (by omega)

end Layout

end CircuitPicture
