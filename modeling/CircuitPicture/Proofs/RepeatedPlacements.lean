import CircuitPicture.Proofs.ErasedSymbols
import CircuitPicture.Proofs.VerticalLines
import Mathlib.Data.List.ProdSigma

/-! # What is drawn twice

Nothing is drawn twice at one place, except for a line between two rows that both of its cells draw
(`nodup_placements_iff`). Every primitive but the wire is drawn in the way of `DrawnBy`, so the
count of a placement can be read off two cells (`count_cases`). -/

namespace CircuitPicture

namespace Symbol

theorem nodup_stamps (s : Symbol) : (s.stamps : List (Stamp Rat)).Nodup := by
  cases s <;> first | decide +kernel | exact List.nodup_nil

/-- Only lines stand at another height than the cell that draws them. -/
theorem offset_eq_zero {s : Symbol} {stamp : Stamp Rat} (h : stamp ∈ s.stamps)
    (htouching : stamp.primitive ≠ .lineUpTouching) (hroom : stamp.primitive ≠ .lineUpRoom) :
    stamp.offset = 0 := by
  rcases cases_of_mem_stamps h with ⟨p, -, rfl⟩ | rfl | rfl
  · simp [Stamp.onAnchor]
  · exact absurd rfl htouching
  · exact absurd rfl hroom

theorem isKnown_of_mem_stamps {s : Symbol} {stamp : Stamp Rat} (h : stamp ∈ s.stamps) :
    s.isKnown = true := by
  cases s with
  | unknown c => cases h
  | _ => rfl

def draws (p : Primitive) (s : Symbol) : Bool :=
  (s.stamps : List (Stamp Rat)).any fun stamp => stamp.primitive == p

end Symbol

/-- A primitive that is no wire and no line is drawn by some symbols, and by these at their own
row. -/
theorem level_drawnBy {p : Primitive} (hwire : p ≠ .wire) (htouching : p ≠ .lineUpTouching)
    (hroom : p ≠ .lineUpRoom) : DrawnBy p (Symbol.known.filter (Symbol.draws p)) [] 0 where
  ne_wire := hwire
  gap_nonneg := le_rfl
  gap_lt := by norm_num
  count s dy := by
    have hmem : (⟨p, dy⟩ : Stamp Rat) ∈ s.stamps ↔
        dy = 0 ∧ s ∈ Symbol.known.filter (Symbol.draws p) := by
      simp only [List.mem_filter, Symbol.mem_known, Symbol.draws, List.any_eq_true, beq_iff_eq]
      constructor
      · intro h
        exact ⟨Symbol.offset_eq_zero h htouching hroom, Symbol.isKnown_of_mem_stamps h, _, h, rfl⟩
      · rintro ⟨rfl, -, ⟨q, e⟩, hstamp, rfl⟩
        obtain rfl : e = 0 := Symbol.offset_eq_zero hstamp htouching hroom
        exact hstamp
    simp only [(Symbol.nodup_stamps s).count, hmem, List.not_mem_nil, and_false, if_false,
      Nat.add_zero]

/-- Somewhere a cell draws a line down to the next row, and the cell below it draws a line up. -/
def Grid.LinesMeet (g : Grid) : Prop :=
  ∃ s < g.columnCount, ∃ r, r + 1 < g.rowCount ∧
    g.symbolAt r s ∈ [.crossDown, .controlDown] ∧
    g.symbolAt (r + 1) s ∈ [.crossUp, .controlUp, .swapBottom]

namespace DrawnBy
open Raster

variable {p : Primitive} {up down : List Symbol} {gap : Rat}

theorem exists_row_of_mem (h : DrawnBy p up down gap) (g : Grid) {x y : Rat}
    (hmem : (⟨p, ⟨x, y⟩⟩ : Placement Rat) ∈ Layout.placements ⟨g, .extended⟩) :
    ∃ s < g.columnCount, ∃ r e, x = columnX s ∧ y = rowY g.rowCount r + e ∧ 0 ≤ e ∧ e < 9 / 4 := by
  rcases Layout.mem_placements.1 hmem with hlead | ⟨s, hs, q, -, hblock⟩
  · obtain ⟨q, -, hq⟩ := Layout.mem_leadIn.1 hlead
    exact absurd (congrArg Placement.primitive hq) h.ne_wire
  · obtain ⟨hx, ⟨hy, -⟩ | ⟨hy, -⟩⟩ := h.eq_of_mem_block g hblock
    · exact ⟨s, hs, q, 0, hx, by rw [hy, add_zero], le_rfl, by norm_num⟩
    · exact ⟨s, hs, q + 1, gap, hx, hy, h.gap_nonneg, h.gap_lt⟩

/-- What stands twice at one place was drawn there by a cell and by the cell above it. -/
theorem count_cases (h : DrawnBy p up down gap) (g : Grid) (position : Point Rat) :
    (Layout.placements ⟨g, .extended⟩).count ⟨p, position⟩ ≤ 1 ∨
      (Layout.placements ⟨g, .extended⟩).count ⟨p, position⟩ = 2 ∧ gap = 0 ∧
      ∃ s < g.columnCount, ∃ r, r + 1 < g.rowCount ∧ g.symbolAt r s ∈ down ∧
        g.symbolAt (r + 1) s ∈ up := by
  obtain ⟨x, y⟩ := position
  by_cases hmem : (⟨p, ⟨x, y⟩⟩ : Placement Rat) ∈ Layout.placements ⟨g, .extended⟩
  · obtain ⟨s, hs, r, e, rfl, rfl, he, he'⟩ := h.exists_row_of_mem g hmem
    rw [h.count_line g hs r he he']
    by_cases hup : r < g.rowCount ∧ e = 0 ∧ g.symbolAt r s ∈ up
    · by_cases hdown : 0 < r ∧ r ≤ g.rowCount ∧ e = gap ∧ g.symbolAt (r - 1) s ∈ down
      · obtain ⟨hr, rfl, hlower⟩ := hup
        obtain ⟨hpos, -, hgap, hupper⟩ := hdown
        obtain ⟨q, rfl⟩ := Nat.exists_eq_succ_of_ne_zero (Nat.ne_of_gt hpos)
        rw [if_pos ⟨hr, rfl, hlower⟩, if_pos ⟨hpos, Nat.le_of_lt hr, hgap, hupper⟩]
        exact .inr ⟨rfl, hgap.symm, s, hs, q, hr, hupper, hlower⟩
      · rw [if_pos hup, if_neg hdown]
        exact .inl le_rfl
    · rw [if_neg hup, Nat.zero_add]
      left
      split <;> omega
  · rw [List.count_eq_zero.2 hmem]
    exact .inl (Nat.zero_le 1)

end DrawnBy

namespace Layout
open Raster

theorem nodup_cells (rows columns : Nat) : (cells rows columns).Nodup :=
  List.nodup_range.product List.nodup_range

theorem anchor_injective {rows : Nat} {c d : Nat × Nat}
    (h : (anchor rows c.2 c.1 : Point Rat) = anchor rows d.2 d.1) : c = d := by
  have hx : (columnX c.1 : Rat) = columnX d.1 := congrArg Point.x h
  have hy : (rowY rows c.2 : Rat) = rowY rows d.2 := congrArg Point.y h
  exact Prod.ext (columnX_inj.1 hx) (rowY_inj.1 hy)

theorem nodup_leadIn (rows : Nat) : (leadIn rows : List (Placement Rat)).Nodup := by
  refine List.nodup_range.map fun q r h => ?_
  exact rowY_inj.1 (congrArg (fun p : Placement Rat => p.position.y) h)

theorem nodup_wires (l : Layout) :
    (l.placements.filter fun p : Placement Rat => p.primitive = .wire).Nodup := by
  rw [filter_wire_placements]
  refine List.nodup_append.2 ⟨nodup_leadIn _, (nodup_cells _ _).map fun c d h => ?_, ?_⟩
  · simp only [trailingWire_rat, Placement.mk.injEq, Point.mk.injEq, add_left_inj, true_and] at h
    exact anchor_injective (congrArg₂ Point.mk h.1 h.2)
  · rintro p hlead q hcell rfl
    obtain ⟨qubit, -, rfl⟩ := mem_leadIn.1 hlead
    obtain ⟨cell, -, hwire⟩ := List.mem_map.1 hcell
    have hx := congrArg (fun p : Placement Rat => p.position.x) hwire
    have hpos : (0 : Rat) ≤ cell.1 := Nat.cast_nonneg _
    simp only [trailingWire_rat, anchor, columnX_rat, Scalar.quarters_rat, Int.cast_zero,
      zero_div] at hx
    linarith

theorem count_wire_le_one (l : Layout) (position : Point Rat) :
    l.placements.count ⟨.wire, position⟩ ≤ 1 := by
  rw [← List.count_filter (p := fun p : Placement Rat => p.primitive = .wire) (by simp)]
  exact List.nodup_iff_count_le_one.1 (nodup_wires l) _

/-- A placement is drawn once or not at all, or it is a line that two cells draw. -/
theorem count_cases (g : Grid) (p : Placement Rat) :
    (placements ⟨g, .extended⟩).count p ≤ 1 ∨
      (placements ⟨g, .extended⟩).count p = 2 ∧ g.LinesMeet := by
  obtain ⟨primitive, position⟩ := p
  by_cases hwire : primitive = .wire
  · subst hwire
    exact .inl (count_wire_le_one _ _)
  by_cases htouching : primitive = .lineUpTouching
  · subst htouching
    exact (touching_drawnBy.count_cases g position).imp_right fun ⟨hcount, _, hmeet⟩ =>
      ⟨hcount, hmeet⟩
  by_cases hroom : primitive = .lineUpRoom
  · subst hroom
    refine .inl ((room_drawnBy.count_cases g position).resolve_right ?_)
    rintro ⟨-, hgap, -⟩
    norm_num at hgap
  · refine .inl (((level_drawnBy hwire htouching hroom).count_cases g position).resolve_right ?_)
    rintro ⟨-, -, s, -, r, -, hupper, -⟩
    cases hupper

theorem nodup_extended_iff (g : Grid) :
    (placements ⟨g, .extended⟩ : List (Placement Rat)).Nodup ↔ ¬ g.LinesMeet := by
  rw [List.nodup_iff_count_le_one]
  constructor
  · rintro hcount ⟨s, hs, r, hr, hupper, hlower⟩
    have htwo := count_touching g hs hr
    rw [if_pos hlower, if_pos ⟨Nat.succ_pos r, hupper⟩] at htwo
    have hone := hcount ⟨.lineUpTouching, ⟨columnX s, rowY g.rowCount (r + 1)⟩⟩
    omega
  · intro hmeet p
    exact (count_cases g p).resolve_right fun h => hmeet h.2

/-- The minimal vocabulary draws what the extended one draws of a grid in which no line is left. -/
theorem nodup_minimal (g : Grid) : (placements ⟨g, .minimal⟩ : List (Placement Rat)).Nodup := by
  have hblank : (Symbol.blank.stamps : List (Stamp Rat)) = [] := rfl
  rw [← placements_map (Vocabulary.stamps_erase hblank), nodup_extended_iff]
  rintro ⟨s, hs, r, hr, hupper, -⟩
  rw [Grid.rowCount_map] at hr
  rw [Grid.symbolAt_map _ (Nat.lt_of_succ_lt hr) hs] at hupper
  cases hsymbol : g.symbolAt r s <;> simp [hsymbol, Symbol.erase, Symbol.isBasic] at hupper

/-- In the extended vocabulary no two placements are the same if and only if no cell that draws a
line downwards stands on a cell that draws its line upwards. Nothing is drawn more than twice, and
in the minimal vocabulary nothing is drawn twice. -/
theorem nodup_placements_iff (g : Grid) :
    let extended : List (Placement Rat) := placements ⟨g, .extended⟩
    let minimal : List (Placement Rat) := placements ⟨g, .minimal⟩
    (extended.Nodup ↔ ∀ qubit step upper lower, g.symbol? qubit step = some upper →
      g.symbol? (qubit + 1) step = some lower → upper ∈ [.crossDown, .controlDown] →
      lower ∉ [.crossUp, .controlUp, .swapBottom]) ∧
    (∀ p, extended.count p ≤ 2) ∧ minimal.Nodup := by
  intro extended minimal
  refine ⟨?_, fun p => ?_, nodup_minimal g⟩
  · rw [nodup_extended_iff]
    constructor
    · intro hmeet qubit step upper lower hupper hlower hdown hup
      obtain ⟨-, hs, rfl⟩ := Grid.symbol?_eq_some_iff.1 hupper
      obtain ⟨hq, -, rfl⟩ := Grid.symbol?_eq_some_iff.1 hlower
      exact hmeet ⟨step, hs, qubit, hq, hdown, hup⟩
    · rintro hcells ⟨s, hs, r, hr, hdown, hup⟩
      have hupper : g.symbol? r s = some (g.symbolAt r s) :=
        Grid.symbol?_eq_some_iff.2 ⟨Nat.lt_of_succ_lt hr, hs, rfl⟩
      have hlower : g.symbol? (r + 1) s = some (g.symbolAt (r + 1) s) :=
        Grid.symbol?_eq_some_iff.2 ⟨hr, hs, rfl⟩
      exact hcells r s _ _ hupper hlower hdown hup
  · rcases count_cases g p with hone | ⟨htwo, -⟩
    · exact Nat.le_succ_of_le hone
    · exact Nat.le_of_eq htwo

end Layout

end CircuitPicture
