import CircuitPicture.Proofs.ExactRaster
import CircuitPicture.Proofs.LayoutCells
import Mathlib.Data.List.Basic
import Mathlib.Tactic.Linarith

/-! # Reading a layout back

A layout determines its grid, as far as the symbols of the grid draw anything: the wires at the left
edge give the number of rows, every cell ends in its only wire, and what stands before the wire
gives the symbol (`placements_eq_iff`). -/

namespace CircuitPicture

/-- A block that ends in its only element of the class. -/
def EndsIn {α : Type} (p : α → Prop) (block : List α) : Prop :=
  ∃ front last, block = front ++ [last] ∧ (∀ x ∈ front, ¬ p x) ∧ p last

theorem EndsIn.append_inj {α : Type} {p : α → Prop} {b c : List α} (hb : EndsIn p b)
    (hc : EndsIn p c) {bs cs : List α} (h : b ++ bs = c ++ cs) : b = c ∧ bs = cs := by
  obtain ⟨front, last, rfl, hfront, hlast⟩ := hb
  obtain ⟨front', last', rfl, hfront', hlast'⟩ := hc
  induction front generalizing front' with
  | nil =>
    cases front' with
    | nil =>
      simp only [List.nil_append, List.cons_append, List.cons.injEq] at h
      exact ⟨by rw [h.1], h.2⟩
    | cons x front' =>
      simp only [List.nil_append, List.cons_append, List.cons.injEq] at h
      exact absurd (h.1 ▸ hlast) (hfront' x (by simp))
  | cons x front ih =>
    cases front' with
    | nil =>
      simp only [List.nil_append, List.cons_append, List.cons.injEq] at h
      exact absurd (h.1 ▸ hlast') (hfront x (by simp))
    | cons y front' =>
      simp only [List.cons_append, List.cons.injEq] at h
      obtain ⟨heq, hrest⟩ := ih (fun z hz => hfront z (by simp [hz])) front' h.2
        (fun z hz => hfront' z (by simp [hz]))
      exact ⟨by rw [List.cons_append, List.cons_append, h.1, heq], hrest⟩

/-- Blocks that each end in their only element of the class can be told apart again. -/
theorem flatten_inj_of_endsIn {α : Type} {p : α → Prop} {bs cs : List (List α)}
    (hb : ∀ b ∈ bs, EndsIn p b) (hc : ∀ c ∈ cs, EndsIn p c) (h : bs.flatten = cs.flatten) :
    bs = cs := by
  induction bs generalizing cs with
  | nil =>
    cases cs with
    | nil => rfl
    | cons c cs =>
      obtain ⟨front, last, rfl, _⟩ := hc c (by simp)
      simp at h
  | cons b bs ih =>
    cases cs with
    | nil =>
      obtain ⟨front, last, rfl, _⟩ := hb b (by simp)
      simp at h
    | cons c cs =>
      rw [List.flatten_cons, List.flatten_cons] at h
      obtain ⟨hbc, hrest⟩ := (hb b (by simp)).append_inj (hc c (by simp)) h
      rw [hbc, ih (fun x hx => hb x (by simp [hx])) (fun x hx => hc x (by simp [hx])) hrest]

namespace Symbol

/-- A stamp is on the anchor of its cell, or it is a line that hangs down from there. -/
theorem cases_of_mem_stamps {α : Type} [Scalar α] {s : Symbol} {stamp : Stamp α}
    (h : stamp ∈ s.stamps) : (∃ p, p ≠ .wire ∧ stamp = .onAnchor p) ∨
      stamp = .oneRowDown .lineUpTouching ∨ stamp = .downToGate .lineUpRoom := by
  cases s <;> simp only [stamps, List.mem_cons, List.not_mem_nil, or_false] at h <;>
    rcases h with rfl | rfl <;>
    first
      | exact .inl ⟨_, by decide, rfl⟩
      | exact .inr (.inl rfl)
      | exact .inr (.inr rfl)

/-- No cell draws a wire but the one behind its gate column. -/
theorem primitive_ne_wire {α : Type} [Scalar α] {s : Symbol} {stamp : Stamp α}
    (h : stamp ∈ s.stamps) : stamp.primitive ≠ .wire := by
  rcases cases_of_mem_stamps h with ⟨p, hp, rfl⟩ | rfl | rfl
  · exact hp
  · exact nofun
  · exact nofun

/-- The stamps of a symbol that draws something find the symbol in the table. -/
theorem find?_known_stamps {s : Symbol} (h : (s.stamps : List (Stamp Rat)) ≠ []) :
    known.find? (fun t => t.stamps = (s.stamps : List (Stamp Rat))) = some s := by
  cases s <;> first | decide +kernel | exact absurd rfl h

theorem eq_of_stamps_eq {s t : Symbol} (h : (s.stamps : List (Stamp Rat)) = t.stamps)
    (hs : (s.stamps : List (Stamp Rat)) ≠ []) : s = t := by
  have hfind := find?_known_stamps hs
  rw [h, find?_known_stamps (h ▸ hs)] at hfind
  exact (Option.some.inj hfind).symm

theorem stamps_eq_nil_iff {s : Symbol} :
    (s.stamps : List (Stamp Rat)) = [] ↔ s = .blank ∨ ∃ c, s = .unknown c := by
  cases s <;> simp [stamps]

end Symbol

namespace Vocabulary

theorem mem_symbol_stamps {α : Type} [Scalar α] {v : Vocabulary} {s : Symbol} {stamp : Stamp α}
    (h : stamp ∈ v.stamps s) : stamp ∈ s.stamps := by
  unfold stamps at h
  split at h
  · exact h
  · simp at h

theorem eq_of_stamps_eq {v : Vocabulary} {s t : Symbol}
    (h : (v.stamps s : List (Stamp Rat)) = v.stamps t) (hs : (v.stamps s : List (Stamp Rat)) ≠ []) :
    s = t := by
  have ht := h ▸ hs
  unfold stamps at h hs ht
  split at hs
  · split at ht
    · rename_i hcs hct
      rw [if_pos hcs, if_pos hct] at h
      exact Symbol.eq_of_stamps_eq h hs
    · exact absurd rfl ht
  · exact absurd rfl hs

theorem stamps_minimal_eq_nil_iff {s : Symbol} : (minimal.stamps s : List (Stamp Rat)) = [] ↔
    s ∉ [.identity, .hadamard, .pauliZ, .pauliX, .cnotControlBottom, .cnotControlTop] := by
  cases s <;> simp [stamps, contains, symbols, Symbol.basic, Symbol.stamps]

end Vocabulary

theorem Stamp.place_injective (anchor : Point Rat) :
    Function.Injective fun stamp : Stamp Rat => stamp.place anchor := by
  rintro ⟨p, dy⟩ ⟨q, dy'⟩ h
  simp only [place, Placement.mk.injEq] at h
  obtain ⟨rfl, h⟩ := h
  have hy : anchor.y + dy = anchor.y + dy' := congrArg Point.y h
  rw [add_left_cancel hy]

namespace Layout
open Raster

theorem length_leadIn (rows : Nat) : (leadIn rows : List (Placement Rat)).length = rows := by
  simp [leadIn]

/-- What a cell draws stands at its column or at the wire behind it. -/
theorem position_x_cellPlacements {v : Vocabulary} {s : Symbol} {anchor : Point Rat}
    {p : Placement Rat} (h : p ∈ cellPlacements v s anchor) :
    p.position.x = anchor.x ∨ p.position.x = anchor.x + 3 / 2 := by
  rcases List.mem_append.1 h with h | h
  · obtain ⟨stamp, _, rfl⟩ := List.mem_map.1 h
    left
    rw [Stamp.place_rat]
  · right
    rw [List.mem_singleton.1 h, trailingWire_rat]

theorem primitive_ne_wire_of_mem_map {α : Type} [Scalar α] {v : Vocabulary} {s : Symbol}
    {anchor : Point α} {p : Placement α}
    (h : p ∈ (v.stamps s).map fun stamp => stamp.place anchor) : p.primitive ≠ .wire := by
  obtain ⟨stamp, hstamp, rfl⟩ := List.mem_map.1 h
  exact Symbol.primitive_ne_wire (Vocabulary.mem_symbol_stamps hstamp)

theorem cellPlacements_endsIn (v : Vocabulary) (s : Symbol) (anchor : Point Rat) :
    EndsIn (fun p => p.primitive = .wire) (cellPlacements v s anchor) := by
  exact ⟨_, _, rfl, fun p hp => primitive_ne_wire_of_mem_map hp, rfl⟩

theorem cellPlacements_inj {v : Vocabulary} {s t : Symbol} {anchor : Point Rat} :
    cellPlacements v s anchor = cellPlacements v t anchor ↔
      (v.stamps s : List (Stamp Rat)) = v.stamps t := by
  rw [cellPlacements, cellPlacements, List.append_left_inj]
  exact (List.map_injective_iff.2 (Stamp.place_injective anchor)).eq_iff

/-- Only the wires at the left edge stand at 0. -/
theorem countP_x_eq_zero (l : Layout) :
    l.placements.countP (fun p : Placement Rat => p.position.x = 0) = l.grid.rowCount := by
  have hlead : (leadIn l.grid.rowCount).countP (fun p : Placement Rat => p.position.x = 0) =
      (leadIn l.grid.rowCount : List (Placement Rat)).length := by
    refine List.countP_eq_length.2 fun p hp => ?_
    obtain ⟨qubit, _, rfl⟩ := mem_leadIn.1 hp
    simp
  have hcells : ((cells l.grid.rowCount l.grid.columnCount).flatMap l.block).countP
      (fun p : Placement Rat => p.position.x = 0) = 0 := by
    refine List.countP_eq_zero.2 fun p hp => ?_
    obtain ⟨cell, _, hp⟩ := List.mem_flatMap.1 hp
    have hpos : (0 : Rat) ≤ (cell.1 : Rat) := Nat.cast_nonneg _
    rcases position_x_cellPlacements hp with h | h <;> simp [h, anchor] <;> linarith
  rw [placements_eq_cells, List.countP_append, hlead, hcells, length_leadIn, Nat.add_zero]

theorem endsIn_of_mem_blocks {l : Layout} {b : List (Placement Rat)}
    (h : b ∈ (cells l.grid.rowCount l.grid.columnCount).map l.block) :
    EndsIn (fun p => p.primitive = .wire) b := by
  obtain ⟨cell, _, rfl⟩ := List.mem_map.1 h
  exact cellPlacements_endsIn _ _ _

/-- A layout determines its number of rows, and the blocks that its cells draw. -/
theorem placements_eq_iff_blocks {l m : Layout} :
    (l.placements : List (Placement Rat)) = m.placements ↔
      l.grid.rowCount = m.grid.rowCount ∧
      (cells l.grid.rowCount l.grid.columnCount).map (l.block (α := Rat)) =
        (cells m.grid.rowCount m.grid.columnCount).map m.block := by
  constructor
  · intro h
    -- The lead-in can be cut off only when its length is known to be the same.
    have hrows : l.grid.rowCount = m.grid.rowCount := by
      rw [← countP_x_eq_zero l, ← countP_x_eq_zero m, h]
    rw [placements_eq_cells, placements_eq_cells, List.flatMap_def, List.flatMap_def] at h
    obtain ⟨_, hblocks⟩ := List.append_inj h (by rw [length_leadIn, length_leadIn, hrows])
    exact ⟨hrows, flatten_inj_of_endsIn (fun _ => endsIn_of_mem_blocks)
      (fun _ => endsIn_of_mem_blocks) hblocks⟩
  · rintro ⟨hrows, hblocks⟩
    rw [placements_eq_cells, placements_eq_cells, List.flatMap_def, List.flatMap_def, hblocks,
      hrows]

/-- Equal lists of blocks have the same number of columns, since no grid is without a row. -/
theorem columnCount_eq_of_blocks {l m : Layout} (hrows : l.grid.rowCount = m.grid.rowCount)
    (h : (cells l.grid.rowCount l.grid.columnCount).map (l.block (α := Rat)) =
      (cells m.grid.rowCount m.grid.columnCount).map m.block) :
    l.grid.columnCount = m.grid.columnCount := by
  have hlength := congrArg List.length h
  rw [List.length_map, List.length_map, length_cells, length_cells, hrows] at hlength
  exact Nat.eq_of_mul_eq_mul_right m.grid.rowCount_pos hlength

/-- Layouts of one size and vocabulary draw the same blocks if and only if the symbols of each cell
have the same stamps. -/
theorem blocks_eq_iff {v : Vocabulary} {g h : Grid} (hrows : g.rowCount = h.rowCount)
    (hcolumns : g.columnCount = h.columnCount) :
    (cells g.rowCount g.columnCount).map (block (α := Rat) ⟨g, v⟩) =
        (cells h.rowCount h.columnCount).map (block ⟨h, v⟩) ↔
      ∀ qubit step, qubit < g.rowCount → step < g.columnCount →
        (v.stamps (g.symbolAt qubit step) : List (Stamp Rat)) =
          v.stamps (h.symbolAt qubit step) := by
  rw [← hrows, ← hcolumns, List.map_inj_left]
  simp only [block, ← hrows, cellPlacements_inj]
  constructor
  · intro heq qubit step hq hs
    exact heq (step, qubit) (mem_cells.2 ⟨hs, hq⟩)
  · intro heq cell hcell
    obtain ⟨hs, hq⟩ := mem_cells.1 hcell
    exact heq cell.2 cell.1 hq hs

/-- Two grids are drawn by the same placements if and only if they have the same size and each cell
of theirs has the same symbol or has two symbols that draw nothing. In the extended vocabulary these
are the blank and the characters without a meaning, in the minimal one all but six letters. -/
theorem placements_eq_iff (v : Vocabulary) (g h : Grid) :
    ((placements ⟨g, v⟩ : List (Placement Rat)) = placements ⟨h, v⟩ ↔
      g.rowCount = h.rowCount ∧ g.columnCount = h.columnCount ∧
      ∀ qubit step s t, g.symbol? qubit step = some s → h.symbol? qubit step = some t →
        s = t ∨ (v.stamps s : List (Stamp Rat)) = [] ∧ (v.stamps t : List (Stamp Rat)) = []) ∧
    (∀ s, (Vocabulary.extended.stamps s : List (Stamp Rat)) = [] ↔
      s = .blank ∨ ∃ c, s = .unknown c) ∧
    (∀ s, (Vocabulary.minimal.stamps s : List (Stamp Rat)) = [] ↔
      s ∉ [.identity, .hadamard, .pauliZ, .pauliX, .cnotControlBottom, .cnotControlTop]) := by
  refine ⟨?_, fun s => by rw [Vocabulary.stamps_extended, Symbol.stamps_eq_nil_iff],
    fun s => Vocabulary.stamps_minimal_eq_nil_iff⟩
  rw [placements_eq_iff_blocks]
  constructor
  · rintro ⟨hrows, hblocks⟩
    have hcolumns := columnCount_eq_of_blocks hrows hblocks
    refine ⟨hrows, hcolumns, fun qubit step s t hs ht => ?_⟩
    obtain ⟨hq, hstep, rfl⟩ := Grid.symbol?_eq_some_iff.1 hs
    obtain ⟨_, _, rfl⟩ := Grid.symbol?_eq_some_iff.1 ht
    have hstamps := (blocks_eq_iff hrows hcolumns).1 hblocks qubit step hq hstep
    by_cases hnil : (v.stamps (g.symbolAt qubit step) : List (Stamp Rat)) = []
    · exact .inr ⟨hnil, hstamps ▸ hnil⟩
    · exact .inl (Vocabulary.eq_of_stamps_eq hstamps hnil)
  · rintro ⟨hrows, hcolumns, hcells⟩
    refine ⟨hrows, (blocks_eq_iff hrows hcolumns).2 fun qubit step hq hstep => ?_⟩
    have hs : g.symbol? qubit step = some (g.symbolAt qubit step) :=
      Grid.symbol?_eq_some_iff.2 ⟨hq, hstep, rfl⟩
    have ht : h.symbol? qubit step = some (h.symbolAt qubit step) :=
      Grid.symbol?_eq_some_iff.2 ⟨hrows ▸ hq, hcolumns ▸ hstep, rfl⟩
    rcases hcells qubit step _ _ hs ht with hsymbol | ⟨hg, hh⟩
    · rw [hsymbol]
    · rw [hg, hh]

end Layout

end CircuitPicture
