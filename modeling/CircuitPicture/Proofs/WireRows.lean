import CircuitPicture.Proofs.PictureFrame
import CircuitPicture.Proofs.PlacementCounts

/-! # Rows of wires

A layout draws its wires time step by time step. The wires of a single row stand at every step from
the left edge on (`filter_row_wires`), with the gate columns between them, and together they fill
the width of the picture (`wires_fill_rows`). -/

namespace CircuitPicture

/-- A part of a row, from its left to its right end. -/
structure Stretch where
  left : Rat
  right : Rat
deriving DecidableEq, Repr

/-- Stretches that follow one another from `low` to `high`. -/
inductive EndToEnd : Rat → Rat → List Stretch → Prop where
  | last {low high : Rat} (h : low < high) : EndToEnd low high [⟨low, high⟩]
  | cons {low next high : Rat} {rest : List Stretch} (h : low < next)
      (hrest : EndToEnd next high rest) : EndToEnd low high (⟨low, next⟩ :: rest)

/-- Stretches, in any order, that cover the room from `low` to `high` and nothing else, and of which
no two have more than an end in common. -/
structure Fills (low high : Rat) (stretches : List Stretch) : Prop where
  cover : ∀ x, (∃ s ∈ stretches, s.left ≤ x ∧ x ≤ s.right) ↔ low ≤ x ∧ x ≤ high
  apart : stretches.Pairwise fun s t => s.right ≤ t.left ∨ t.right ≤ s.left

namespace EndToEnd

variable {low mid high : Rat} {xs ys : List Stretch}

theorem lt (h : EndToEnd low high xs) : low < high := by
  induction h with
  | last h => exact h
  | cons h _ ih => exact h.trans ih

theorem append (hx : EndToEnd low mid xs) (hy : EndToEnd mid high ys) :
    EndToEnd low high (xs ++ ys) := by
  induction hx with
  | last h => exact .cons h hy
  | cons h _ ih => exact .cons h (ih hy)

theorem low_le_left (h : EndToEnd low high xs) : ∀ s ∈ xs, low ≤ s.left := by
  induction h with
  | last h => simp
  | cons h _ ih =>
    intro s hs
    rcases List.mem_cons.1 hs with rfl | hs
    · exact le_rfl
    · exact h.le.trans (ih s hs)

theorem cover (h : EndToEnd low high xs) (x : Rat) :
    (∃ s ∈ xs, s.left ≤ x ∧ x ≤ s.right) ↔ low ≤ x ∧ x ≤ high := by
  induction h with
  | last h => simp
  | @cons low next high rest h hrest ih =>
    have hlt := hrest.lt
    simp only [List.mem_cons, exists_eq_or_imp, ih]
    constructor
    · rintro (⟨hlow, hnext⟩ | ⟨hnext, hhigh⟩)
      · exact ⟨hlow, hnext.trans hlt.le⟩
      · exact ⟨h.le.trans hnext, hhigh⟩
    · rintro ⟨hlow, hhigh⟩
      exact (le_total x next).imp (fun hx => ⟨hlow, hx⟩) fun hx => ⟨hx, hhigh⟩

theorem pairwise (h : EndToEnd low high xs) : xs.Pairwise fun s t => s.right ≤ t.left := by
  induction h with
  | last h => exact List.pairwise_singleton _ _
  | cons h hrest ih => exact .cons hrest.low_le_left ih

/-- What follows one another fills the room, in whatever order it is listed. -/
theorem fills (h : EndToEnd low high xs) (hperm : xs.Perm ys) : Fills low high ys where
  cover x := by
    rw [← h.cover x]
    simp only [hperm.mem_iff]
  apart := by
    have hapart : xs.Pairwise fun s t => s.right ≤ t.left ∨ t.right ≤ s.left :=
      h.pairwise.imp .inl
    exact (hperm.pairwise_iff Or.symm).1 hapart

end EndToEnd

namespace Layout
open Raster

section Wires

variable {α : Type} [Scalar α]

/-- The wires of a layout follow from its size. -/
theorem filter_wire_placements (l : Layout) :
    (l.placements (α := α)).filter (fun p => p.primitive = .wire) =
      leadIn l.grid.rowCount ++ (cells l.grid.rowCount l.grid.columnCount).map fun cell =>
        trailingWire (anchor l.grid.rowCount cell.2 cell.1) := by
  have hlead : (leadIn (α := α) l.grid.rowCount).filter (fun p => p.primitive = .wire) =
      leadIn l.grid.rowCount := by
    simp [leadIn, List.filter_map, Function.comp_def]
  have hblock (cell : Nat × Nat) :
      (l.block (α := α) cell).filter (fun p => p.primitive = .wire) =
        [trailingWire (anchor l.grid.rowCount cell.2 cell.1)] := by
    have hstamps : ((l.vocabulary.stamps (l.grid.symbolAt cell.2 cell.1)).map fun stamp =>
        stamp.place (anchor (α := α) l.grid.rowCount cell.2 cell.1)).filter
          (fun p => p.primitive = .wire) = [] := by
      refine List.filter_eq_nil_iff.2 fun p hp hwire => ?_
      exact primitive_ne_wire_of_mem_map hp (of_decide_eq_true hwire)
    rw [block, cellPlacements, List.filter_append, hstamps]
    rfl
  rw [placements_eq_cells, List.filter_append, hlead, List.filter_flatMap]
  simp only [hblock]
  rw [List.map_eq_flatMap]

end Wires

variable (l : Layout)

/-- The wires of a layout, in the order in which they are drawn. -/
def wires : List (Placement Rat) := l.placements.filter fun p => p.primitive = .wire

def gateColumns : List Stretch :=
  (List.range l.grid.columnCount).map fun step => ⟨columnX step, columnX step + gatePitch⟩

/-- The part of a row that a wire takes up. -/
def wireStretch (p : Placement Rat) : Stretch := ⟨p.position.x, p.position.x + wirePitch⟩

theorem filter_range_eq {qubit rows : Nat} (hq : qubit < rows) :
    (List.range rows).filter (fun q => q = qubit) = [qubit] := by
  rw [List.filter_eq, List.nodup_range.count, if_pos (List.mem_range.2 hq)]
  rfl

theorem filter_row_leadIn {rows qubit : Nat} (hq : qubit < rows) :
    (leadIn rows).filter (fun p : Placement Rat => p.position.y = rowY rows qubit) =
      [⟨.wire, ⟨0, rowY rows qubit⟩⟩] := by
  have hleft : (Scalar.quarters 0 : Rat) = 0 := by simp
  simp only [leadIn, List.filter_map, Function.comp_def, rowY_inj, filter_range_eq hq, hleft,
    List.map_singleton]

/-- The wire behind a gate column stands at a multiple of the step. -/
theorem columnX_add_gate (step : Nat) : (columnX step : Rat) + 3 / 2 = 3 * (step + 1) := by
  rw [columnX_rat]
  ring

theorem filter_row_cells {rows qubit : Nat} (hq : qubit < rows) (columns : Nat) :
    ((cells rows columns).map fun cell =>
        trailingWire (anchor rows cell.2 cell.1 : Point Rat)).filter
          (fun p => p.position.y = rowY rows qubit) =
      (List.range columns).map fun step => ⟨.wire, ⟨3 * (step + 1), rowY rows qubit⟩⟩ := by
  simp only [cells, List.map_flatMap, List.filter_flatMap, List.map_map, List.filter_map,
    Function.comp_def, trailingWire_rat, anchor, rowY_inj, filter_range_eq hq, List.map_singleton,
    columnX_add_gate]
  exact List.map_eq_flatMap.symm

/-- The wires of a row come from left to right, one step apart. -/
theorem filter_row_wires {qubit : Nat} (hq : qubit < l.grid.rowCount) :
    l.wires.filter (fun p => p.position.y = rowY l.grid.rowCount qubit) =
      (List.range (l.grid.columnCount + 1)).map fun i =>
        ⟨.wire, ⟨3 * i, rowY l.grid.rowCount qubit⟩⟩ := by
  rw [wires, filter_wire_placements, List.filter_append, filter_row_leadIn hq, filter_row_cells hq,
    List.range_succ_eq_map, List.map_cons, List.map_map]
  simp [Function.comp_def]

theorem exists_row_of_mem_wires {p : Placement Rat} (hp : p ∈ l.wires) :
    ∃ qubit < l.grid.rowCount, p.position.y = rowY l.grid.rowCount qubit := by
  rw [wires, filter_wire_placements, List.mem_append] at hp
  rcases hp with hlead | hcell
  · obtain ⟨qubit, hq, rfl⟩ := mem_leadIn.1 hlead
    exact ⟨qubit, hq, rfl⟩
  · obtain ⟨cell, hmem, rfl⟩ := List.mem_map.1 hcell
    refine ⟨cell.2, (mem_cells.1 hmem).2, ?_⟩
    rw [trailingWire_rat]
    rfl

/-- A wire, and then a gate column and a wire for each time step. -/
def inTurn (columns : Nat) : List Stretch :=
  ⟨0, 3 / 2⟩ :: (List.range columns).flatMap fun step =>
    [⟨columnX step, columnX step + 3 / 2⟩, ⟨3 * (step + 1), 3 * (step + 1) + 3 / 2⟩]

theorem endToEnd_inTurn (columns : Nat) :
    EndToEnd 0 (3 * columns + 3 / 2) (inTurn columns) := by
  induction columns with
  | zero =>
    have h : (3 : Rat) * (0 : Nat) + 3 / 2 = 3 / 2 := by norm_num
    rw [h]
    exact .last (by norm_num)
  | succ columns ih =>
    have hgate : (3 : Rat) * columns + 3 / 2 = columnX columns := by
      rw [columnX_rat]
      ring
    have hwire : (columnX columns : Rat) + 3 / 2 = 3 * (columns + 1) := columnX_add_gate columns
    rw [inTurn, List.range_succ, List.flatMap_append, ← List.cons_append, ← inTurn]
    refine ih.append ?_
    rw [hgate, List.flatMap_singleton, hwire]
    push_cast
    exact .cons (by rw [← hwire]; linarith) (.last (by linarith))

theorem perm_inTurn (columns : Nat) : (inTurn columns).Perm
    ((List.range (columns + 1)).map (fun i => ⟨3 * i, 3 * i + 3 / 2⟩) ++
      (List.range columns).map fun step => ⟨columnX step, columnX step + 3 / 2⟩) := by
  have hfirst : (⟨3 * (0 : Nat), 3 * (0 : Nat) + 3 / 2⟩ : Stretch) = ⟨0, 3 / 2⟩ := by norm_num
  rw [inTurn, List.range_succ_eq_map, List.map_cons, hfirst, List.map_map, List.cons_append]
  refine .cons _ (.trans ?_ List.perm_append_comm)
  rw [List.map_eq_flatMap, List.map_eq_flatMap]
  refine .trans (.of_eq ?_) (List.flatMap_append_perm _ _ _).symm
  simp

/-- The wires of a row come one by one from the left edge on, one more than there are time steps,
whatever the cells hold. Together with the gate columns they fill the width of the picture without a
gap and without covering anything twice. -/
theorem wires_fill_rows (l : Layout) :
    let rows := l.grid.rowCount
    let columns := l.grid.columnCount
    let width := (l.bounds : Bounds Rat).width
    (∀ qubit < rows,
      let row := l.wires.filter fun p => p.position.y = rowY rows qubit
      row = (List.range (columns + 1)).map (fun i => ⟨.wire, ⟨3 * i, rowY rows qubit⟩⟩) ∧
      Fills 0 width (row.map wireStretch ++ l.gateColumns) ∧
      ∃ last, row.getLast? = some last ∧ last.position.x + wirePitch = width) ∧
    ∀ p ∈ l.wires, ∃! qubit, qubit < rows ∧ p.position.y = rowY rows qubit := by
  intro rows columns width
  have hwidth : width = 3 * columns + 3 / 2 := width_bounds_rat l
  have hwire : (wirePitch : Rat) = 3 / 2 := by norm_num [wirePitch]
  have hgate : (gatePitch : Rat) = 3 / 2 := by norm_num [gatePitch]
  refine ⟨fun qubit hq => ?_, fun p hp => ?_⟩
  · intro row
    have hrow : row = (List.range (columns + 1)).map fun i => ⟨.wire, ⟨3 * i, rowY rows qubit⟩⟩ :=
      l.filter_row_wires hq
    have hstretches : row.map wireStretch ++ l.gateColumns =
        (List.range (columns + 1)).map (fun i => ⟨3 * i, 3 * i + 3 / 2⟩) ++
          (List.range columns).map fun step => ⟨columnX step, columnX step + 3 / 2⟩ := by
      simp only [hrow, gateColumns, List.map_map, Function.comp_def, wireStretch, hwire, hgate]
      rfl
    refine ⟨hrow, ?_, ⟨.wire, ⟨3 * columns, rowY rows qubit⟩⟩, ?_, ?_⟩
    · rw [hstretches, hwidth]
      exact (endToEnd_inTurn columns).fills (perm_inTurn columns)
    · rw [hrow, List.range_succ, List.map_append, List.map_singleton, List.getLast?_concat]
    · rw [hwire, hwidth]
  · obtain ⟨qubit, hq, hy⟩ := l.exists_row_of_mem_wires hp
    refine ⟨qubit, ⟨hq, hy⟩, ?_⟩
    rintro other ⟨-, hother⟩
    exact rowY_inj.1 (hother.symm.trans hy)

end Layout

end CircuitPicture
