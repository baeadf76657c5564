import CircuitPicture.Proofs.PictureFrame

/-! # Grids side by side

Time steps that are appended to a grid only add to its layout: what was drawn before stays where it
is, and the new steps are drawn as in a layout of their own, further to the right
(`placements_beside`). So a layout can be drawn while its steps are still coming in. -/

namespace CircuitPicture

namespace Grid

variable {a b : Grid}

/-- A grid with another one on its right, row by row, as far as both have rows. -/
def beside (a b : Grid) : Grid where
  rows := List.zipWith (fun front back => front ++ back) a.rows b.rows
  columnCount := a.columnCount + b.columnCount
  rows_ne_nil := by simp [List.zipWith_eq_nil_iff, a.rows_ne_nil, b.rows_ne_nil]
  columnCount_pos := Nat.add_pos_left a.columnCount_pos _
  length_row := by
    intro row hrow
    obtain ⟨i, hi, rfl⟩ := List.getElem_of_mem hrow
    rw [List.getElem_zipWith, List.length_append, a.length_row _ (List.getElem_mem _),
      b.length_row _ (List.getElem_mem _)]

@[simp] theorem columnCount_beside (a b : Grid) :
    (a.beside b).columnCount = a.columnCount + b.columnCount := rfl

theorem rowCount_beside (h : a.rowCount = b.rowCount) :
    (a.beside b).rowCount = a.rowCount := by
  have hlength : a.rows.length = b.rows.length := h
  simp [rowCount, beside, hlength]

theorem getElem?_rows_beside (h : a.rowCount = b.rowCount) {qubit : Nat} (hq : qubit < a.rowCount) :
    ∃ front back, a.rows[qubit]? = some front ∧ b.rows[qubit]? = some back ∧
      front.length = a.columnCount ∧ (a.beside b).rows[qubit]? = some (front ++ back) := by
  have ha : qubit < a.rows.length := hq
  have hb : qubit < b.rows.length := Nat.lt_of_lt_of_eq hq h
  refine ⟨a.rows[qubit], b.rows[qubit], List.getElem?_eq_getElem ha, List.getElem?_eq_getElem hb,
    a.length_row _ (List.getElem_mem ha), ?_⟩
  simp [beside, ha, hb]

theorem symbolAt_beside_left (h : a.rowCount = b.rowCount) {qubit step : Nat}
    (hq : qubit < a.rowCount) (hs : step < a.columnCount) :
    (a.beside b).symbolAt qubit step = a.symbolAt qubit step := by
  obtain ⟨front, back, hfront, -, hlength, hrow⟩ := getElem?_rows_beside h hq
  have hstep : step < front.length := hlength ▸ hs
  simp only [symbolAt, symbol?, hrow, hfront, Option.bind_some, List.getElem?_append_left hstep]

theorem symbolAt_beside_right (h : a.rowCount = b.rowCount) {qubit : Nat} (hq : qubit < a.rowCount)
    (step : Nat) :
    (a.beside b).symbolAt qubit (a.columnCount + step) = b.symbolAt qubit step := by
  obtain ⟨front, back, -, hback, hlength, hrow⟩ := getElem?_rows_beside h hq
  have hstep : front.length ≤ a.columnCount + step := hlength ▸ Nat.le_add_right _ _
  simp only [symbolAt, symbol?, hrow, hback, Option.bind_some,
    List.getElem?_append_right hstep, hlength, Nat.add_sub_cancel_left]

/-- The first `k` time steps of a grid, or all if there are no more. -/
def firstSteps (g : Grid) (k : Nat) (hk : 0 < k) : Grid where
  rows := g.rows.map (List.take k)
  columnCount := min k g.columnCount
  rows_ne_nil := by simpa using g.rows_ne_nil
  columnCount_pos := Nat.lt_min.2 ⟨hk, g.columnCount_pos⟩
  length_row := by
    intro row hrow
    obtain ⟨whole, hwhole, rfl⟩ := List.mem_map.1 hrow
    rw [List.length_take, g.length_row whole hwhole]

/-- The time steps of a grid after the first `k`. -/
def laterSteps (g : Grid) (k : Nat) (hk : k < g.columnCount) : Grid where
  rows := g.rows.map (List.drop k)
  columnCount := g.columnCount - k
  rows_ne_nil := by simpa using g.rows_ne_nil
  columnCount_pos := Nat.sub_pos_of_lt hk
  length_row := by
    intro row hrow
    obtain ⟨whole, hwhole, rfl⟩ := List.mem_map.1 hrow
    rw [List.length_drop, g.length_row whole hwhole]

theorem rowCount_firstSteps_eq (g : Grid) {k : Nat} (hk : 0 < k) (hlt : k < g.columnCount) :
    (g.firstSteps k hk).rowCount = (g.laterSteps k hlt).rowCount := by
  simp [rowCount, firstSteps, laterSteps]

theorem firstSteps_beside_laterSteps (g : Grid) {k : Nat} (hk : 0 < k) (hlt : k < g.columnCount) :
    (g.firstSteps k hk).beside (g.laterSteps k hlt) = g := by
  refine ext_rows ?_
  change List.zipWith (fun front back => front ++ back) (g.rows.map (List.take k))
    (g.rows.map (List.drop k)) = g.rows
  rw [List.zipWith_map, List.zipWith_self]
  simp only [List.take_append_drop, List.map_id']

theorem firstSteps_eq_self (g : Grid) {k : Nat} (hk : 0 < k) (hle : g.columnCount ≤ k) :
    g.firstSteps k hk = g := by
  refine ext_rows ((List.map_congr_left fun row hrow => ?_).trans (List.map_id _))
  exact List.take_of_length_le (g.length_row row hrow ▸ hle)

end Grid

/-- The same primitive, moved by an offset. -/
def Placement.shift {α : Type} [Add α] (p : Placement α) (offset : Point α) : Placement α :=
  ⟨p.primitive, p.position + offset⟩

namespace Layout
open Raster

theorem cellPlacements_add (v : Vocabulary) (s : Symbol) (anchor offset : Point Rat) :
    cellPlacements v s (anchor + offset) =
      (cellPlacements v s anchor).map fun p => p.shift offset := by
  have hstamp (stamp : Stamp Rat) :
      stamp.place (anchor + offset) = (stamp.place anchor).shift offset := by
    rw [Stamp.place_rat, Stamp.place_rat]
    exact congrArg (fun y => (⟨stamp.primitive, ⟨anchor.x + offset.x, y⟩⟩ : Placement Rat))
      (add_right_comm _ _ _)
  have hwire : trailingWire (anchor + offset) = (trailingWire anchor).shift offset := by
    rw [trailingWire_rat, trailingWire_rat]
    exact congrArg (fun x => (⟨.wire, ⟨x, anchor.y + offset.y⟩⟩ : Placement Rat))
      (add_right_comm _ _ _)
  simp only [cellPlacements, List.map_append, List.map_map, Function.comp_def, hstamp, hwire,
    List.map_cons, List.map_nil]

/-- How far to the right some time steps lead. -/
def stepsAcross (steps : Nat) : Point Rat := ⟨3 * steps, 0⟩

theorem anchor_add (rows qubit m step : Nat) :
    anchor rows qubit (m + step) = anchor rows qubit step + stepsAcross m := by
  have hx : (columnX (m + step) : Rat) = columnX step + 3 * m := by
    rw [columnX_rat, columnX_rat]
    push_cast
    ring
  exact congrArg₂ Point.mk hx (add_zero _).symm

/-- The cells of some time steps and of more time steps after them. -/
theorem cells_add (rows m n : Nat) : cells rows (m + n) =
    cells rows m ++ (cells rows n).map fun cell => (m + cell.1, cell.2) := by
  simp only [cells, List.range_add, List.flatMap_append, List.flatMap_map, List.map_flatMap,
    List.map_map, Function.comp_def]

section Beside

variable (v : Vocabulary) {a b : Grid} (h : a.rowCount = b.rowCount)
include h

theorem block_beside_left {cell : Nat × Nat} (hcell : cell ∈ cells a.rowCount a.columnCount) :
    block (α := Rat) ⟨a.beside b, v⟩ cell = block ⟨a, v⟩ cell := by
  obtain ⟨hs, hq⟩ := mem_cells.1 hcell
  simp only [block, Grid.symbolAt_beside_left h hq hs, Grid.rowCount_beside h]

theorem block_beside_right {cell : Nat × Nat} (hcell : cell ∈ cells b.rowCount b.columnCount) :
    block ⟨a.beside b, v⟩ (a.columnCount + cell.1, cell.2) =
      (block ⟨b, v⟩ cell).map fun p => p.shift (stepsAcross a.columnCount) := by
  have hq : cell.2 < a.rowCount := h ▸ (mem_cells.1 hcell).2
  simp only [block, Grid.symbolAt_beside_right h hq, Grid.rowCount_beside h, anchor_add,
    cellPlacements_add, h]

theorem placements_beside_eq : placements ⟨a.beside b, v⟩ = placements ⟨a, v⟩ ++
    ((cells b.rowCount b.columnCount).flatMap (block ⟨b, v⟩)).map fun p =>
      p.shift (stepsAcross a.columnCount) := by
  have hleft : (cells a.rowCount a.columnCount).flatMap (block (α := Rat) ⟨a.beside b, v⟩) =
      (cells a.rowCount a.columnCount).flatMap (block ⟨a, v⟩) :=
    List.flatMap_congr fun cell hcell => block_beside_left v h hcell
  have hright : (cells a.rowCount b.columnCount).flatMap (fun cell =>
      block (α := Rat) ⟨a.beside b, v⟩ (a.columnCount + cell.1, cell.2)) =
      (cells b.rowCount b.columnCount).flatMap fun cell =>
        (block ⟨b, v⟩ cell).map fun p => p.shift (stepsAcross a.columnCount) := by
    rw [h]
    exact List.flatMap_congr fun cell hcell => block_beside_right v h hcell
  rw [placements_eq_cells, placements_eq_cells, Grid.rowCount_beside h, Grid.columnCount_beside,
    cells_add, List.flatMap_append, List.flatMap_map, hleft, hright, List.map_flatMap,
    List.append_assoc]

end Beside

theorem placements_firstSteps_isPrefix (v : Vocabulary) (g : Grid) {k : Nat} (hk : 0 < k) :
    (placements ⟨g.firstSteps k hk, v⟩ : List (Placement Rat)) <+: placements ⟨g, v⟩ := by
  by_cases hlt : k < g.columnCount
  · have hwhole := placements_beside_eq v (Grid.rowCount_firstSteps_eq g hk hlt)
    rw [Grid.firstSteps_beside_laterSteps] at hwhole
    exact ⟨_, hwhole.symm⟩
  · simp only [Grid.firstSteps_eq_self g hk (Nat.le_of_not_lt hlt), List.prefix_rfl]

/-- A grid with another one on its right is drawn as it is alone, and behind that the other one,
moved by the time steps of the first and without the wires at its left edge. So the first time steps
of any grid are drawn first. -/
theorem placements_beside (v : Vocabulary) (a b : Grid) (h : a.rowCount = b.rowCount) :
    let wide : Layout := ⟨a.beside b, v⟩
    let left : Layout := ⟨a, v⟩
    let right : Layout := ⟨b, v⟩
    let offset : Point Rat := ⟨3 * a.columnCount, 0⟩
    (∃ rest : List (Placement Rat), right.placements = leadIn b.rowCount ++ rest ∧
      wide.placements = left.placements ++ rest.map fun p => p.shift offset) ∧
    (wide.bounds : Bounds Rat).width = (left.bounds : Bounds Rat).width + 3 * b.columnCount ∧
    (wide.bounds : Bounds Rat).height = (left.bounds : Bounds Rat).height ∧
    ∀ (g : Grid) (k : Nat) (hk : 0 < k),
      (placements ⟨g.firstSteps k hk, v⟩ : List (Placement Rat)) <+: placements ⟨g, v⟩ := by
  intro wide left right offset
  refine ⟨⟨_, placements_eq_cells right, placements_beside_eq v h⟩, ?_, ?_,
    fun g k hk => placements_firstSteps_isPrefix v g hk⟩
  · rw [width_bounds_rat, width_bounds_rat, Grid.columnCount_beside]
    push_cast
    ring
  · rw [height_bounds_rat, height_bounds_rat, Grid.rowCount_beside h]

/-- A control and its target, and a gate on the lower row in the time step after them. -/
theorem placements_beside_gate :
    let a : Grid := ⟨[[.controlDown], [.target]], 1, by decide, by decide, by decide⟩
    let b : Grid := ⟨[[.blank], [.hadamard]], 1, by decide, by decide, by decide⟩
    a.rowCount = b.rowCount ∧
      (placements ⟨a, .extended⟩ ++ [⟨.wire, ⟨6, 21 / 4⟩⟩, ⟨.hadamard, ⟨9 / 2, 3⟩⟩,
        ⟨.wire, ⟨6, 3⟩⟩] : List (Placement Rat)) =
        placements ⟨⟨[[.controlDown, .blank], [.target, .hadamard]], 2, by decide, by decide,
          by decide⟩, .extended⟩ := by
  intro a b
  have h : a.rowCount = b.rowCount := rfl
  obtain ⟨⟨rest, hright, hwide⟩, -⟩ := placements_beside .extended a b h
  have hdrawn : (placements ⟨b, .extended⟩ : List (Placement Rat)) = leadIn b.rowCount ++
      [⟨.wire, ⟨3, 21 / 4⟩⟩, ⟨.hadamard, ⟨3 / 2, 3⟩⟩, ⟨.wire, ⟨3, 3⟩⟩] := by decide +kernel
  obtain rfl := List.append_cancel_left (hright.symm.trans hdrawn)
  refine ⟨h, Eq.trans ?_ hwide.symm⟩
  exact congrArg _ (by decide +kernel)

end Layout

end CircuitPicture
