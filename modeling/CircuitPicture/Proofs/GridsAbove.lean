import CircuitPicture.Proofs.GridsBeside

/-! # Grids on top of each other

A layout comes in blocks: the wires at the left edge, then what each time step draws
(`Layout.blocks`). Rows that are put on top of a grid go in front of each of its blocks and move
nothing in them, although rows are counted from the top (`placements_above`). -/

namespace CircuitPicture

/-- The third list holds what the first two hold, and keeps the order of each of them. -/
inductive Interleaved {α : Type} : List α → List α → List α → Prop
  | nil : Interleaved [] [] []
  | left {x : α} {xs ys zs : List α} (rest : Interleaved xs ys zs) :
      Interleaved (x :: xs) ys (x :: zs)
  | right {y : α} {xs ys zs : List α} (rest : Interleaved xs ys zs) :
      Interleaved xs (y :: ys) (y :: zs)

namespace Interleaved

variable {α : Type} {xs ys zs : List α}

theorem append_left (front : List α) (h : Interleaved xs ys zs) :
    Interleaved (front ++ xs) ys (front ++ zs) := by
  induction front with
  | nil => exact h
  | cons x front ih => exact ih.left

theorem append_right (front : List α) (h : Interleaved xs ys zs) :
    Interleaved xs (front ++ ys) (front ++ zs) := by
  induction front with
  | nil => exact h
  | cons y front ih => exact ih.right

/-- Lists that are put together block by block. -/
theorem flatten_zipWith {xss yss : List (List α)} (h : xss.length = yss.length) :
    Interleaved xss.flatten yss.flatten
      (List.zipWith (fun front back => front ++ back) xss yss).flatten := by
  induction xss generalizing yss with
  | nil =>
    obtain rfl := List.length_eq_zero_iff.1 h.symm
    exact nil
  | cons front xss ih =>
    obtain ⟨back, yss, rfl⟩ := List.exists_cons_of_length_eq_add_one h.symm
    have hrest := ih (Nat.succ.inj h)
    simp only [List.zipWith_cons_cons, List.flatten_cons, List.append_assoc]
    exact (hrest.append_right back).append_left front

end Interleaved

namespace Grid

variable {a b : Grid} (h : a.columnCount = b.columnCount)

/-- A grid with another one below it. -/
def above (a b : Grid) (h : a.columnCount = b.columnCount) : Grid where
  rows := a.rows ++ b.rows
  columnCount := a.columnCount
  rows_ne_nil := by simp [a.rows_ne_nil]
  columnCount_pos := a.columnCount_pos
  length_row := by
    intro row hrow
    rcases List.mem_append.1 hrow with hrow | hrow
    · exact a.length_row row hrow
    · exact (b.length_row row hrow).trans h.symm

@[simp] theorem columnCount_above : (a.above b h).columnCount = a.columnCount := rfl

@[simp] theorem rowCount_above : (a.above b h).rowCount = a.rowCount + b.rowCount := by
  simp [rowCount, above]

theorem symbolAt_above_upper {qubit : Nat} (hq : qubit < a.rowCount) (step : Nat) :
    (a.above b h).symbolAt qubit step = a.symbolAt qubit step := by
  have hrow : (a.rows ++ b.rows)[qubit]? = a.rows[qubit]? := List.getElem?_append_left hq
  simp only [symbolAt, symbol?, above, hrow]

theorem symbolAt_above_lower (qubit step : Nat) :
    (a.above b h).symbolAt (a.rowCount + qubit) step = b.symbolAt qubit step := by
  have hlength : a.rows.length ≤ a.rowCount + qubit := Nat.le_add_right _ _
  have hrow : (a.rows ++ b.rows)[a.rowCount + qubit]? = b.rows[qubit]? := by
    rw [List.getElem?_append_right hlength, rowCount, Nat.add_sub_cancel_left]
  simp only [symbolAt, symbol?, above, hrow]

end Grid

namespace Layout
open Raster

section Blocks

variable {α : Type} [Scalar α]

/-- What a layout draws, in blocks: the wires at the left edge, then one block for each time
step. -/
def blocks (l : Layout) : List (List (Placement α)) :=
  leadIn l.grid.rowCount :: l.grid.steps.zipIdx.map fun step =>
    stepPlacements l.vocabulary l.grid.rowCount (columnX step.2) step.1

theorem flatten_blocks (l : Layout) : (l.blocks (α := α)).flatten = l.placements := by
  rw [blocks, List.flatten_cons, placements, List.flatMap_def]

theorem blocks_eq (l : Layout) : l.blocks (α := α) =
    leadIn l.grid.rowCount :: (List.range l.grid.columnCount).map fun step =>
      (List.range l.grid.rowCount).flatMap fun qubit => l.block (step, qubit) := by
  rw [blocks, Grid.steps_eq_map, zipIdx_map_range, List.map_map]
  simp only [Function.comp_def, stepPlacements, zipIdx_map_range, List.flatMap_map]
  rfl

theorem length_blocks (l : Layout) : (l.blocks (α := α)).length = l.grid.columnCount + 1 := by
  simp [blocks_eq]

end Blocks

/-- How far up some rows lead. -/
def rowsUp (rows : Nat) : Point Rat := ⟨0, 9 / 4 * rows⟩

theorem rowY_add (m n qubit : Nat) : (rowY (m + n) qubit : Rat) = rowY m qubit + 9 / 4 * n := by
  rw [rowY_rat, rowY_rat]
  push_cast
  ring

theorem rowY_add_left (m n qubit : Nat) : (rowY (m + n) (m + qubit) : Rat) = rowY n qubit := by
  rw [rowY_rat, rowY_rat]
  push_cast
  ring

theorem anchor_above_upper (m n qubit step : Nat) :
    anchor (m + n) qubit step = anchor m qubit step + rowsUp n :=
  congrArg₂ Point.mk (add_zero _).symm (rowY_add m n qubit)

theorem anchor_above_lower (m n qubit step : Nat) :
    (anchor (m + n) (m + qubit) step : Point Rat) = anchor n qubit step :=
  congrArg (Point.mk _) (rowY_add_left m n qubit)

theorem leadIn_add (m n : Nat) : leadIn (m + n) =
    (leadIn m).map (fun p => p.shift (rowsUp n)) ++ leadIn n := by
  have hupper (qubit : Nat) : (⟨.wire, ⟨Scalar.quarters 0, rowY (m + n) qubit⟩⟩ : Placement Rat) =
      Placement.shift ⟨.wire, ⟨Scalar.quarters 0, rowY m qubit⟩⟩ (rowsUp n) :=
    congrArg (Placement.mk _) (congrArg₂ Point.mk (add_zero _).symm (rowY_add m n qubit))
  simp only [leadIn, List.range_add, List.map_append, List.map_map, Function.comp_def,
    rowY_add_left]
  simp only [hupper]

section Above

variable (v : Vocabulary) {a b : Grid} (h : a.columnCount = b.columnCount)

theorem block_above_upper {step qubit : Nat} (hq : qubit < a.rowCount) :
    block ⟨a.above b h, v⟩ (step, qubit) =
      (block ⟨a, v⟩ (step, qubit)).map fun p => p.shift (rowsUp b.rowCount) := by
  simp only [block, Grid.symbolAt_above_upper h hq, Grid.rowCount_above, anchor_above_upper,
    cellPlacements_add]

theorem block_above_lower (step qubit : Nat) :
    block (α := Rat) ⟨a.above b h, v⟩ (step, a.rowCount + qubit) = block ⟨b, v⟩ (step, qubit) := by
  simp only [block, Grid.symbolAt_above_lower, Grid.rowCount_above, anchor_above_lower]

theorem step_above (step : Nat) :
    ((List.range (a.rowCount + b.rowCount)).flatMap fun qubit =>
      block ⟨a.above b h, v⟩ (step, qubit)) =
      ((List.range a.rowCount).flatMap fun qubit => block ⟨a, v⟩ (step, qubit)).map
        (fun p => p.shift (rowsUp b.rowCount)) ++
      (List.range b.rowCount).flatMap fun qubit => block ⟨b, v⟩ (step, qubit) := by
  have hupper : ((List.range a.rowCount).flatMap fun qubit =>
      block ⟨a.above b h, v⟩ (step, qubit)) = (List.range a.rowCount).flatMap fun qubit =>
        (block ⟨a, v⟩ (step, qubit)).map fun p => p.shift (rowsUp b.rowCount) :=
    List.flatMap_congr fun qubit hq => block_above_upper v h (List.mem_range.1 hq)
  rw [List.range_add, List.flatMap_append, hupper, List.flatMap_map, List.map_flatMap]
  simp only [block_above_lower]

theorem blocks_above : blocks ⟨a.above b h, v⟩ =
    List.zipWith (fun upper lower => upper.map (fun p => p.shift (rowsUp b.rowCount)) ++ lower)
      (blocks ⟨a, v⟩) (blocks ⟨b, v⟩) := by
  simp only [blocks_eq, Grid.rowCount_above, Grid.columnCount_above, leadIn_add, step_above, ← h,
    List.zipWith_cons_cons, List.zipWith_map, List.zipWith_self]

end Above

/-- At the left edge and in every time step the upper grid is drawn first, higher by the rows of the
lower one, and then the lower grid as it is drawn alone. The picture gets higher by the rows of the
upper grid and no wider. -/
theorem placements_above (v : Vocabulary) (a b : Grid) (h : a.columnCount = b.columnCount) :
    let tall : Layout := ⟨a.above b h, v⟩
    let upper : Layout := ⟨a, v⟩
    let lower : Layout := ⟨b, v⟩
    let lift (p : Placement Rat) : Placement Rat := p.shift ⟨0, 9 / 4 * b.rowCount⟩
    (∀ l : Layout, (l.blocks : List (List (Placement Rat))).flatten = l.placements ∧
      (l.blocks : List (List (Placement Rat))).length = l.grid.columnCount + 1) ∧
    tall.blocks = List.zipWith (fun top bottom => top.map lift ++ bottom)
      upper.blocks lower.blocks ∧
    Interleaved (upper.placements.map lift) lower.placements tall.placements ∧
    (tall.bounds : Bounds Rat).height = (lower.bounds : Bounds Rat).height + 9 / 4 * a.rowCount ∧
    (tall.bounds : Bounds Rat).width = (upper.bounds : Bounds Rat).width ∧
    (tall.bounds : Bounds Rat).width = (lower.bounds : Bounds Rat).width := by
  intro tall upper lower lift
  have hblocks : tall.blocks = List.zipWith (fun top bottom => top.map lift ++ bottom)
      upper.blocks lower.blocks := blocks_above v h
  have hlength : (upper.blocks.map (List.map lift)).length =
      (lower.blocks : List (List (Placement Rat))).length := by
    rw [List.length_map, length_blocks, length_blocks]
    exact congrArg (· + 1) h
  refine ⟨fun l => ⟨flatten_blocks l, length_blocks l⟩, hblocks, ?_, ?_, ?_, ?_⟩
  · have hinterleaved := Interleaved.flatten_zipWith hlength
    rwa [← List.map_flatten, flatten_blocks, flatten_blocks, List.zipWith_map_left, ← hblocks,
      flatten_blocks] at hinterleaved
  · rw [height_bounds_rat, height_bounds_rat, Grid.rowCount_above]
    push_cast
    ring
  · rw [width_bounds_rat, width_bounds_rat, Grid.columnCount_above]
  · rw [width_bounds_rat, width_bounds_rat, Grid.columnCount_above, h]

/-- A control above its target: the line of the control ends in the row of the target, which knows
nothing of it. -/
theorem placements_above_target :
    let a : Grid := ⟨[[.controlDown]], 1, by decide, by decide, by decide⟩
    let b : Grid := ⟨[[.target]], 1, by decide, by decide, by decide⟩
    ∃ h : a.columnCount = b.columnCount,
      (blocks ⟨a.above b h, .extended⟩ : List (List (Placement Rat))) =
        [[⟨.wire, ⟨0, 21 / 4⟩⟩, ⟨.wire, ⟨0, 3⟩⟩],
          [⟨.controlDot, ⟨3 / 2, 21 / 4⟩⟩, ⟨.lineUpTouching, ⟨3 / 2, 3⟩⟩, ⟨.wire, ⟨3, 21 / 4⟩⟩,
            ⟨.xor, ⟨3 / 2, 3⟩⟩, ⟨.xorFixer, ⟨3 / 2, 3⟩⟩, ⟨.wire, ⟨3, 3⟩⟩]] := by
  intro a b
  have h : a.columnCount = b.columnCount := rfl
  obtain ⟨-, hblocks, -⟩ := placements_above .extended a b h
  refine ⟨h, hblocks.trans ?_⟩
  decide +kernel

end Layout

end CircuitPicture
