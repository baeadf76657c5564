import CircuitPicture.Proofs.PictureText
import CircuitPicture.Proofs.PlacementOrder
import CircuitPicture.Proofs.RepeatedPlacements

/-! # One cell changed

No cell takes part in drawing another one: grids that differ in one cell are drawn by the same
placements but for the stamps of that cell, and their pictures have the same lines but for the
lines of these stamps (`picture_of_sameBut`). -/

namespace CircuitPicture

/-- Two grids of the same size with the same symbols in all cells but one. -/
structure Grid.SameBut (g g' : Grid) (qubit step : Nat) : Prop where
  rowCount_eq : g.rowCount = g'.rowCount
  columnCount_eq : g.columnCount = g'.columnCount
  symbol?_eq : ∀ q s, (q, s) ≠ (qubit, step) → g.symbol? q s = g'.symbol? q s

namespace Layout
open Raster

variable {α : Type} [Scalar α] {g g' : Grid} {qubit step : Nat}

theorem bounds_of_sameBut (v : Vocabulary) (h : g.SameBut g' qubit step) :
    bounds (α := α) ⟨g, v⟩ = bounds ⟨g', v⟩ := by
  simp only [bounds, h.rowCount_eq, h.columnCount_eq]

theorem block_of_sameBut (v : Vocabulary) (h : g.SameBut g' qubit step) {cell : Nat × Nat}
    (hne : cell ≠ (step, qubit)) : block (α := α) ⟨g, v⟩ cell = block ⟨g', v⟩ cell := by
  have hsymbol : g.symbol? cell.2 cell.1 = g'.symbol? cell.2 cell.1 := by
    refine h.symbol?_eq _ _ fun heq => hne ?_
    exact Prod.ext (congrArg Prod.snd heq) (congrArg Prod.fst heq)
  simp only [block, Grid.symbolAt, hsymbol, h.rowCount_eq]

/-- The layouts of both grids around the cell. -/
theorem placements_of_sameBut (v : Vocabulary) (h : g.SameBut g' qubit step)
    (hq : qubit < g.rowCount) (hs : step < g.columnCount) :
    let anchor : Point α := anchor g.rowCount qubit step
    ∃ front rest : List (Placement α),
      placements ⟨g, v⟩ = front ++
        ((v.stamps (g.symbolAt qubit step)).map (fun stamp => stamp.place anchor) ++
          trailingWire anchor :: rest) ∧
      placements ⟨g', v⟩ = front ++
        ((v.stamps (g'.symbolAt qubit step)).map (fun stamp => stamp.place anchor) ++
          trailingWire anchor :: rest) := by
  intro anchor
  obtain ⟨after, hcells⟩ := cells_eq_append hq hs
  -- The cell itself is not among the cells before and after it.
  have hnodup := nodup_cells g.rowCount g.columnCount
  rw [hcells, List.nodup_middle, List.nodup_cons] at hnodup
  have hblocks (cells : List (Nat × Nat))
      (hsub : cells ⊆ cellsBefore g.rowCount qubit step ++ after) :
      cells.flatMap (block (α := α) ⟨g', v⟩) = cells.flatMap (block ⟨g, v⟩) := by
    refine List.flatMap_congr fun cell hcell => (block_of_sameBut v h ?_).symm
    rintro rfl
    exact hnodup.1 (hsub hcell)
  have hcells' : cells g'.rowCount g'.columnCount =
      cellsBefore g.rowCount qubit step ++ (step, qubit) :: after := by
    rw [← h.rowCount_eq, ← h.columnCount_eq, hcells]
  refine ⟨_, _, placements_around ⟨g, v⟩ hcells, ?_⟩
  have hg' := placements_around (α := α) ⟨g', v⟩ hcells'
  rwa [hblocks _ (List.subset_append_left _ _), hblocks _ (List.subset_append_right _ _),
    ← h.rowCount_eq] at hg'

end Layout

namespace Picture

/-- Pictures of one size differ in their put commands only. -/
theorem exists_textLines (config : Config) {g g' : Grid} (hrows : g.rowCount = g'.rowCount)
    (hcolumns : g.columnCount = g'.columnCount) :
    ∃ head foot : List String,
      textLines config g = head ++
        (Layout.placements ⟨g, config.vocabulary⟩).map (putText config.names) ++ foot ∧
      textLines config g' = head ++
        (Layout.placements ⟨g', config.vocabulary⟩).map (putText config.names) ++ foot := by
  simp only [textLines, Layout.placements_eq_drawn, hrows, hcolumns]
  exact ⟨_, _, rfl, rfl⟩

theorem render_around (config : Config) {g : Grid} {head foot : List String}
    {front drawn rest : List (Placement Float)} {wire : Placement Float}
    (hlines : textLines config g = head ++
      (Layout.placements ⟨g, config.vocabulary⟩).map (putText config.names) ++ foot)
    (hdrawn : Layout.placements ⟨g, config.vocabulary⟩ = front ++ (drawn ++ wire :: rest)) :
    render config g = .ok (unlines ((head ++ front.map (putText config.names)) ++
      (drawn.map (putText config.names) ++
        putText config.names wire :: (rest.map (putText config.names) ++ foot)))) := by
  rw [render_eq, text_eq, hlines, hdrawn]
  simp only [List.map_append, List.map_cons, List.append_assoc, List.cons_append]

end Picture

/-- Grids that differ in one cell at most are drawn by the same placements, but for the stamps
directly before the wire of that cell. Their pictures differ in the lines of these stamps only, and
not at all if the two symbols have the same stamps. -/
theorem picture_of_sameBut {g g' : Grid} {qubit step : Nat} {s t : Symbol}
    (h : g.SameBut g' qubit step) (hs : g.symbol? qubit step = some s)
    (ht : g'.symbol? qubit step = some t) :
    (∀ (α : Type) [Scalar α] (v : Vocabulary),
      let anchor : Point α := ⟨Raster.columnX step, Raster.rowY g.rowCount qubit⟩
      let wire := Layout.trailingWire anchor
      let stamped (symbol : Symbol) := (v.stamps symbol).map fun stamp => stamp.place anchor
      Layout.bounds (α := α) ⟨g, v⟩ = Layout.bounds ⟨g', v⟩ ∧
      ∃ front rest : List (Placement α),
        Layout.placements ⟨g, v⟩ = front ++ (stamped s ++ wire :: rest) ∧
        Layout.placements ⟨g', v⟩ = front ++ (stamped t ++ wire :: rest)) ∧
    ∀ config : Config,
      let anchor : Point Float := ⟨Raster.columnX step, Raster.rowY g.rowCount qubit⟩
      let put := Picture.putText config.names
      let wire := put (Layout.trailingWire anchor)
      let stamped (symbol : Symbol) :=
        (config.vocabulary.stamps symbol).map fun stamp => put (stamp.place anchor)
      (∃ front rest : List String,
        Picture.render config g = .ok (Picture.unlines (front ++ (stamped s ++ wire :: rest))) ∧
        Picture.render config g' = .ok (Picture.unlines (front ++ (stamped t ++ wire :: rest)))) ∧
      (config.vocabulary.stamps (α := Float) s = config.vocabulary.stamps t →
        Picture.render config g = Picture.render config g') := by
  obtain ⟨hq, hstep, rfl⟩ := Grid.symbol?_eq_some_iff.1 hs
  obtain ⟨-, -, rfl⟩ := Grid.symbol?_eq_some_iff.1 ht
  refine ⟨fun α _ v => ⟨Layout.bounds_of_sameBut v h, Layout.placements_of_sameBut v h hq hstep⟩,
    fun config => ?_⟩
  intro anchor put wire stamped
  obtain ⟨front, rest, hg, hg'⟩ :=
    Layout.placements_of_sameBut (α := Float) config.vocabulary h hq hstep
  obtain ⟨head, foot, hlines, hlines'⟩ :=
    Picture.exists_textLines config h.rowCount_eq h.columnCount_eq
  have hrender := Picture.render_around config hlines hg
  have hrender' := Picture.render_around config hlines' hg'
  rw [List.map_map] at hrender hrender'
  refine ⟨⟨_, _, hrender, hrender'⟩, fun hstamps => ?_⟩
  rw [hrender, hrender', hstamps]

/-- A gate in the place of a control whose line leads into the next row. -/
theorem picture_of_sameBut_control :
    let g : Grid := ⟨[[.controlDown], [.target]], 1, by decide, by decide, by decide⟩
    let g' : Grid := ⟨[[.hadamard], [.target]], 1, by decide, by decide, by decide⟩
    g.SameBut g' 0 0 ∧ g.symbol? 0 0 = some .controlDown ∧ g'.symbol? 0 0 = some .hadamard ∧
      ∃ front rest : List (Placement Rat),
        Layout.placements ⟨g, .extended⟩ = front ++ ([⟨.controlDot, ⟨3 / 2, 21 / 4⟩⟩,
          ⟨.lineUpTouching, ⟨3 / 2, 3⟩⟩] ++ ⟨.wire, ⟨3, 21 / 4⟩⟩ :: rest) ∧
        Layout.placements ⟨g', .extended⟩ = front ++ ([⟨.hadamard, ⟨3 / 2, 21 / 4⟩⟩] ++
          ⟨.wire, ⟨3, 21 / 4⟩⟩ :: rest) := by
  intro g g'
  have h : g.SameBut g' 0 0 := by
    refine ⟨rfl, rfl, fun q s hne => ?_⟩
    match q, s with
    | 0, 0 => exact absurd rfl hne
    | 0, _ + 1 => rfl
    | 1, _ => rfl
    | _ + 2, _ => rfl
  have hs : g.symbol? 0 0 = some .controlDown := rfl
  have ht : g'.symbol? 0 0 = some .hadamard := rfl
  obtain ⟨hlayout, -⟩ := picture_of_sameBut h hs ht
  obtain ⟨-, front, rest, hg, hg'⟩ := hlayout Rat .extended
  let anchor : Point Rat := ⟨Raster.columnX 0, Raster.rowY 2 0⟩
  have hwire : Layout.trailingWire anchor = ⟨.wire, ⟨3, 21 / 4⟩⟩ := by decide +kernel
  have hcontrol : (Symbol.controlDown.stamps.map fun stamp => stamp.place anchor) =
      [⟨.controlDot, ⟨3 / 2, 21 / 4⟩⟩, ⟨.lineUpTouching, ⟨3 / 2, 3⟩⟩] := by decide +kernel
  have hgate : (Symbol.hadamard.stamps.map fun stamp => stamp.place anchor) =
      [⟨.hadamard, ⟨3 / 2, 21 / 4⟩⟩] := by decide +kernel
  refine ⟨h, hs, ht, front, rest, ?_, ?_⟩
  · rw [← hwire, ← hcontrol]
    exact hg
  · rw [← hwire, ← hgate]
    exact hg'

end CircuitPicture
