import CircuitPicture.Proofs.DoubleRaster
import CircuitPicture.Proofs.PictureLines
import CircuitPicture.Proofs.PictureStream

/-! # The text of a picture

The picture of a grid is the text of its lines, which depend on nothing but the configuration and
the symbols of the grid (`render_eq_textLines`). -/

namespace CircuitPicture.Picture

/-- The lines of a picture, each without its line feed. -/
def textLines (config : Config) (grid : Grid) : List String :=
  let settings := config.picture
  let width := 3 * Float.ofNat grid.columnCount + 1.5
  let height := 1.5 + 2.25 * Float.ofNat grid.rowCount
  documentLines settings ++
  ["\\setlength" ++ braced "\\unitlength" ++ braced settings.unitLength,
    command "begin" "picture" ++ pair width height ++ "(0, 0)"] ++
  (Layout.drawn ⟨grid, config.vocabulary⟩).map (putText config.names) ++
  footLines settings

theorem headLines_bounds (settings : PictureSettings) (l : Layout) :
    headLines settings l.bounds = documentLines settings ++
      ["\\setlength" ++ braced "\\unitlength" ++ braced settings.unitLength,
        command "begin" "picture" ++ pair (3 * Float.ofNat l.grid.columnCount + 1.5)
          (1.5 + 2.25 * Float.ofNat l.grid.rowCount) ++ "(0, 0)"] := by
  have hzero : Decimal.plainText 0 = "0" := by decide +kernel
  have horigin : "(" ++ Decimal.plainText 0 ++ ", " ++ Decimal.plainText 0 ++ ")" = "(0, 0)" := by
    rw [hzero]
    rfl
  rw [headLines, Layout.width_bounds_double, Layout.height_bounds_double, Layout.low_bounds_double]
  simp only [String.append_assoc] at horigin ⊢
  rw [horigin]

theorem wholeText_eq (settings : PictureSettings) (names : BoxNames) (bounds : Bounds Float)
    (placements : List (Placement Float)) : wholeText settings names bounds placements =
      unlines (headLines settings bounds ++ placements.map (putText names) ++
        footLines settings) := by
  have hputs : String.join ((placements.map (putLine names)).map String.join) =
      unlines (placements.map (putText names)) := by
    rw [unlines, List.map_map, List.map_map]
    simp only [Function.comp_def, join_putLine]
  rw [wholeText, List.map_append, List.map_append, String.join_append, String.join_append,
    join_header, hputs, join_footer, unlines_append, unlines_append]

theorem text_eq (config : Config) (grid : Grid) :
    text config grid = unlines (textLines config grid) := by
  rw [text, wholeText_eq, headLines_bounds, Layout.placements_eq_drawn]
  rfl

/-- A picture has exactly the lines of `textLines`, which are one for each placement between those
that open and close it. Up to step `2 ^ 49` the sums of doubles that place the wires are exact. -/
theorem render_eq_textLines (config : Config) (grid : Grid) :
    render config grid = .ok (unlines (textLines config grid)) ∧
      Layout.placements ⟨grid, config.vocabulary⟩ = Layout.drawn ⟨grid, config.vocabulary⟩ ∧
      (Layout.drawn ⟨grid, config.vocabulary⟩).length =
        Layout.placementCount ⟨grid, config.vocabulary⟩ ∧
      ∀ step, step ≤ 2 ^ 49 →
        (1.5 : Float) + 3 * Float.ofNat step + 1.5 = 3 + 3 * Float.ofNat step := by
  refine ⟨?_, Layout.placements_eq_drawn _, ?_, fun step h => Raster.wire_double h⟩
  · rw [render_eq, text_eq]
  · rw [← Layout.placements_eq_drawn, Layout.length_placements]

end CircuitPicture.Picture
