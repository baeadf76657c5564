import CircuitPicture.Proofs.WireRows
import CircuitPicture.Proofs.PictureStream

/-! # Symbols outside of a vocabulary

The minimal vocabulary draws a grid as the extended one draws it after all symbols but seven have
been erased (`minimal_eq_erased`): one table simulates the other, cell by cell (`placements_map`).
Every stamp can be traced back to its cell (`traced`). -/

namespace CircuitPicture

namespace Symbol

/-- The letters I, H, Z, X, B, C and F. -/
def isBasic : Symbol → Bool
  | identity | hadamard | pauliZ | pauliX | blank | cnotControlBottom | cnotControlTop => true
  | _ => false

/-- The symbol, or the filler in the place of a symbol that is not basic. -/
def erase (filler s : Symbol) : Symbol := if s.isBasic then s else filler

end Symbol

namespace Vocabulary

variable {α : Type} [Scalar α]

theorem stamps_minimal (s : Symbol) :
    minimal.stamps (α := α) s = if s.isBasic then s.stamps else [] := by
  cases s <;> rfl

theorem stamps_erase {filler : Symbol} (hfiller : filler.stamps (α := α) = []) (s : Symbol) :
    extended.stamps (α := α) (Symbol.erase filler s) = minimal.stamps s := by
  rw [stamps_extended, stamps_minimal, Symbol.erase]
  cases s.isBasic
  · exact hfiller
  · rfl

end Vocabulary

namespace Grid

/-- The grid with each of its symbols changed by the same function. -/
def map (f : Symbol → Symbol) (g : Grid) : Grid where
  rows := g.rows.map (List.map f)
  columnCount := g.columnCount
  rows_ne_nil := by simpa using g.rows_ne_nil
  columnCount_pos := g.columnCount_pos
  length_row := by
    intro row hrow
    obtain ⟨symbols, hsymbols, rfl⟩ := List.mem_map.1 hrow
    rw [List.length_map, g.length_row symbols hsymbols]

@[simp] theorem rowCount_map (f : Symbol → Symbol) (g : Grid) :
    (g.map f).rowCount = g.rowCount := by
  simp [rowCount, map]

@[simp] theorem columnCount_map (f : Symbol → Symbol) (g : Grid) :
    (g.map f).columnCount = g.columnCount := rfl

theorem symbol?_map (f : Symbol → Symbol) (g : Grid) (qubit step : Nat) :
    (g.map f).symbol? qubit step = (g.symbol? qubit step).map f := by
  simp only [symbol?, map, List.getElem?_map, Option.bind_map, Option.map_bind]
  congr 1
  funext row
  simp

theorem symbolAt_map (f : Symbol → Symbol) {g : Grid} {qubit step : Nat} (hq : qubit < g.rowCount)
    (hs : step < g.columnCount) : (g.map f).symbolAt qubit step = f (g.symbolAt qubit step) := by
  have hsymbol : g.symbol? qubit step = some (g.symbolAt qubit step) :=
    symbol?_eq_some_iff.2 ⟨hq, hs, rfl⟩
  rw [symbolAt, symbol?_map, hsymbol]
  rfl

end Grid

namespace Layout

variable {α : Type}

/-- A stamp is kept if the symbol of its cell is basic, and so is every wire. -/
def isKept (g : Grid) (p : Placement α × Option (Nat × Nat)) : Bool :=
  p.2.all fun cell => (g.symbolAt cell.2 cell.1).isBasic

@[simp] theorem isKept_wire (g : Grid) (p : Placement α) : isKept g (p, none) = true := rfl

@[simp] theorem isKept_stamp (g : Grid) (p : Placement α) (cell : Nat × Nat) :
    isKept g (p, some cell) = (g.symbolAt cell.2 cell.1).isBasic := rfl

variable [Scalar α]

/-- A vocabulary draws the changed symbols as another one draws the symbols themselves. -/
theorem placements_map {v w : Vocabulary} {f : Symbol → Symbol}
    (hf : ∀ s, w.stamps (α := α) (f s) = v.stamps s) (g : Grid) :
    placements (α := α) ⟨g.map f, w⟩ = placements ⟨g, v⟩ := by
  rw [placements_eq_cells, placements_eq_cells, Grid.rowCount_map, Grid.columnCount_map]
  refine congrArg _ (List.flatMap_congr fun cell hcell => ?_)
  obtain ⟨hs, hq⟩ := mem_cells.1 hcell
  simp only [block, cellPlacements, Grid.rowCount_map, Grid.symbolAt_map f hq hs, hf]

theorem bounds_map (f : Symbol → Symbol) (g : Grid) (v w : Vocabulary) :
    bounds (α := α) ⟨g.map f, w⟩ = bounds ⟨g, v⟩ := by
  simp only [bounds, Grid.rowCount_map, Grid.columnCount_map]

/-! ## Where placements come from -/

/-- What a cell draws, its stamps together with the cell. -/
def tracedBlock (l : Layout) (cell : Nat × Nat) : List (Placement α × Option (Nat × Nat)) :=
  let anchor : Point α := anchor l.grid.rowCount cell.2 cell.1
  (l.vocabulary.stamps (l.grid.symbolAt cell.2 cell.1)).map
    (fun stamp => (stamp.place anchor, some cell)) ++ [(trailingWire anchor, none)]

/-- What a layout draws, every stamp together with its cell: the time step and the qubit. A wire
belongs to no cell. -/
def traced (l : Layout) : List (Placement α × Option (Nat × Nat)) :=
  (leadIn l.grid.rowCount).map (fun wire => (wire, none)) ++
    (cells l.grid.rowCount l.grid.columnCount).flatMap l.tracedBlock

theorem map_fst_traced (l : Layout) : (l.traced (α := α)).map Prod.fst = l.placements := by
  have hblock (cell : Nat × Nat) : (l.tracedBlock (α := α) cell).map Prod.fst = l.block cell := by
    simp [tracedBlock, block, cellPlacements, Function.comp_def]
  rw [traced, placements_eq_cells, List.map_append, List.map_map, List.map_flatMap]
  simp only [hblock, Function.comp_def, List.map_id']

theorem map_filter_traced (g : Grid) :
    ((traced (α := α) ⟨g, .extended⟩).filter (isKept g)).map Prod.fst =
      placements ⟨g, .minimal⟩ := by
  have hblock (cell : Nat × Nat) :
      ((tracedBlock (α := α) ⟨g, .extended⟩ cell).filter (isKept g)).map Prod.fst =
        block ⟨g, .minimal⟩ cell := by
    rw [block, cellPlacements, Vocabulary.stamps_minimal, tracedBlock, Vocabulary.stamps_extended]
    cases hbasic : (g.symbolAt cell.2 cell.1).isBasic <;>
      simp [List.filter_cons, List.filter_map, hbasic, Function.comp_def]
  rw [traced, placements_eq_cells, List.filter_append, List.filter_flatMap, List.map_append,
    List.map_flatMap]
  simp [hblock, List.filter_map, Function.comp_def]

end Layout

/-- The minimal vocabulary draws a grid just as the extended one draws the grid with the symbols
erased that only the extended one knows. Of what the extended one draws of the grid itself, exactly
the stamps of these symbols are missing. -/
theorem minimal_eq_erased (config : Config) (g : Grid) {filler : Symbol}
    (hfiller : filler = .blank ∨ ∃ c, filler = .unknown c) :
    let erased := g.map (Symbol.erase filler)
    Picture.render (config.withVocabulary .minimal) g =
      Picture.render (config.withVocabulary .extended) erased ∧
    ∀ (α : Type) [Scalar α],
      let minimal : List (Placement α) := Layout.placements ⟨g, .minimal⟩
      let extended : List (Placement α) := Layout.placements ⟨g, .extended⟩
      let traced : List (Placement α × Option (Nat × Nat)) := Layout.traced ⟨g, .extended⟩
      minimal = Layout.placements ⟨erased, .extended⟩ ∧
      Layout.bounds (α := α) ⟨g, .minimal⟩ = Layout.bounds ⟨erased, .extended⟩ ∧
      minimal.Sublist extended ∧
      traced.map Prod.fst = extended ∧
      (traced.filter (Layout.isKept g)).map Prod.fst = minimal ∧
      minimal.filter (fun p => p.primitive = .wire) =
        extended.filter (fun p => p.primitive = .wire) := by
  intro erased
  have hstamps (α : Type) [Scalar α] : filler.stamps (α := α) = [] := by
    obtain rfl | ⟨c, rfl⟩ := hfiller <;> rfl
  have hplacements (α : Type) [Scalar α] :
      Layout.placements (α := α) ⟨erased, .extended⟩ = Layout.placements ⟨g, .minimal⟩ :=
    Layout.placements_map (Vocabulary.stamps_erase (hstamps α)) g
  have hbounds (α : Type) [Scalar α] :
      Layout.bounds (α := α) ⟨erased, .extended⟩ = Layout.bounds ⟨g, .minimal⟩ :=
    Layout.bounds_map _ g _ _
  refine ⟨?_, fun α _ => ?_⟩
  · have htext : Picture.text (config.withVocabulary .minimal) g =
        Picture.text (config.withVocabulary .extended) erased := by
      change Picture.wholeText config.picture config.names (Layout.bounds ⟨g, .minimal⟩)
          (Layout.placements ⟨g, .minimal⟩) =
        Picture.wholeText config.picture config.names (Layout.bounds ⟨erased, .extended⟩)
          (Layout.placements ⟨erased, .extended⟩)
      rw [hplacements Float, hbounds Float]
    rw [Picture.render_eq, Picture.render_eq, htext]
  · intro minimal extended traced
    have htraced : traced.map Prod.fst = extended := Layout.map_fst_traced _
    have hkept : (traced.filter (Layout.isKept g)).map Prod.fst = minimal :=
      Layout.map_filter_traced g
    refine ⟨(hplacements α).symm, (hbounds α).symm, ?_, htraced, hkept, ?_⟩
    · rw [← htraced, ← hkept]
      exact List.filter_sublist.map Prod.fst
    · rw [Layout.filter_wire_placements, Layout.filter_wire_placements]

/-- A control above a target, of which the minimal vocabulary draws nothing, beside a gate. -/
theorem minimal_eq_erased_control :
    let g : Grid := ⟨[[.controlDown, .hadamard], [.target, .blank]], 2, by decide, by decide,
      by decide⟩
    let erased : Grid := ⟨[[.unknown '?', .hadamard], [.unknown '?', .blank]], 2, by decide,
      by decide, by decide⟩
    g.map (Symbol.erase (.unknown '?')) = erased ∧
      Picture.render (Config.standard.withVocabulary .minimal) g =
        Picture.render (Config.standard.withVocabulary .extended) erased ∧
      Layout.placements (α := Rat) ⟨g, .minimal⟩ = Layout.placements ⟨erased, .extended⟩ := by
  intro g erased
  have herased : g.map (Symbol.erase (.unknown '?')) = erased := rfl
  obtain ⟨hrender, hdrawn⟩ := minimal_eq_erased Config.standard g (.inr ⟨'?', rfl⟩)
  exact ⟨herased, hrender, (hdrawn Rat).1⟩

end CircuitPicture
