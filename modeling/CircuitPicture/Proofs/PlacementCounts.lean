import CircuitPicture.Proofs.ExactRaster
import CircuitPicture.Proofs.LayoutDecoding
import Mathlib.Algebra.BigOperators.Group.Finset.Piecewise
import Mathlib.Algebra.Order.BigOperators.Group.Finset

/-! # How often something is drawn

How often a layout has one placement is counted in the one column where the placement stands: every
cell of the column counts by the stamps of its symbol (`count_placements`). -/

namespace CircuitPicture

namespace Raster

theorem columnX_inj {s t : Nat} : (columnX s : Rat) = columnX t ↔ s = t := by
  constructor
  · intro h
    rw [columnX_rat, columnX_rat] at h
    have hst : (s : Rat) = t := by linarith
    exact_mod_cast hst
  · rintro rfl
    rfl

theorem rowY_succ (rows q : Nat) : (rowY rows (q + 1) : Rat) = rowY rows q - 9 / 4 := by
  rw [rowY_rat, rowY_rat]
  push_cast
  ring

/-- A height less than one row pitch above a row is above no other row. -/
theorem rowY_add_inj (rows q r : Nat) {d e : Rat} (hd : 0 ≤ d) (hd' : d < 9 / 4) (he : 0 ≤ e)
    (he' : e < 9 / 4) : (rowY rows q : Rat) + d = rowY rows r + e ↔ q = r ∧ d = e := by
  constructor
  · intro h
    rw [rowY_rat, rowY_rat] at h
    have hlow : (q : Rat) < r + 1 := by linarith
    have hhigh : (r : Rat) < q + 1 := by linarith
    have hq : q < r + 1 := by exact_mod_cast hlow
    have hr : r < q + 1 := by exact_mod_cast hhigh
    obtain rfl : q = r := by omega
    exact ⟨rfl, by linarith⟩
  · rintro ⟨rfl, rfl⟩
    rfl

theorem rowY_inj {rows q r : Nat} : (rowY rows q : Rat) = rowY rows r ↔ q = r := by
  have h := rowY_add_inj rows q r (d := 0) (e := 0) le_rfl (by norm_num) le_rfl (by norm_num)
  rwa [add_zero, add_zero, and_iff_left rfl] at h

end Raster

namespace Layout
open Raster

theorem count_cellPlacements (v : Vocabulary) (s : Symbol) (anchor : Point Rat) {p : Primitive}
    (hp : p ≠ .wire) (x y : Rat) : (cellPlacements v s anchor).count ⟨p, ⟨x, y⟩⟩ =
      if anchor.x = x then (v.stamps s).count ⟨p, y - anchor.y⟩ else 0 := by
  have hwire : [trailingWire anchor].count ⟨p, ⟨x, y⟩⟩ = 0 := by
    refine List.count_eq_zero.2 fun h => hp ?_
    exact congrArg Placement.primitive (List.mem_singleton.1 h)
  rw [cellPlacements, List.count_append, hwire, Nat.add_zero]
  split
  · rename_i hx
    have hplace : (⟨p, ⟨x, y⟩⟩ : Placement Rat) = (⟨p, y - anchor.y⟩ : Stamp Rat).place anchor := by
      rw [Stamp.place_rat, hx, add_sub_cancel]
    rw [hplace]
    exact List.count_map_of_injective _ _ (Stamp.place_injective anchor) _
  · rename_i hx
    refine List.count_eq_zero.2 fun h => hx ?_
    obtain ⟨stamp, _, hstamp⟩ := List.mem_map.1 h
    rw [Stamp.place_rat] at hstamp
    exact congrArg (fun q : Placement Rat => q.position.x) hstamp

theorem count_block (l : Layout) {p : Primitive} (hp : p ≠ .wire) (s q : Nat) (x y : Rat) :
    (l.block (s, q)).count ⟨p, ⟨x, y⟩⟩ =
      if columnX s = x then
        (l.vocabulary.stamps (l.grid.symbolAt q s)).count ⟨p, y - rowY l.grid.rowCount q⟩
      else 0 :=
  count_cellPlacements _ _ _ hp x y

theorem count_placements (l : Layout) {p : Primitive} (hp : p ≠ .wire) {s : Nat}
    (hs : s < l.grid.columnCount) (y : Rat) :
    l.placements.count ⟨p, ⟨columnX s, y⟩⟩ =
      ∑ q ∈ Finset.range l.grid.rowCount,
        (l.vocabulary.stamps (l.grid.symbolAt q s)).count ⟨p, y - rowY l.grid.rowCount q⟩ := by
  have hlead : (leadIn l.grid.rowCount).count ⟨p, ⟨(columnX s : Rat), y⟩⟩ = 0 := by
    refine List.count_eq_zero.2 fun h => hp ?_
    obtain ⟨q, _, hq⟩ := mem_leadIn.1 h
    exact congrArg Placement.primitive hq
  have hblock : ∀ s' q, (l.block (s', q)).count ⟨p, ⟨(columnX s : Rat), y⟩⟩ =
      if s' = s then
        (l.vocabulary.stamps (l.grid.symbolAt q s')).count ⟨p, y - rowY l.grid.rowCount q⟩
      else 0 := by
    intro s' q
    simp only [l.count_block hp, columnX_inj]
  calc l.placements.count ⟨p, ⟨columnX s, y⟩⟩
      = ∑ s' ∈ Finset.range l.grid.columnCount, ∑ q ∈ Finset.range l.grid.rowCount,
          (l.block (s', q)).count ⟨p, ⟨columnX s, y⟩⟩ := by
        rw [placements_eq, List.count_append, hlead, Nat.zero_add, List.count_flatMap]
        refine congrArg List.sum (List.map_congr_left fun s' _ => ?_)
        exact List.count_flatMap
    _ = _ := by
        simp only [hblock, Finset.sum_ite_irrel, Finset.sum_const_zero, Finset.sum_ite_eq',
          Finset.mem_range, hs, if_true]

end Layout

end CircuitPicture
