import CircuitPicture.Proofs.DecimalReading
import CircuitPicture.Proofs.PictureFrame
import CircuitPicture.Proofs.ShortestDecimals
import CircuitPicture.Proofs.UnroundedLayout
import Mathlib.Tactic.IntervalCases

/-! # Quarters as text

Below `2 ^ 49` the doubles are so close to each other that the shortest decimal of a quarter is the
quarter itself. Whole numbers and fractions are written in different ways, and still in one form
(`exactText_quarter`). -/

namespace CircuitPicture
open Double

namespace Decimal

/-- What stands behind the point in the text of a natural number and so many quarters. -/
def quarterPlaces : Nat → String
  | 0 => "0"
  | 1 => "25"
  | 2 => "5"
  | _ => "75"

theorem whole?_quarter (k c : Nat) :
    whole? (k * 2 ^ c) (-2 - c) = if k % 4 = 0 then some (k / 4) else none := by
  have hshift : (-(-2 - (c : Int))).toNat = c + 2 := by omega
  have hunit : 2 ^ (c + 2) = 4 * 2 ^ c := by
    rw [Nat.pow_add, Nat.mul_comm]
  have hpos : 0 < 2 ^ c := Nat.two_pow_pos c
  have hmod : k % 4 * 2 ^ c = 0 ↔ k % 4 = 0 := by
    rw [Nat.mul_eq_zero]
    exact or_iff_left (Nat.ne_of_gt hpos)
  rw [whole?, if_neg (by omega), hshift, Nat.shiftLeft_eq, Nat.one_mul, Nat.shiftRight_eq_div_pow,
    hunit, Nat.mul_mod_mul_right, Nat.mul_div_mul_right _ _ hpos]
  simp only [hmod]

theorem shortestText_of_places {h a b : Nat} (hodd : h % 2 = 1) (ha : 0 < a)
    (hfine : 5 ^ a < 10 * 2 ^ b) :
    shortestText (h * 2 ^ b) (-a - b) = withPoint (digitsText (h * 5 ^ a)) a := by
  have hne : h * 2 ^ b ≠ 0 := Nat.mul_ne_zero (by omega) (Nat.ne_of_gt (Nat.two_pow_pos b))
  rw [shortestText, if_neg hne, Shortest.decimal_of_places hodd ha hfine]
  dsimp only
  rw [positional, if_neg (by omega), Int.neg_neg, Int.toNat_natCast]

theorem shortestText_half (n c : Nat) :
    shortestText ((4 * n + 2) * 2 ^ c) (-2 - c) = digitsText n ++ ['.', '5'] := by
  have hmantissa : (4 * n + 2) * 2 ^ c = (2 * n + 1) * 2 ^ (c + 1) := by ring
  have hexponent : (-2 - c : Int) = -(1 : Nat) - (c + 1 : Nat) := by omega
  have hdigits : (2 * n + 1) * 5 ^ 1 = 10 * n + 5 := by ring
  have hpos : 0 < 2 ^ (c + 1) := Nat.two_pow_pos (c + 1)
  rw [hmantissa, hexponent, shortestText_of_places (by omega) (by decide) (by omega), hdigits,
    withPoint_digit n 0 (by decide), withPoint_zero, List.append_assoc]
  rfl

/-- An odd number of quarters has two binary places. The spacing of the doubles may be `1 / 16`, but
not wider, for both of its decimal places to be written. -/
theorem shortestText_odd {k n d c : Nat} (hodd : k % 2 = 1) (hd : d < 10)
    (hdigits : 25 * k = 100 * n + (10 * d + 5)) (hc : 2 ≤ c) :
    shortestText (k * 2 ^ c) (-2 - c) = digitsText n ++ ['.', d.digitChar, '5'] := by
  have hsplit : k * 5 ^ 2 = 10 * (10 * n + d) + 5 := by omega
  have hfour : 2 ^ 2 ≤ 2 ^ c := Nat.pow_le_pow_right (by decide) hc
  have htext := shortestText_of_places hodd (a := 2) (b := c) (by decide) (by omega)
  rw [hsplit, withPoint_digit _ 1 (by decide), withPoint_digit n 0 hd, withPoint_zero,
    List.append_assoc, List.append_assoc] at htext
  exact htext

/-- Whole numbers, halves and odd quarters are written in one form. -/
theorem exactText_quarter {k c : Nat} (hc : 2 ≤ c) :
    exactText (k * 2 ^ c) (-2 - c) =
      digitsText (k / 4) ++ '.' :: (quarterPlaces (k % 4)).toList := by
  have hrest : k % 4 < 4 := Nat.mod_lt k (by decide)
  have hk : k = 4 * (k / 4) + k % 4 := (Nat.div_add_mod k 4).symm
  rw [exactText, whole?_quarter]
  generalize k / 4 = n at hk ⊢
  interval_cases hplaces : k % 4
  · rfl
  · exact shortestText_odd (d := 2) (by omega) (by decide) (by omega) hc
  · rw [hk]
    exact shortestText_half n c
  · exact shortestText_odd (d := 7) (by omega) (by decide) (by omega) hc

/-- The numbers of quarters below `2 ^ 49` are stored with two binary places more than they need. -/
theorem exists_ofFloat_quarter {k : Nat} (hk : k < 2 ^ 51) :
    ∃ c : Nat, 2 ≤ c ∧ Binary64.ofFloat (quarter k) = .finite false (k * 2 ^ c) (-2 - c) := by
  rcases Nat.eq_zero_or_pos k with rfl | hpos
  · refine ⟨1072, by decide, ?_⟩
    rw [Nat.zero_mul]
    rfl
  · obtain ⟨c, hfull, hfields⟩ := ofFloat_quarter (k := k) (by omega) (by omega)
    rw [signOf_natCast, Int.natAbs_natCast] at hfields
    rw [Int.natAbs_natCast] at hfull
    refine ⟨c, ?_, hfields⟩
    by_contra hfew
    have hpow : k * 2 ^ c ≤ k * 2 ^ 1 :=
      Nat.mul_le_mul_left k (Nat.pow_le_pow_right (by decide) (by omega))
    omega

/-- The digits of the integer part of `k / 4`, a point, and the places of the rest. -/
def quarterText (k : Nat) : String := toString (k / 4) ++ "." ++ quarterPlaces (k % 4)

theorem toList_quarterText (k : Nat) :
    (quarterText k).toList = digitsText (k / 4) ++ '.' :: (quarterPlaces (k % 4)).toList := by
  rw [quarterText, Nat.toString_eq_ofList_toDigits, String.toList_append, String.toList_append,
    String.toList_ofList, List.append_assoc]
  rfl

theorem coordinateText_quarter {k : Nat} (hk : k < 2 ^ 51) :
    coordinateText (quarter k) = quarterText k := by
  obtain ⟨c, hc, hfields⟩ := exists_ofFloat_quarter hk
  rw [coordinateText, hfields, textOf, exactText_quarter hc, ← toList_quarterText]
  exact String.ofList_toList

theorem isDigits_quarterPlaces (r : Nat) : IsDigits (quarterPlaces r).toList := by
  unfold quarterPlaces
  split <;> exact ⟨List.cons_ne_nil _ _, List.all_eq_true.1 rfl⟩

theorem mem_quarterText {k : Nat} {c : Char} (hc : c ∈ (quarterText k).toList) :
    c.isDigit = true ∨ c = '.' := by
  rw [toList_quarterText] at hc
  exact (IsNumeral.point (isDigits_digitsText _) (isDigits_quarterPlaces _)).mem hc

theorem head?_quarterText {k : Nat} (h : (quarterText k).toList.head? = some '0') : k / 4 = 0 := by
  rw [toList_quarterText, (isDigits_digitsText (k / 4)).head?_append] at h
  exact head?_digitsText h

/-- Digits before the point and the places of a rest of quarters, read together. -/
theorem ofDigitChars_quarterPlaces (n : Nat) {r : Nat} (hr : r < 4) :
    (Nat.ofDigitChars 10 (quarterPlaces r).toList n : Rat) / 10 ^ (quarterPlaces r).toList.length =
      n + r / 4 := by
  interval_cases r <;> simp [quarterPlaces, Nat.ofDigitChars_cons, Nat.ofDigitChars_nil] <;> ring

theorem read?_quarterText (k : Nat) : read? (quarterText k) = some (k / 4 : Rat) := by
  have hk : (k : Rat) = 4 * (k / 4 : Nat) + (k % 4 : Nat) := by
    exact_mod_cast (Nat.div_add_mod k 4).symm
  rw [← String.ofList_toList (s := quarterText k), toList_quarterText,
    read?_eq (isDigits_digitsText _) (isDigits_quarterPlaces _), ofDigitChars_digitsText,
    ofDigitChars_quarterPlaces _ (Nat.mod_lt k (by decide)), hk]
  congr 1
  ring

end Decimal

namespace Layout
open Raster Recorded

/-- No number of a layout is negative, or greater than both sides of the picture. -/
theorem le_side_of_mem_numbers {l : Layout} {v : Rat} (h : v ∈ l.numbers) :
    0 ≤ v ∧ (v ≤ (l.bounds : Bounds Rat).width ∨ v ≤ (l.bounds : Bounds Rat).height) := by
  have hrows : (0 : Rat) ≤ l.grid.rowCount := Nat.cast_nonneg _
  have hcolumns : (0 : Rat) ≤ l.grid.columnCount := Nat.cast_nonneg _
  simp only [numbers, List.mem_append, List.mem_map, List.mem_range, List.mem_cons,
    List.not_mem_nil, or_false, List.mem_flatMap] at h
  rw [width_bounds_rat, height_bounds_rat]
  rcases h with ((⟨q, hq, rfl⟩ | ⟨s, hs, rfl⟩) | hframe) | ⟨p, hp, rfl | rfl⟩
  · have hlow := le_rowY hq
    have hhigh := rowY_le l.grid.rowCount q
    exact ⟨by linarith, .inr (by linarith)⟩
  · have hright := columnX_add_le hs
    have hleft : (0 : Rat) ≤ columnX s := by
      rw [columnX_rat]
      positivity
    exact ⟨hleft, .inl (by linarith)⟩
  · rw [width_bounds_rat, height_bounds_rat, bounds_rat] at hframe
    rcases hframe with rfl | rfl | rfl | rfl | rfl | rfl
    · exact ⟨le_rfl, .inl (by positivity)⟩
    · exact ⟨le_rfl, .inl (by positivity)⟩
    · exact ⟨by positivity, .inl le_rfl⟩
    · exact ⟨by positivity, .inr le_rfl⟩
    · exact ⟨by positivity, .inl le_rfl⟩
    · exact ⟨by positivity, .inr le_rfl⟩
  · obtain ⟨⟨hleft, hright⟩, -⟩ := framed_iff.1 (framed_of_mem_placements hp)
    exact ⟨hleft, .inl (by linarith)⟩
  · obtain ⟨-, hbottom, htop⟩ := framed_iff.1 (framed_of_mem_placements hp)
    exact ⟨by linarith, .inr (by linarith)⟩

/-- Up to `2 ^ 47` rows and as many columns all numbers of a layout are quarters below `2 ^ 49`. -/
theorem exists_quarter_of_mem_numbers {l : Layout} (hrows : l.grid.rowCount ≤ 2 ^ 47)
    (hcolumns : l.grid.columnCount ≤ 2 ^ 47) {x : Float} (hx : x ∈ l.numbers) :
    ∃ k : Nat, k < 2 ^ 51 ∧ x = quarter k := by
  rw [← double_hom.map_numbers] at hx
  obtain ⟨c, hc, rfl⟩ := List.mem_map.1 hx
  obtain ⟨k, hk⟩ := holds_of_mem_numbers (by omega) (by omega) hc
  have hexact : c.exact ∈ (l.numbers : List Rat) := by
    rw [← exact_hom.map_numbers]
    exact List.mem_map_of_mem hc
  obtain ⟨hlow, hside⟩ := le_side_of_mem_numbers hexact
  rw [hk.exact] at hlow hside
  rw [width_bounds_rat, height_bounds_rat] at hside
  have hrows' : (l.grid.rowCount : Rat) ≤ 2 ^ 47 := by exact_mod_cast hrows
  have hcolumns' : (l.grid.columnCount : Rat) ≤ 2 ^ 47 := by exact_mod_cast hcolumns
  have hpos : 0 ≤ k := by
    have hquarters : (0 : Rat) ≤ k := by linarith
    exact_mod_cast hquarters
  have hlt : k < 2 ^ 51 := by
    have hquarters : (k : Rat) < 2 ^ 51 := by
      rcases hside with h | h <;> linarith
    exact_mod_cast hquarters
  obtain ⟨n, rfl⟩ := Int.eq_ofNat_of_zero_le hpos
  exact ⟨n, by exact_mod_cast hlt, hk.double⟩

end Layout

open Decimal

/-- Every number `k / 4` below `2 ^ 49` is written out in full, and what is written is read as that
number. Up to `2 ^ 47` rows and as many columns all coordinates and sides of a picture are such
numbers. -/
theorem coordinateText_quarters :
    (∀ k : Nat, k < 2 ^ 51 →
      let text := coordinateText (quarter k)
      value? (quarter k) = some (k / 4 : Rat) ∧
      (∀ x, value? x = some (k / 4 : Rat) → x = quarter k ∨ k = 0 ∧ x = negativeZero) ∧
      text = toString (k / 4) ++ "." ++ quarterPlaces (k % 4) ∧
      (text.toList.head? = some '0' → k / 4 = 0) ∧
      (∀ c ∈ text.toList, c.isDigit = true ∨ c = '.') ∧
      read? text = some (k / 4 : Rat)) ∧
    (∀ j k : Nat, j < 2 ^ 51 → k < 2 ^ 51 → j ≠ k →
      coordinateText (quarter j) ≠ coordinateText (quarter k)) ∧
    ∀ l : Layout, l.grid.rowCount ≤ 2 ^ 47 → l.grid.columnCount ≤ 2 ^ 47 →
      ∀ x ∈ (l.numbers : List Float), ∃ k : Nat, k < 2 ^ 51 ∧ x = quarter k := by
  refine ⟨fun k hk => ?_, fun j k hj hk hne htext => ?_,
    fun l hrows hcolumns x hx => Layout.exists_quarter_of_mem_numbers hrows hcolumns hx⟩
  · have hvalue : value? (quarter k) = some (k / 4 : Rat) := value?_quarter (by omega)
    rw [coordinateText_quarter hk]
    refine ⟨hvalue, fun x hx => ?_, rfl, head?_quarterText, fun c => mem_quarterText,
      read?_quarterText k⟩
    by_cases hzero : x = negativeZero
    · rw [hzero, value?_negativeZero, Option.some.injEq] at hx
      have hquarters : (k : Rat) = 0 := by linarith
      exact .inr ⟨by exact_mod_cast hquarters, hzero⟩
    · exact .inl (eq_of_value? hx hvalue hzero (quarter_ne_negativeZero k))
  · rw [coordinateText_quarter hj, coordinateText_quarter hk] at htext
    have hread : some (j / 4 : Rat) = some (k / 4 : Rat) := by
      rw [← read?_quarterText, htext, read?_quarterText]
    have hquarters : (j : Rat) = k := by linarith [Option.some.inj hread]
    exact hne (by exact_mod_cast hquarters)

end CircuitPicture
