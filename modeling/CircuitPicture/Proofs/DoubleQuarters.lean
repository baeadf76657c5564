import CircuitPicture.Proofs.DoubleArithmetic

/-! # Quarters as doubles

Quarters of integers below `2 ^ 53` are doubles. Sums and products of theirs that are again such
quarters are computed without rounding. -/

namespace CircuitPicture.Double

open Float.Model
open Float.Model.UnpackedFloat (Sign roundWithAccuracy)

/-- The double `k / 4`. -/
def quarter (k : Int) : Float := ofParts (rounded k (-2))

theorem signOf_mul_two_pow (k : Int) (c : Nat) : signOf (k * 2 ^ c) = signOf k := by
  have hpow : (0 : Int) < 2 ^ c := Int.pow_pos (by decide)
  rw [signOf, signOf]
  by_cases hk : k < 0
  · rw [if_pos hk, if_pos (Int.mul_neg_of_neg_of_pos hk hpow)]
  · rw [if_neg hk, if_neg (Int.not_lt.2 (Int.mul_nonneg (Int.not_lt.1 hk) (Int.le_of_lt hpow)))]

theorem natAbs_mul_two_pow (k : Int) (c : Nat) : (k * 2 ^ c).natAbs = k.natAbs * 2 ^ c := by
  rw [Int.natAbs_mul, Int.natAbs_pow]
  rfl

theorem signOf_natCast (k : Nat) : signOf k = .positive := if_neg (by omega)

theorem signOf_apply (k : Int) : (signOf k).apply k.natAbs = k := by
  rw [signOf]
  split <;> simp only [Sign.apply] <;> omega

/-- A number is rounded to the same parts, whatever zeros are written at its end. -/
theorem rounded_mul_two_pow {k e : Int} (hk : k.natAbs < 2 ^ 53) (he : -1022 ≤ e) (c : Nat) :
    rounded (k * 2 ^ c) (e - c) = rounded k e := by
  by_cases hzero : k = 0
  · rw [hzero, Int.zero_mul]
    rfl
  · have hpos : 0 < k.natAbs := Int.natAbs_pos.2 hzero
    have hne : k * 2 ^ c ≠ 0 := Int.mul_ne_zero hzero (Int.pow_ne_zero (by decide))
    have hstored := isStored_scale hpos hk he
    rw [rounded_eq hne, rounded_eq hzero, signOf_mul_two_pow, natAbs_mul_two_pow,
      round_eq_mul_two_pow (signOf k) hpos hstored, round_mul_two_pow (signOf k) hpos hstored c]

/-- A number of quarters is stored with its digits filled up with zeros, whatever its sign is. -/
theorem exists_parts_round {m : Nat} (hpos : 0 < m) (hm : m < 2 ^ 53) :
    ∃ (c : Nat) (h : IsStored (m * 2 ^ c) (-2 - c)), 2 ^ 52 ≤ m * 2 ^ c ∧
      ∀ s, parts (ofParts (UnpackedFloat.round .binary64 s m (-2))) =
        .finite s (m * 2 ^ c) (-2 - c) h.pos := by
  have hstored := isStored_scale hpos hm (show -1022 ≤ (-2 : Int) by decide)
  refine ⟨_, hstored, hstored.full.resolve_right (by omega), fun s => ?_⟩
  rw [round_eq_mul_two_pow s hpos hstored, parts_ofParts (.finite s hstored (by omega))]

/-- The parts of a quarter are its sign and its digits, filled up with zeros. -/
theorem exists_parts_quarter {k : Int} (hzero : k ≠ 0) (hk : k.natAbs < 2 ^ 53) :
    ∃ (c : Nat) (h : IsStored (k.natAbs * 2 ^ c) (-2 - c)), 2 ^ 52 ≤ k.natAbs * 2 ^ c ∧
      parts (quarter k) = .finite (signOf k) (k.natAbs * 2 ^ c) (-2 - c) h.pos := by
  obtain ⟨c, h, hfull, hparts⟩ := exists_parts_round (Int.natAbs_pos.2 hzero) hk
  refine ⟨c, h, hfull, ?_⟩
  rw [quarter, rounded_eq hzero, hparts]

theorem exists_parts_quarter_natCast {k : Nat} (hpos : 0 < k) (hk : k < 2 ^ 53) :
    ∃ (c : Nat) (h : IsStored (k * 2 ^ c) (-2 - c)), 2 ^ 52 ≤ k * 2 ^ c ∧
      parts (quarter k) = .finite .positive (k * 2 ^ c) (-2 - c) h.pos := by
  obtain ⟨c, h, hfull, hparts⟩ := exists_parts_round hpos hk
  refine ⟨c, h, hfull, ?_⟩
  rw [quarter, rounded_eq (by omega), signOf_natCast, Int.natAbs_natCast, hparts]

theorem quarter_ne_negativeZero (k : Int) : quarter k ≠ negativeZero :=
  rounded_ne_negativeZero k (by decide)

theorem quarter_zero : quarter 0 = 0 := rfl

theorem shiftLeft_of_le (m : Nat) {a c : Nat} (h : a ≤ c) :
    (m * 2 ^ a) <<< ((-2 : Int) - a - (-2 - c)).toNat = m * 2 ^ c := by
  obtain ⟨d, rfl⟩ := Nat.exists_eq_add_of_le h
  have hd : ((-2 : Int) - a - (-2 - (a + d : Nat))).toNat = d := by omega
  rw [hd, Nat.shiftLeft_eq, Nat.pow_add, Nat.mul_assoc]

theorem apply_mul (s : Sign) (m : Int) (n : Int) : s.apply (m * n) = s.apply m * n := by
  cases s with
  | negative => exact (Int.neg_mul m n).symm
  | positive => rfl

theorem parts_add_finite (s t : Sign) {m n a b : Nat} (hm : 0 < m * 2 ^ a) (hn : 0 < n * 2 ^ b) :
    UnpackedFloat.add .binary64 (.finite s (m * 2 ^ a) (-2 - a) hm)
        (.finite t (n * 2 ^ b) (-2 - b) hn) =
      rounded ((s.apply m + t.apply n) * 2 ^ (max a b)) (-2 - (max a b : Nat)) := by
  have hmin : min ((-2 : Int) - a) (-2 - b) = -2 - (max a b : Nat) := by omega
  rw [add_finite, hmin, shiftLeft_of_le m (Nat.le_max_left a b),
    shiftLeft_of_le n (Nat.le_max_right a b), Int.add_mul, ← apply_mul, ← apply_mul]
  push_cast
  rfl

/-- Quarters are added without rounding. -/
theorem quarter_add {j k : Int} (hj : j.natAbs < 2 ^ 53) (hk : k.natAbs < 2 ^ 53)
    (hsum : (j + k).natAbs < 2 ^ 53) : quarter j + quarter k = quarter (j + k) := by
  by_cases hjzero : j = 0
  · rw [hjzero, quarter_zero, zero_add (quarter_ne_negativeZero k), Int.zero_add]
  by_cases hkzero : k = 0
  · rw [hkzero, quarter_zero, add_zero (quarter_ne_negativeZero j), Int.add_zero]
  obtain ⟨a, _, _, hparts⟩ := exists_parts_quarter hjzero hj
  obtain ⟨b, _, _, hparts'⟩ := exists_parts_quarter hkzero hk
  rw [add_eq, hparts, hparts', parts_add_finite, signOf_apply, signOf_apply,
    rounded_mul_two_pow hsum (by decide), quarter]

theorem signOf_neg {k : Int} (hzero : k ≠ 0) : signOf (-k) = -signOf k := by
  rw [signOf, signOf]
  by_cases hk : k < 0
  · rw [if_pos hk, if_neg (by omega)]
    rfl
  · rw [if_neg hk, if_pos (by omega)]
    rfl

theorem parts_quarter_neg {k : Int} (hzero : k ≠ 0) (hk : k.natAbs < 2 ^ 53) :
    parts (quarter (-k)) = (parts (quarter k)).neg := by
  obtain ⟨c, h, -, hparts⟩ := exists_parts_round (Int.natAbs_pos.2 hzero) hk
  rw [quarter, quarter, rounded_eq hzero, rounded_eq (Int.neg_ne_zero.2 hzero), Int.natAbs_neg,
    signOf_neg hzero, hparts, hparts]
  rfl

/-- Quarters are subtracted without rounding. -/
theorem quarter_sub {j k : Int} (hj : j.natAbs < 2 ^ 53) (hk : k.natAbs < 2 ^ 53)
    (hdiff : (j - k).natAbs < 2 ^ 53) : quarter j - quarter k = quarter (j - k) := by
  by_cases hzero : k = 0
  · rw [hzero, quarter_zero, sub_zero, Int.sub_zero]
  · rw [sub_eq, parts_sub_eq, ← parts_quarter_neg hzero hk, ← add_eq,
      quarter_add hj (by omega) (by omega), Int.sub_eq_add_neg]

theorem le_storedExponent {m : Nat} (hm : 2 ^ 52 ≤ m) (e : Int) : e ≤ storedExponent m e := by
  have hlog : 52 ≤ m.log2 := (Nat.le_log2 (Nat.ne_of_gt (by omega))).2 hm
  rw [storedExponent]
  omega

theorem roundWithAccuracy_of_full (s : Sign) {m : Nat} (hm : 2 ^ 52 ≤ m) (e : Int) :
    roundWithAccuracy .binary64 s m e .exact = UnpackedFloat.round .binary64 s m e := by
  have hle := le_storedExponent hm e
  rw [round_of_le s 0 (by omega), Nat.pow_zero, Nat.mul_one, Int.natCast_zero, Int.sub_zero]

theorem zero_mul_quarter {k : Nat} (hk : k < 2 ^ 53) : quarter 0 * quarter k = quarter 0 := by
  rw [mul_eq, quarter_zero, parts_zero]
  by_cases hzero : k = 0
  · rw [hzero]
    rfl
  · obtain ⟨c, _, _, hparts⟩ := exists_parts_quarter_natCast (Nat.pos_of_ne_zero hzero) hk
    rw [hparts]
    rfl

/-- Quarters that are not negative are multiplied without rounding. -/
theorem quarter_mul {j k l : Nat} (hj : j < 2 ^ 53) (hk : k < 2 ^ 53) (hl : l < 2 ^ 53)
    (hprod : j * k = 4 * l) : quarter j * quarter k = quarter l := by
  by_cases hjzero : j = 0
  · obtain rfl : l = 0 := by
      rw [hjzero, Nat.zero_mul] at hprod
      omega
    rw [hjzero]
    exact zero_mul_quarter hk
  by_cases hkzero : k = 0
  · obtain rfl : l = 0 := by
      rw [hkzero, Nat.mul_zero] at hprod
      omega
    rw [hkzero, mul_comm]
    exact zero_mul_quarter hj
  have hlpos : (l : Int) ≠ 0 := by
    have := Nat.mul_pos (Nat.pos_of_ne_zero hjzero) (Nat.pos_of_ne_zero hkzero)
    omega
  obtain ⟨a, _, hfull, hparts⟩ := exists_parts_quarter_natCast (Nat.pos_of_ne_zero hjzero) hj
  obtain ⟨b, hstored, -, hparts'⟩ := exists_parts_quarter_natCast (Nat.pos_of_ne_zero hkzero) hk
  have hmantissa : j * 2 ^ a * (k * 2 ^ b) = l * 2 ^ (a + b + 2) := by
    calc j * 2 ^ a * (k * 2 ^ b) = j * k * 2 ^ (a + b) := by
          rw [Nat.pow_add, Nat.mul_mul_mul_comm]
      _ = l * 2 ^ (a + b + 2) := by
          rw [hprod, Nat.pow_add 2 (a + b) 2, Nat.mul_comm 4 l, Nat.mul_assoc, Nat.mul_comm 4]
  have hexponent : (-2 : Int) - a + (-2 - b) = -2 - (a + b + 2 : Nat) := by omega
  have hlarge : 2 ^ 52 ≤ l * 2 ^ (a + b + 2) := by
    rw [← hmantissa]
    exact Nat.le_trans hfull (Nat.le_mul_of_pos_right _ hstored.pos)
  have hround := rounded_mul_two_pow (k := l) (e := -2) (by omega) (by decide) (a + b + 2)
  rw [rounded_eq (Int.mul_ne_zero hlpos (Int.pow_ne_zero (by decide))), natAbs_mul_two_pow,
    signOf_mul_two_pow, signOf_natCast, Int.natAbs_natCast] at hround
  rw [mul_eq, hparts, hparts', mul_finite, hmantissa, hexponent,
    roundWithAccuracy_of_full _ hlarge, quarter, ← hround]
  rfl

/-- Natural numbers of up to 51 digits are doubles. -/
theorem ofNat_eq_quarter {n : Nat} (hn : n < 2 ^ 51) : Float.ofNat n = quarter (4 * n) := by
  have hcast : (UInt64.ofNat n).toFloat = ofParts (rounded n 0) := by
    have htoNat : (UInt64.ofNat n).toNat = n := UInt64.toNat_ofNat_of_lt' (by
      change n < 2 ^ 64
      omega)
    change ofParts (rounded ((UInt64.ofNat n).toNat : Int) 0) = _
    rw [htoNat]
  have hscale : rounded (n : Int) 0 =
      rounded (4 * n) (-2) := by
    have h := rounded_mul_two_pow (k := n) (e := 0) (by omega) (by decide) 2
    rw [← h, Int.mul_comm]
    rfl
  have hone : quarter (4 * n : Nat) * quarter (4 : Nat) = quarter (4 * n : Nat) :=
    quarter_mul (by omega) (by decide) (by omega) (Nat.mul_comm _ _)
  have hofNat : Float.ofNat n = (UInt64.ofNat n).toFloat * quarter (4 : Nat) := by
    change (if h : n < 2 ^ 53 ∧ 0 ≤ 22 then _ else _) = _
    rw [dif_pos ⟨by omega, by omega⟩]
    rfl
  have hquarter : ofParts (rounded (4 * n) (-2)) = quarter (4 * n : Nat) := by
    rw [quarter]
    push_cast
    rfl
  rw [hofNat, hcast, hscale, hquarter, hone]
  push_cast
  rfl

end CircuitPicture.Double
