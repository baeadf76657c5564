import CircuitPicture.Decimal.Binary64
import CircuitPicture.Proofs.DoubleQuarters
import Mathlib.Algebra.Order.Field.Power
import Mathlib.Algebra.Order.Ring.Rat
import Mathlib.Tactic.NormNum
import Mathlib.Tactic.Ring

/-! # What doubles stand for

The bits of a double say which rational number it stands for (`value?`). A quarter of an integer
below `2 ^ 53` stands for just that quotient (`value?_quarter`), and greater quarters are greater as
doubles (`quarter_lt`). No other double stands for it, the negative zero apart (`eq_of_value?`). -/

namespace CircuitPicture

/-- The number that a double stands for, if it is one. -/
def Binary64.value? : Binary64 → Option Rat
  | nan => none
  | infinite _ => none
  | finite negative mantissa exponent =>
    some (((if negative then -mantissa else mantissa : Int) : Rat) * 2 ^ exponent)

namespace Double

open Float.Model
open Float.Model.UnpackedFloat (Sign packComponents)

def value? (x : Float) : Option Rat := (Binary64.ofFloat x).value?

theorem apply_eq_ite (s : Sign) (n : Int) : s.apply n = if isNegative s then -n else n := by
  cases s <;> rfl

/-- Taking the bits of a double apart gives the fields that it was packed from. -/
theorem ofBits_packComponents (s : Sign) (b : BitVec 11) (f : BitVec 52) :
    Binary64.ofBits ⟨packComponents .binary64 s b f⟩ =
      Binary64.ofFields (isNegative s) b.toNat f.toNat := by
  have hb := b.isLt
  have hf := f.isLt
  have hbits : (⟨packComponents .binary64 s b f⟩ : UInt64).toNat =
      (isNegative s).toNat * 2 ^ 63 + b.toNat * 2 ^ 52 + f.toNat := toNat_packComponents s b f
  have hsign : decide (1 <<< 63 ≤ (isNegative s).toNat * 2 ^ 63 + b.toNat * 2 ^ 52 + f.toNat) =
      isNegative s := by
    rw [Nat.shiftLeft_eq]
    cases isNegative s
    · exact decide_eq_false (by rw [Bool.toNat_false]; omega)
    · exact decide_eq_true (by rw [Bool.toNat_true]; omega)
  have hbiased : ((isNegative s).toNat * 2 ^ 63 + b.toNat * 2 ^ 52 + f.toNat) >>> 52 % 1 <<< 11 =
      b.toNat := by
    rw [Nat.shiftLeft_eq, Nat.shiftRight_eq_div_pow]
    omega
  have hfraction : ((isNegative s).toNat * 2 ^ 63 + b.toNat * 2 ^ 52 + f.toNat) % 1 <<< 52 =
      f.toNat := by
    rw [Nat.shiftLeft_eq]
    omega
  rw [Binary64.ofBits, hbits, hbiased, hfraction, hsign]

theorem ofFloat_normal (s : Sign) {m : Nat} {e : Int} (h : IsStored m e) (hfull : 2 ^ 52 ≤ m)
    (he : e ≤ 971) :
    Binary64.ofFloat (ofParts (.finite s m e h.pos)) = .finite (isNegative s) m e := by
  have hlt := h.lt
  have hle := h.least
  have hbits : (ofParts (.finite s m e h.pos)).toBits =
      ⟨packComponents .binary64 s (BitVec.ofNat 11 (e + 1075).toNat) (BitVec.ofNat 52 m)⟩ :=
    congrArg UInt64.ofBitVec (pack_normal s h.pos hfull hlt hle he)
  have hbiased : (BitVec.ofNat 11 (e + 1075).toNat).toNat = (e + 1075).toNat := by
    rw [BitVec.toNat_ofNat]
    omega
  have hfraction : (BitVec.ofNat 52 m).toNat = m - 2 ^ 52 := by
    rw [BitVec.toNat_ofNat]
    omega
  have hexponent : (((e + 1075).toNat : Nat) : Int) - 1075 = e := by omega
  have hmantissa : 1 <<< 52 + (m - 2 ^ 52) = m := by
    rw [Nat.shiftLeft_eq]
    omega
  rw [Binary64.ofFloat, hbits, ofBits_packComponents, hbiased, hfraction, Binary64.ofFields,
    if_neg (by omega), if_neg (by omega), hexponent, hmantissa]

theorem ofFloat_subnormal (s : Sign) {m : Nat} (hm : 0 < m) (hlt : m < 2 ^ 52) :
    Binary64.ofFloat (ofParts (.finite s m (-1074) hm)) = .finite (isNegative s) m (-1074) := by
  have hbits : (ofParts (.finite s m (-1074) hm)).toBits =
      ⟨packComponents .binary64 s 0#11 (BitVec.ofNat 52 m)⟩ :=
    congrArg UInt64.ofBitVec (pack_subnormal s hm hlt)
  have hfraction : (BitVec.ofNat 52 m).toNat = m := by
    rw [BitVec.toNat_ofNat]
    omega
  rw [Binary64.ofFloat, hbits, ofBits_packComponents, hfraction]
  rfl

/-- A finite double is read as it is stored. -/
theorem ofFloat_ofParts (s : Sign) {m : Nat} {e : Int} (h : IsStored m e) (he : e ≤ 971) :
    Binary64.ofFloat (ofParts (.finite s m e h.pos)) = .finite (isNegative s) m e := by
  by_cases hfull : 2 ^ 52 ≤ m
  · exact ofFloat_normal s h hfull he
  · obtain rfl : e = -1074 := h.full.resolve_left hfull
    exact ofFloat_subnormal s h.pos (by omega)

/-- What is stored for a quarter, read back from its bits. -/
theorem ofFloat_quarter {k : Int} (hzero : k ≠ 0) (hk : k.natAbs < 2 ^ 53) :
    ∃ c : Nat, 2 ^ 52 ≤ k.natAbs * 2 ^ c ∧
      Binary64.ofFloat (quarter k) =
        .finite (isNegative (signOf k)) (k.natAbs * 2 ^ c) (-2 - c) := by
  obtain ⟨c, h, hfull, hparts⟩ := exists_parts_quarter hzero hk
  have hquarter : quarter k = ofParts (.finite (signOf k) (k.natAbs * 2 ^ c) (-2 - c) h.pos) := by
    rw [← hparts, ofParts_parts]
  refine ⟨c, hfull, ?_⟩
  rw [hquarter, ofFloat_ofParts _ h (by omega)]

theorem value?_quarter {k : Int} (hk : k.natAbs < 2 ^ 53) :
    value? (quarter k) = some (k / 4 : Rat) := by
  by_cases hzero : k = 0
  · have hfields : Binary64.ofFloat 0 = .finite false 0 (-1074) := rfl
    rw [hzero, quarter_zero, value?, hfields]
    simp [Binary64.value?]
  · obtain ⟨c, -, hfields⟩ := ofFloat_quarter hzero hk
    have hsigned : (signOf k).apply (k.natAbs * 2 ^ c : Nat) = k * 2 ^ c := by
      rw [Nat.cast_mul, apply_mul, signOf_apply]
      push_cast
      rfl
    have hpow : (2 : Rat) ^ c * 2 ^ (-2 - c : Int) = 1 / 4 := by
      rw [← zpow_natCast, ← zpow_add₀ (by norm_num), add_sub_cancel]
      norm_num
    rw [value?, hfields, Binary64.value?, ← apply_eq_ite, hsigned]
    push_cast
    rw [mul_assoc, hpow, mul_one_div]

theorem IsStored.exponent_le {m n : Nat} {e f : Int} (h : IsStored m e) (h' : IsStored n f)
    (heq : (m : Rat) * 2 ^ e = n * 2 ^ f) : f ≤ e := by
  by_contra hef
  have hlt := h.lt
  have hle := h.least
  obtain ⟨d, rfl⟩ : ∃ d : Nat, f = e + (d + 1 : Nat) := ⟨(f - e - 1).toNat, by omega⟩
  have hfull : 2 ^ 52 ≤ n := h'.full.resolve_right (by omega)
  have hscaled : (m : Rat) = n * 2 ^ (d + 1) := by
    refine mul_right_cancel₀ (zpow_ne_zero e (by norm_num : (2 : Rat) ≠ 0)) ?_
    rw [heq, zpow_add₀ (by norm_num), zpow_natCast]
    ring
  have hmantissa : m = n * 2 ^ d * 2 := by
    rw [Nat.mul_assoc, ← Nat.pow_succ]
    exact_mod_cast hscaled
  have hlarge : n ≤ n * 2 ^ d := Nat.le_mul_of_pos_right _ (Nat.two_pow_pos d)
  omega

/-- A number is stored in one form only. -/
theorem IsStored.unique {m n : Nat} {e f : Int} (h : IsStored m e) (h' : IsStored n f)
    (heq : (m : Rat) * 2 ^ e = n * 2 ^ f) : m = n ∧ e = f := by
  obtain rfl : e = f := Int.le_antisymm (h'.exponent_le h heq.symm) (h.exponent_le h' heq)
  have hpow : (2 : Rat) ^ e ≠ 0 := zpow_ne_zero e (by norm_num)
  exact ⟨by exact_mod_cast mul_right_cancel₀ hpow heq, rfl⟩

theorem abs_apply (s : Sign) (m : Nat) (e : Int) :
    |((s.apply m : Int) : Rat) * 2 ^ e| = m * 2 ^ e := by
  have hpow : (0 : Rat) < 2 ^ e := zpow_pos (by norm_num) e
  rw [abs_mul, abs_of_pos hpow]
  cases s with
  | negative => simp [Sign.apply]
  | positive => simp [Sign.apply]

theorem apply_mul_ne_zero (s : Sign) {m : Nat} (hm : 0 < m) (e : Int) :
    ((s.apply m : Int) : Rat) * 2 ^ e ≠ 0 := by
  have hpos : (0 : Rat) < m * 2 ^ e := mul_pos (by exact_mod_cast hm) (zpow_pos (by norm_num) e)
  rw [← abs_pos, abs_apply]
  exact hpos

theorem value?_eq_some {x : Float} {v : Rat} (h : value? x = some v) (hx : x ≠ negativeZero) :
    (x = 0 ∧ v = 0) ∨ ∃ (s : Sign) (m : Nat) (e : Int) (hstored : IsStored m e),
      x = ofParts (.finite s m e hstored.pos) ∧ v = (s.apply m : Int) * 2 ^ e := by
  rw [← ofParts_parts x] at h hx ⊢
  have hform := form_parts x
  generalize parts x = u at h hx hform ⊢
  cases hform with
  | notANumber =>
    have hvalue : value? (ofParts .notANumber) = none := rfl
    rw [hvalue] at h
    cases h
  | infinity s =>
    have hvalue : value? (ofParts (.infinity s)) = none := by cases s <;> rfl
    rw [hvalue] at h
    cases h
  | zero s =>
    cases s with
    | negative => exact absurd rfl hx
    | positive =>
      have hvalue : value? 0 = some 0 := by
        rw [← quarter_zero, value?_quarter (by decide), Int.cast_zero, zero_div]
      exact .inl ⟨rfl, Option.some.inj (h.symm.trans hvalue)⟩
  | finite s hstored he =>
    rw [value?, ofFloat_ofParts s hstored he, Binary64.value?, ← apply_eq_ite] at h
    exact .inr ⟨s, _, _, hstored, rfl, (Option.some.inj h).symm⟩

theorem value?_negativeZero : value? negativeZero = some 0 := by
  have hfields : Binary64.ofFloat negativeZero = .finite true 0 (-1074) := by
    rw [negativeZero]
    rfl
  rw [value?, hfields]
  simp [Binary64.value?]

theorem sign_eq_of_apply_eq {s t : Sign} {m : Nat} (hm : 0 < m) (h : s.apply m = t.apply m) :
    s = t := by
  have hne : -(m : Int) ≠ m := by omega
  cases s with
  | negative =>
    cases t with
    | negative => rfl
    | positive => exact absurd h hne
  | positive =>
    cases t with
    | negative => exact absurd h.symm hne
    | positive => rfl

/-- No two doubles stand for the same number, apart from the two zeros. -/
theorem eq_of_value? {x y : Float} {v : Rat} (hx : value? x = some v) (hy : value? y = some v)
    (hxneg : x ≠ negativeZero) (hyneg : y ≠ negativeZero) : x = y := by
  rcases value?_eq_some hx hxneg with ⟨rfl, rfl⟩ | ⟨s, m, e, h, rfl, rfl⟩ <;>
    rcases value?_eq_some hy hyneg with ⟨rfl, hv⟩ | ⟨t, n, f, h', rfl, hv⟩
  · rfl
  · exact absurd hv.symm (apply_mul_ne_zero t h'.pos f)
  · exact absurd hv (apply_mul_ne_zero s h.pos e)
  · have habs : (m : Rat) * 2 ^ e = n * 2 ^ f := by
      rw [← abs_apply s, hv, abs_apply]
    obtain ⟨rfl, rfl⟩ := h.unique h' habs
    have hsigned : s.apply m = t.apply m := by
      have hpow : (2 : Rat) ^ e ≠ 0 := zpow_ne_zero e (by norm_num)
      exact_mod_cast mul_right_cancel₀ hpow hv
    obtain rfl := sign_eq_of_apply_eq h.pos hsigned
    rfl

/-- A smaller number needs at least as many zeros to have all its digits. -/
theorem le_of_full {j k a b : Nat} (hjk : j < k) (hfull : 2 ^ 52 ≤ j * 2 ^ a)
    (hlt : k * 2 ^ b < 2 ^ 53) : b ≤ a := by
  by_contra hba
  have hpow : 2 ^ (a + 1) ≤ 2 ^ b := Nat.pow_le_pow_right (by decide) (by omega)
  have hdigits : j * 2 ^ a ≤ k * 2 ^ a := Nat.mul_le_mul_right _ (Nat.le_of_lt hjk)
  have hdouble : k * 2 ^ (a + 1) ≤ k * 2 ^ b := Nat.mul_le_mul_left k hpow
  rw [Nat.pow_succ, ← Nat.mul_assoc] at hdouble
  omega

theorem lt_of_compare {x y : Float} (h : (parts x).compare (parts y) = some .lt) : x < y := by
  refine decide_eq_true ?_
  change ((parts x).compare (parts y) == some .lt) = true
  rw [h]
  rfl

/-- The order of quarters that are not negative. -/
theorem quarter_lt {j k : Nat} (hlt : j < k) (hk : k < 2 ^ 53) : quarter j < quarter k := by
  refine lt_of_compare ?_
  obtain ⟨b, hb, -, hparts⟩ := exists_parts_quarter_natCast (Nat.zero_lt_of_lt hlt) hk
  rw [hparts]
  by_cases hzero : j = 0
  · rw [hzero]
    rfl
  · obtain ⟨a, _, hfull, hparts'⟩ :=
      exists_parts_quarter_natCast (Nat.pos_of_ne_zero hzero) (Nat.lt_trans hlt hk)
    rw [hparts']
    -- of two stored numbers the one with the greater exponent is greater
    change some ((compare ((-2 : Int) - a) (-2 - b)).then (compare (j * 2 ^ a) (k * 2 ^ b))) = _
    rcases Nat.eq_or_lt_of_le (le_of_full hlt hfull hb.lt) with rfl | hba
    · have hmantissa : j * 2 ^ b < k * 2 ^ b :=
        Nat.mul_lt_mul_of_pos_right hlt (Nat.two_pow_pos b)
      rw [Int.compare_eq_eq.2 rfl, Nat.compare_eq_lt.2 hmantissa]
      rfl
    · rw [Int.compare_eq_lt.2 (by omega)]
      rfl

end Double

end CircuitPicture
