import CircuitPicture.Proofs.DoubleForm

/-! # Rounding to doubles

A number that doubles store is rounded to itself, however it is written (`round_mul_two_pow`). No
other number above the least exponent is rounded to zero (`exists_round`). -/

namespace CircuitPicture.Double

open Float.Model
open Float.Model.UnpackedFloat (Sign ExtendedMantissa Accuracy shiftToTargetExponent shiftToExponent
  roundWithAccuracy decreaseExponent)

theorem log2_mul_two_pow {m : Nat} (hm : 0 < m) (k : Nat) : (m * 2 ^ k).log2 = m.log2 + k := by
  have hne : m ≠ 0 := Nat.ne_of_gt hm
  have hpos : m * 2 ^ k ≠ 0 := Nat.mul_ne_zero hne (Nat.ne_of_gt (Nat.two_pow_pos k))
  refine (Nat.log2_eq_iff hpos).2 ⟨?_, ?_⟩
  · rw [Nat.pow_add]
    exact Nat.mul_le_mul_right _ (Nat.log2_self_le hne)
  · rw [Nat.add_right_comm, Nat.pow_add]
    exact Nat.mul_lt_mul_of_pos_right Nat.lt_log2_self (Nat.two_pow_pos k)

/-- The stored exponent depends on the number alone, and not on how it is written. -/
theorem storedExponent_mul_two_pow {m : Nat} (hm : 0 < m) (k : Nat) (e : Int) :
    storedExponent (m * 2 ^ k) (e - k) = storedExponent m e := by
  rw [storedExponent, storedExponent, log2_mul_two_pow hm]
  omega

theorem shiftRight_succ (em : ExtendedMantissa) (k : Nat) :
    em >>> (k + 1) = (em >>> k).shiftRightOne := rfl

theorem mantissa_shiftRight (em : ExtendedMantissa) (k : Nat) :
    (em >>> k).mantissa = em.mantissa / 2 ^ k := by
  induction k with
  | zero => exact (Nat.div_one _).symm
  | succ k ih =>
    rw [shiftRight_succ, Nat.pow_succ, ← Nat.div_div_eq_div_mul, ← ih]
    rfl

/-- Shifting out zeros loses nothing. -/
theorem shiftRight_mul_two_pow (m k : Nat) :
    (⟨m * 2 ^ k, false, false⟩ : ExtendedMantissa) >>> k = ⟨m, false, false⟩ := by
  induction k generalizing m with
  | zero =>
    rw [Nat.pow_zero, Nat.mul_one]
    rfl
  | succ k ih =>
    have hmul : m * 2 ^ (k + 1) = m * 2 * 2 ^ k := by rw [Nat.pow_succ', Nat.mul_assoc]
    rw [shiftRight_succ, hmul, ih]
    simp [ExtendedMantissa.shiftRightOne]

theorem roundedMantissa_bounds (em : ExtendedMantissa) :
    em.mantissa ≤ em.roundedMantissa ∧ em.roundedMantissa ≤ em.mantissa + 1 := by
  obtain ⟨m, r, s⟩ := em
  cases r <;> cases s <;>
    simp only [ExtendedMantissa.roundedMantissa, ExtendedMantissa.accuracy,
      Accuracy.roundToNearestEven] <;>
    omega

theorem shiftToTargetExponent_eq (m : Nat) (e : Int) :
    shiftToTargetExponent .binary64 m e .exact =
      ((⟨m, false, false⟩ : ExtendedMantissa) >>> (storedExponent m e - e).toNat,
        e + (storedExponent m e - e).toNat) := by
  rw [shiftToTargetExponent, targetExponent_eq]
  rfl

theorem shiftToTargetExponent_of_isStored {m : Nat} {e : Int} (h : IsStored m e) (k : Nat) :
    shiftToTargetExponent .binary64 (m * 2 ^ k) (e - k) .exact = (⟨m, false, false⟩, e) := by
  have hshift : (e - (e - (k : Int))).toNat = k := by omega
  rw [shiftToTargetExponent_eq, storedExponent_mul_two_pow h.pos, storedExponent_eq h, hshift,
    shiftRight_mul_two_pow, Int.sub_add_cancel]

/-- Rounding keeps the digits from the stored exponent on, rounds them once, and brings the result
into the stored form. -/
theorem roundWithAccuracy_of_shift {s : Sign} {m M k : Nat} {e E : Int} {em : ExtendedMantissa}
    (h : IsStored M E)
    (hshift : shiftToTargetExponent .binary64 m e .exact = (em, E - k))
    (hround : em.roundedMantissa = M * 2 ^ k) :
    roundWithAccuracy .binary64 s m e .exact = .finite s M E h.pos := by
  rw [roundWithAccuracy, hshift]
  dsimp only
  rw [hround, shiftToTargetExponent_of_isStored h]
  exact dif_neg (Nat.ne_of_gt h.pos)

theorem roundWithAccuracy_eq (s : Sign) {m : Nat} {e : Int} (h : IsStored m e) (k : Nat) :
    roundWithAccuracy .binary64 s (m * 2 ^ k) (e - k) .exact = .finite s m e h.pos := by
  have hround : ExtendedMantissa.roundedMantissa ⟨m, false, false⟩ = m * 2 ^ 0 :=
    (Nat.mul_one m).symm
  refine roundWithAccuracy_of_shift h ?_ hround
  rw [shiftToTargetExponent_of_isStored h, Int.natCast_zero, Int.sub_zero]

theorem round_of_le (s : Sign) {m : Nat} {e : Int} (k : Nat)
    (hk : (e - storedExponent m e).toNat = k) :
    UnpackedFloat.round .binary64 s m e =
      roundWithAccuracy .binary64 s (m * 2 ^ k) (e - k) .exact := by
  rw [UnpackedFloat.round, targetExponent_eq]
  simp only [decreaseExponent, hk, Nat.shiftLeft_eq]

/-- A stored number is rounded to itself. -/
theorem round_eq (s : Sign) {m : Nat} {e : Int} (h : IsStored m e) (k : Nat) :
    UnpackedFloat.round .binary64 s (m * 2 ^ k) (e - k) = .finite s m e h.pos := by
  have hshift : (e - k - storedExponent (m * 2 ^ k) (e - k)).toNat = 0 := by
    rw [storedExponent_mul_two_pow h.pos, storedExponent_eq h]
    omega
  rw [round_of_le s 0 hshift, Nat.pow_zero, Nat.mul_one, Int.natCast_zero, Int.sub_zero,
    roundWithAccuracy_eq s h]

/-- A number that is stored with zeros at its end is rounded to itself. -/
theorem round_eq_mul_two_pow (s : Sign) {m k : Nat} {e : Int} (hm : 0 < m)
    (h : IsStored (m * 2 ^ k) (e - k)) :
    UnpackedFloat.round .binary64 s m e = .finite s (m * 2 ^ k) (e - k) h.pos := by
  have hshift : (e - storedExponent m e).toNat = k := by
    rw [← storedExponent_mul_two_pow hm k, storedExponent_eq h]
    omega
  have hround := roundWithAccuracy_eq s h 0
  rw [Nat.pow_zero, Nat.mul_one, Int.natCast_zero, Int.sub_zero] at hround
  rw [round_of_le s k hshift, hround]

/-- Rounding a number above the least exponent does not give zero. -/
theorem exists_round (s : Sign) {m : Nat} {e : Int} (hm : 0 < m) (he : -1074 ≤ e) :
    ∃ (M : Nat) (E : Int) (h : IsStored M E),
      UnpackedFloat.round .binary64 s m e = .finite s M E h.pos := by
  by_cases hle : storedExponent m e ≤ e
  · obtain ⟨k, hk⟩ := Int.eq_ofNat_of_zero_le (show 0 ≤ e - storedExponent m e by omega)
    have hE : e - (k : Int) = storedExponent m e := by omega
    have hstored : IsStored (m * 2 ^ k) (e - k) := by
      refine isStored_of_storedExponent_eq (Nat.mul_pos hm (Nat.two_pow_pos k)) ?_
      rw [storedExponent_mul_two_pow hm, hE]
    exact ⟨_, _, hstored, round_eq_mul_two_pow s hm hstored⟩
  · obtain ⟨k, hk⟩ := Int.eq_ofNat_of_zero_le (show 0 ≤ storedExponent m e - e by omega)
    have hlog : m.log2 = 52 + k := by
      rw [storedExponent] at hk hle
      omega
    have hlow : 2 ^ 52 ≤ m / 2 ^ k := by
      rw [Nat.le_div_iff_mul_le (Nat.two_pow_pos k), ← Nat.pow_add, ← hlog]
      exact Nat.log2_self_le (Nat.ne_of_gt hm)
    have hhigh : m / 2 ^ k < 2 ^ 53 := by
      rw [Nat.div_lt_iff_lt_mul (Nat.two_pow_pos k), ← Nat.pow_add, Nat.add_comm 53 k]
      have := Nat.lt_log2_self (n := m)
      rwa [hlog, show 52 + k + 1 = k + 53 by omega] at this
    have hround := roundedMantissa_bounds ((⟨m, false, false⟩ : ExtendedMantissa) >>> k)
    rw [mantissa_shiftRight] at hround
    have hshift := shiftToTargetExponent_eq m e
    rw [hk, Int.toNat_natCast] at hshift
    rw [round_of_le s 0 (by omega), Nat.pow_zero, Nat.mul_one, Int.natCast_zero, Int.sub_zero]
    generalize (⟨m, false, false⟩ : ExtendedMantissa) >>> k = em at hround hshift
    simp only at hround
    -- Rounding up a mantissa of 53 ones makes it one digit longer.
    by_cases hcarry : em.roundedMantissa = 2 ^ 53
    · have hstored : IsStored (2 ^ 52) (e + k + 1) :=
        ⟨by decide, by decide, by omega, .inl (by decide)⟩
      refine ⟨_, _, hstored, roundWithAccuracy_of_shift (k := 1) hstored ?_ hcarry⟩
      rw [hshift, Int.natCast_one, Int.add_sub_cancel]
    · have hstored : IsStored em.roundedMantissa (e + k) :=
        ⟨by omega, by omega, by omega, .inl (by omega)⟩
      refine ⟨_, _, hstored, roundWithAccuracy_of_shift (k := 0) hstored ?_ (Nat.mul_one _).symm⟩
      rw [hshift, Int.natCast_zero, Int.sub_zero]

/-- A number that can be stored is not rounded, whatever zeros are written at its end. -/
theorem round_mul_two_pow (s : Sign) {m j : Nat} {e : Int} (hm : 0 < m)
    (h : IsStored (m * 2 ^ j) (e - j)) (c : Nat) :
    UnpackedFloat.round .binary64 s (m * 2 ^ c) (e - c) = .finite s (m * 2 ^ j) (e - j) h.pos := by
  rcases Nat.le_total j c with hle | hle
  · obtain ⟨d, rfl⟩ := Nat.exists_eq_add_of_le hle
    have hexp : e - ((j + d : Nat) : Int) = e - j - d := by omega
    rw [Nat.pow_add, ← Nat.mul_assoc, hexp, round_eq s h d]
  · obtain ⟨d, rfl⟩ := Nat.exists_eq_add_of_le hle
    have hexp : e - ((c + d : Nat) : Int) = e - c - d := by omega
    have hmul : m * 2 ^ (c + d) = m * 2 ^ c * 2 ^ d := by rw [Nat.pow_add, Nat.mul_assoc]
    have h' : IsStored (m * 2 ^ c * 2 ^ d) (e - c - d) := by rwa [← hexp, ← hmul]
    rw [round_eq_mul_two_pow s (Nat.mul_pos hm (Nat.two_pow_pos c)) h']
    exact finite_congr s hmul.symm hexp.symm

/-- Numbers of up to 53 digits can be stored. -/
theorem isStored_scale {m : Nat} {e : Int} (hm : 0 < m) (hlt : m < 2 ^ 53) (he : -1022 ≤ e) :
    IsStored (m * 2 ^ (52 - m.log2)) (e - (52 - m.log2 : Nat)) := by
  have hlog : m.log2 < 53 := (Nat.log2_lt (Nat.ne_of_gt hm)).2 hlt
  refine isStored_of_storedExponent_eq (Nat.mul_pos hm (Nat.two_pow_pos _)) ?_
  rw [storedExponent_mul_two_pow hm, storedExponent]
  omega

end CircuitPicture.Double
