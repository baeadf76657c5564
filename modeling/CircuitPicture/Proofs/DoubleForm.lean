import Mathlib.Algebra.Order.Ring.Int

/-! # The numbers that doubles hold

A double holds a finite number in one form only: with a mantissa of 53 binary digits, or of fewer at
the least exponent (`IsStored`). Every double is packed from one such form (`exists_form`), and
unpacking it gives this form again (`unpack_pack`). -/

namespace CircuitPicture.Double

open Float.Model
open Float.Model.UnpackedFloat (Sign packComponents unpackExponent unpackMantissa unpackSign
  unpackExponent_packComponents unpackMantissa_packComponents)

/-- A mantissa and an exponent as doubles store them. -/
structure IsStored (m : Nat) (e : Int) : Prop where
  pos : 0 < m
  lt : m < 2 ^ 53
  least : -1074 ≤ e
  full : 2 ^ 52 ≤ m ∨ e = -1074

/-- The exponent with which a number is stored. -/
def storedExponent (m : Nat) (e : Int) : Int := max ((m.log2 : Int) + e - 52) (-1074)

theorem targetExponent_eq (m : Nat) (e : Int) :
    Format.binary64.targetExponent (totalExponent m e) = storedExponent m e := by
  change max ((m.log2 : Int) + 1 + e - 53) (-1074) = max ((m.log2 : Int) + e - 52) (-1074)
  omega

theorem storedExponent_eq {m : Nat} {e : Int} (h : IsStored m e) : storedExponent m e = e := by
  have hm : m ≠ 0 := Nat.ne_of_gt h.pos
  have hlt : m.log2 < 53 := (Nat.log2_lt hm).2 h.lt
  have hle := h.least
  rw [storedExponent]
  rcases h.full with hfull | hleast
  · have hlog : 52 ≤ m.log2 := (Nat.le_log2 hm).2 hfull
    omega
  · omega

theorem isStored_of_storedExponent_eq {m : Nat} {e : Int} (hm : 0 < m)
    (h : storedExponent m e = e) : IsStored m e := by
  rw [storedExponent] at h
  refine ⟨hm, (Nat.log2_lt (Nat.ne_of_gt hm)).1 (by omega), by omega, ?_⟩
  by_cases hleast : e = -1074
  · exact .inr hleast
  · exact .inl ((Nat.le_log2 (Nat.ne_of_gt hm)).1 (by omega))

/-- The values that a double can have. -/
inductive Form : UnpackedFloat → Prop where
  | notANumber : Form .notANumber
  | infinity (s : Sign) : Form (.infinity s)
  | zero (s : Sign) : Form (.zero s)
  | finite (s : Sign) {m : Nat} {e : Int} (h : IsStored m e) (he : e ≤ 971) :
    Form (.finite s m e h.pos)

def isNegative : Sign → Bool
  | .negative => true
  | .positive => false

theorem toNat_packComponents (s : Sign) (b : BitVec 11) (f : BitVec 52) :
    (packComponents .binary64 s b f).toNat =
      (isNegative s).toNat * 2 ^ 63 + b.toNat * 2 ^ 52 + f.toNat := by
  have hsign : s.toBitVec.toNat = (isNegative s).toNat := by cases s <;> rfl
  change ((s.toBitVec ++ b) ++ f).toNat = _
  rw [BitVec.toNat_append, BitVec.toNat_append, ← Nat.shiftLeft_add_eq_or_of_lt b.isLt,
    ← Nat.shiftLeft_add_eq_or_of_lt f.isLt, Nat.shiftLeft_eq, Nat.shiftLeft_eq, hsign]
  omega

/-- All bits of a double belong to its sign, its exponent and its fraction. -/
theorem exists_packComponents (bits : BitVec 64) :
    ∃ s b f, bits = packComponents .binary64 s b f := by
  have hlt := bits.isLt
  refine ⟨if bits.toNat < 2 ^ 63 then .positive else .negative,
    BitVec.ofNat 11 (bits.toNat / 2 ^ 52), BitVec.ofNat 52 bits.toNat, BitVec.eq_of_toNat_eq ?_⟩
  rw [toNat_packComponents, BitVec.toNat_ofNat, BitVec.toNat_ofNat]
  split
  · rw [isNegative, Bool.toNat_false]
    omega
  · rw [isNegative, Bool.toNat_true]
    omega

theorem ofBitVec_unpackSign (s : Sign) (b : BitVec 11) (f : BitVec 52) :
    Sign.ofBitVec (@unpackSign .binary64 (packComponents .binary64 s b f)) = s := by
  have hb := b.isLt
  have hf := f.isLt
  have hsign : @unpackSign .binary64 (packComponents .binary64 s b f) =
      BitVec.ofNat 1 (isNegative s).toNat := by
    refine BitVec.eq_of_toNat_eq ?_
    change (packComponents .binary64 s b f).toNat >>> 63 % 2 = (isNegative s).toNat % 2
    rw [toNat_packComponents, Nat.shiftRight_eq_div_pow]
    omega
  rw [hsign]
  cases s <;> rfl

theorem pack_finite (s : Sign) {m : Nat} {e : Int} (hm : 0 < m) :
    UnpackedFloat.pack .binary64 (.finite s m e hm) =
      if 2 ^ 11 ≤ (e + 1023 + 52).toNat + 1 then UnpackedFloat.pack .binary64 (.infinity s)
      else if m.log2 + 1 = 53 then
        packComponents .binary64 s (BitVec.ofNat 11 (e + 1023 + 52).toNat) (BitVec.ofNat 52 m)
      else packComponents .binary64 s 0#11 (BitVec.ofNat 52 m) := rfl

theorem pack_normal (s : Sign) {m : Nat} {e : Int} (hm : 0 < m) (hfull : 2 ^ 52 ≤ m)
    (hlt : m < 2 ^ 53) (hle : -1074 ≤ e) (he : e ≤ 971) :
    UnpackedFloat.pack .binary64 (.finite s m e hm) =
      packComponents .binary64 s (BitVec.ofNat 11 (e + 1075).toNat) (BitVec.ofNat 52 m) := by
  have hlog : m.log2 = 52 := by
    have := (Nat.le_log2 (Nat.ne_of_gt hm)).2 hfull
    have := (Nat.log2_lt (Nat.ne_of_gt hm)).2 hlt
    omega
  have hbiased : e + 1023 + 52 = e + 1075 := by omega
  rw [pack_finite, hlog, hbiased, if_neg (by omega), if_pos rfl]

theorem pack_subnormal (s : Sign) {m : Nat} (hm : 0 < m) (hlt : m < 2 ^ 52) :
    UnpackedFloat.pack .binary64 (.finite s m (-1074) hm) =
      packComponents .binary64 s 0#11 (BitVec.ofNat 52 m) := by
  have hlog : m.log2 < 52 := (Nat.log2_lt (Nat.ne_of_gt hm)).2 hlt
  rw [pack_finite, if_neg (by decide), if_neg (by omega)]

/-- A number that is too great is packed as an infinity. -/
theorem pack_overflow (s : Sign) {m : Nat} {e : Int} (hm : 0 < m) (he : 971 < e) :
    UnpackedFloat.pack .binary64 (.finite s m e hm) =
      UnpackedFloat.pack .binary64 (.infinity s) := by
  rw [pack_finite, if_pos (by omega)]

theorem toNat_implicit (f : BitVec 52) : (1#1 ++ f).toNat = 2 ^ 52 + f.toNat := by
  rw [BitVec.toNat_append, ← Nat.shiftLeft_add_eq_or_of_lt f.isLt]
  rfl

theorem toNat_implicit_pos (f : BitVec 52) : 0 < (1#1 ++ f).toNat := by
  rw [toNat_implicit]
  omega

theorem toNat_fraction_pos {f : BitVec 52} (hf : f ≠ 0#52) : 0 < f.toNat :=
  Nat.pos_of_ne_zero fun h => hf (BitVec.eq_of_toNat_eq h)

/-- The number with this sign, these bits of the exponent and this fraction. -/
def ofFields (s : Sign) (b : BitVec 11) (f : BitVec 52) : UnpackedFloat :=
  if b = -1#11 then
    if f = 0#52 then .infinity s else .notANumber
  else if b = 0#11 then
    if hf : f = 0#52 then .zero s
    else .finite s f.toNat (b.toNat - 1075 + 1) (toNat_fraction_pos hf)
  else .finite s (1#1 ++ f).toNat (b.toNat - 1075) (toNat_implicit_pos f)

theorem unpack_packComponents (s : Sign) (b : BitVec 11) (f : BitVec 52) :
    UnpackedFloat.unpack .binary64 (packComponents .binary64 s b f) = ofFields s b f := by
  have hfields (bits : BitVec 64) : UnpackedFloat.unpack .binary64 bits =
      ofFields (Sign.ofBitVec (@unpackSign .binary64 bits)) (@unpackExponent .binary64 bits)
        (@unpackMantissa .binary64 bits) := rfl
  rw [hfields, ofBitVec_unpackSign, unpackExponent_packComponents, unpackMantissa_packComponents]

theorem unpack_normal (s : Sign) (b : BitVec 11) (f : BitVec 52) (hb : b ≠ -1#11)
    (hb' : b ≠ 0#11) :
    UnpackedFloat.unpack .binary64 (packComponents .binary64 s b f) =
      .finite s (1#1 ++ f).toNat (b.toNat - 1075) (toNat_implicit_pos f) := by
  rw [unpack_packComponents, ofFields, if_neg hb, if_neg hb']

theorem unpack_subnormal (s : Sign) (f : BitVec 52) (hf : f ≠ 0#52) :
    UnpackedFloat.unpack .binary64 (packComponents .binary64 s 0#11 f) =
      .finite s f.toNat (-1074) (toNat_fraction_pos hf) := by
  rw [unpack_packComponents, ofFields, if_neg (by decide), if_pos rfl, dif_neg hf]
  rfl

theorem finite_congr (s : Sign) {m n : Nat} {e f : Int} {hm : 0 < m} {hn : 0 < n} (h : m = n)
    (he : e = f) : UnpackedFloat.finite s m e hm = .finite s n f hn := by
  subst h he
  rfl

theorem unpack_pack_normal (s : Sign) {m : Nat} {e : Int} (h : IsStored m e) (hfull : 2 ^ 52 ≤ m)
    (he : e ≤ 971) : UnpackedFloat.unpack .binary64
      (UnpackedFloat.pack .binary64 (.finite s m e h.pos)) = .finite s m e h.pos := by
  have hlt := h.lt
  have hle := h.least
  have hbiased : (BitVec.ofNat 11 (e + 1075).toNat).toNat = (e + 1075).toNat := by
    rw [BitVec.toNat_ofNat]
    omega
  have hinf : BitVec.ofNat 11 (e + 1075).toNat ≠ -1#11 := by
    intro heq
    have : (BitVec.ofNat 11 (e + 1075).toNat).toNat = 2047 := by rw [heq]; rfl
    omega
  have hzero : BitVec.ofNat 11 (e + 1075).toNat ≠ 0#11 := by
    intro heq
    have : (BitVec.ofNat 11 (e + 1075).toNat).toNat = 0 := by rw [heq]; rfl
    omega
  have hmantissa : (1#1 ++ BitVec.ofNat 52 m).toNat = m := by
    rw [toNat_implicit, BitVec.toNat_ofNat]
    omega
  have hexponent : ((BitVec.ofNat 11 (e + 1075).toNat).toNat : Int) - 1075 = e := by omega
  rw [pack_normal s h.pos hfull hlt hle he, unpack_normal s _ _ hinf hzero]
  exact finite_congr s hmantissa hexponent

theorem unpack_pack_subnormal (s : Sign) {m : Nat} (hm : 0 < m) (hlt : m < 2 ^ 52) :
    UnpackedFloat.unpack .binary64 (UnpackedFloat.pack .binary64 (.finite s m (-1074) hm)) =
      .finite s m (-1074) hm := by
  have hmantissa : (BitVec.ofNat 52 m).toNat = m := by
    rw [BitVec.toNat_ofNat]
    omega
  have hne : BitVec.ofNat 52 m ≠ 0#52 := by
    intro heq
    rw [heq] at hmantissa
    exact Nat.ne_of_lt hm hmantissa
  rw [pack_subnormal s hm hlt, unpack_subnormal s _ hne]
  exact finite_congr s hmantissa rfl

theorem unpack_pack {u : UnpackedFloat} (h : Form u) :
    (Float.Model.pack u).unpack = u := by
  change UnpackedFloat.unpack .binary64 (UnpackedFloat.pack .binary64 u) = u
  cases h with
  | notANumber => rfl
  | infinity s => cases s <;> rfl
  | zero s => cases s <;> rfl
  | @finite s m e h he =>
    by_cases hfull : 2 ^ 52 ≤ m
    · exact unpack_pack_normal s h hfull he
    · obtain rfl : e = -1074 := h.full.resolve_left hfull
      exact unpack_pack_subnormal s h.pos (Nat.lt_of_not_le hfull)

theorem eq_of_toBitVec_eq {x y : Float.Model} (h : x.toBits.toBitVec = y.toBits.toBitVec) :
    x = y := by
  obtain ⟨⟨bits⟩, hx⟩ := x
  obtain ⟨⟨bits'⟩, hy⟩ := y
  obtain rfl : bits = bits' := h
  rfl

theorem exists_form_packComponents (s : Sign) (b : BitVec 11) (f : BitVec 52)
    (hnan : b = -1#11 → f ≠ 0#52 →
      packComponents .binary64 s b f = UnpackedFloat.pack .binary64 .notANumber) :
    ∃ u, Form u ∧ UnpackedFloat.pack .binary64 u = packComponents .binary64 s b f := by
  have hb : b.toNat < 2 ^ 11 := b.isLt
  have hf : f.toNat < 2 ^ 52 := f.isLt
  by_cases hinf : b = -1#11
  · by_cases hzero : f = 0#52
    · exact ⟨_, .infinity s, by rw [hinf, hzero]; rfl⟩
    · exact ⟨_, .notANumber, (hnan hinf hzero).symm⟩
  by_cases hsub : b = 0#11
  · by_cases hzero : f = 0#52
    · exact ⟨_, .zero s, by rw [hsub, hzero]; rfl⟩
    · have hpos := toNat_fraction_pos hzero
      refine ⟨_, .finite s (m := f.toNat) ⟨hpos, by omega, Int.le_refl _, .inr rfl⟩ (by omega), ?_⟩
      rw [pack_subnormal s hpos hf, BitVec.ofNat_toNat, BitVec.setWidth_eq, hsub]
  · have hinf' : b.toNat ≠ 2047 := fun h => hinf (BitVec.eq_of_toNat_eq h)
    have hsub' : b.toNat ≠ 0 := fun h => hsub (BitVec.eq_of_toNat_eq h)
    have hstored : IsStored (2 ^ 52 + f.toNat) (b.toNat - 1075) :=
      ⟨by omega, by omega, by omega, .inl (by omega)⟩
    refine ⟨_, .finite s hstored (by omega), ?_⟩
    have hbiased : ((b.toNat : Int) - 1075 + 1075).toNat = b.toNat := by omega
    have hfraction : BitVec.ofNat 52 (2 ^ 52 + f.toNat) = f := by
      refine BitVec.eq_of_toNat_eq ?_
      rw [BitVec.toNat_ofNat]
      omega
    rw [pack_normal s hstored.pos (Nat.le_add_right _ _) hstored.lt hstored.least (by omega),
      hbiased, hfraction, BitVec.ofNat_toNat, BitVec.setWidth_eq]

/-- Every double is packed from one of the forms. -/
theorem exists_form (x : Float.Model) : ∃ u, Form u ∧ Float.Model.pack u = x := by
  obtain ⟨⟨bits⟩, hvalid⟩ := x
  obtain ⟨s, b, f, rfl⟩ := exists_packComponents bits
  have hnan := hvalid.eq_packedNaN
  rw [unpackExponent_packComponents, unpackMantissa_packComponents] at hnan
  obtain ⟨u, hu, hpack⟩ := exists_form_packComponents s b f hnan
  exact ⟨u, hu, eq_of_toBitVec_eq hpack⟩

theorem form_unpack (x : Float.Model) : Form x.unpack := by
  obtain ⟨u, hu, rfl⟩ := exists_form x
  rwa [unpack_pack hu]

theorem pack_unpack (x : Float.Model) : Float.Model.pack x.unpack = x := by
  obtain ⟨u, hu, rfl⟩ := exists_form x
  rw [unpack_pack hu]

end CircuitPicture.Double
