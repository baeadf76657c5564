import CircuitPicture.Proofs.DoubleRounding

/-! # Arithmetic of doubles

What holds of all doubles, down to the bit: subtracting zero changes nothing, adding zero changes
only the negative zero, and sums and differences that start from another number never are the
negative zero. Quarters of integers below `2 ^ 53` are added and multiplied without rounding. -/

namespace CircuitPicture.Double

open Float.Model
open Float.Model.UnpackedFloat (Sign roundWithAccuracy)

def parts (x : Float) : UnpackedFloat := x.toModel.unpack

/-- The double that consists of these parts. -/
def ofParts (u : UnpackedFloat) : Float := .ofModel (.pack u)

def negativeZero : Float := ofParts (.zero .negative)

theorem ofParts_parts (x : Float) : ofParts (parts x) = x := by
  rw [ofParts, parts, pack_unpack]

theorem parts_ofParts {u : UnpackedFloat} (h : Form u) : parts (ofParts u) = u := unpack_pack h

theorem form_parts (x : Float) : Form (parts x) := form_unpack x.toModel

theorem add_eq (x y : Float) : x + y = ofParts (.add .binary64 (parts x) (parts y)) := rfl

theorem sub_eq (x y : Float) : x - y = ofParts (.sub .binary64 (parts x) (parts y)) := rfl

theorem mul_eq (x y : Float) : x * y = ofParts (.mul .binary64 (parts x) (parts y)) := rfl

theorem parts_zero : parts 0 = .zero .positive := rfl

theorem parts_negativeZero : parts negativeZero = .zero .negative := parts_ofParts (.zero .negative)

theorem ne_negativeZero_iff {x : Float} : x ≠ negativeZero ↔ parts x ≠ .zero .negative := by
  constructor
  · intro h hparts
    exact h (by rw [← ofParts_parts x, hparts, negativeZero])
  · rintro h rfl
    exact h parts_negativeZero

theorem parts_sub_zero (u : UnpackedFloat) : u.sub .binary64 (.zero .positive) = u := by
  cases u with
  | notANumber => rfl
  | infinity s => rfl
  | zero s => cases s <;> rfl
  | finite s m e hm => rfl

theorem parts_add_zero {u : UnpackedFloat} (h : u ≠ .zero .negative) :
    u.add .binary64 (.zero .positive) = u ∧
      UnpackedFloat.add .binary64 (.zero .positive) u = u := by
  cases u with
  | notANumber => exact ⟨rfl, rfl⟩
  | infinity s => exact ⟨rfl, rfl⟩
  | zero s =>
    cases s with
    | negative => exact absurd rfl h
    | positive => exact ⟨rfl, rfl⟩
  | finite s m e hm => exact ⟨rfl, rfl⟩

/-- The double next to `n * 2 ^ e`, by its parts. -/
def rounded (n e : Int) : UnpackedFloat := .normalize .binary64 n e .positive

/-- Finite numbers are brought to the smaller exponent and their mantissas are added. -/
theorem add_finite (s t : Sign) {m n : Nat} {e f : Int} (hm : 0 < m) (hn : 0 < n) :
    UnpackedFloat.add .binary64 (.finite s m e hm) (.finite t n f hn) =
      rounded (s.apply (m <<< (e - min e f).toNat : Nat) +
        t.apply (n <<< (f - min e f).toNat : Nat)) (min e f) := rfl

theorem mul_finite (s t : Sign) {m n : Nat} {e f : Int} (hm : 0 < m) (hn : 0 < n) :
    UnpackedFloat.mul .binary64 (.finite s m e hm) (.finite t n f hn) =
      roundWithAccuracy .binary64 (s * t) (m * n) (e + f) .exact := rfl

theorem sign_mul_comm (s t : Sign) : s * t = t * s := by
  cases s <;> cases t <;> rfl

theorem parts_mul_comm (u v : UnpackedFloat) : u.mul .binary64 v = v.mul .binary64 u := by
  cases u with
  | notANumber => cases v <;> rfl
  | infinity s =>
    cases v with
    | notANumber => rfl
    | infinity t => exact congrArg UnpackedFloat.infinity (sign_mul_comm s t)
    | zero t => rfl
    | finite t n f hn => exact congrArg UnpackedFloat.infinity (sign_mul_comm s t)
  | zero s =>
    cases v with
    | notANumber => rfl
    | infinity t => rfl
    | zero t => exact congrArg UnpackedFloat.zero (sign_mul_comm s t)
    | finite t n f hn => exact congrArg UnpackedFloat.zero (sign_mul_comm s t)
  | finite s m e hm =>
    cases v with
    | notANumber => rfl
    | infinity t => exact congrArg UnpackedFloat.infinity (sign_mul_comm s t)
    | zero t => exact congrArg UnpackedFloat.zero (sign_mul_comm s t)
    | finite t n f hn =>
      rw [mul_finite, mul_finite, sign_mul_comm, Nat.mul_comm, Int.add_comm]

theorem parts_add_comm (u v : UnpackedFloat) : u.add .binary64 v = v.add .binary64 u := by
  cases u with
  | notANumber => cases v <;> rfl
  | infinity s =>
    cases v with
    | infinity t => cases s <;> cases t <;> rfl
    | _ => rfl
  | zero s =>
    cases v with
    | zero t => cases s <;> cases t <;> rfl
    | _ => rfl
  | finite s m e hm =>
    cases v with
    | finite t n f hn =>
      rw [add_finite, add_finite, Int.add_comm, Int.min_comm]
    | _ => rfl

theorem sub_zero (x : Float) : x - 0 = x := by
  rw [sub_eq, parts_zero, parts_sub_zero, ofParts_parts]

theorem add_zero {x : Float} (h : x ≠ negativeZero) : x + 0 = x := by
  rw [add_eq, parts_zero, (parts_add_zero (ne_negativeZero_iff.1 h)).1, ofParts_parts]

theorem zero_add {x : Float} (h : x ≠ negativeZero) : 0 + x = x := by
  rw [add_eq, parts_zero, (parts_add_zero (ne_negativeZero_iff.1 h)).2, ofParts_parts]

theorem add_comm (x y : Float) : x + y = y + x := by
  rw [add_eq, add_eq, parts_add_comm]

theorem mul_comm (x y : Float) : x * y = y * x := by
  rw [mul_eq, mul_eq, parts_mul_comm]

def signOf (n : Int) : Sign := if n < 0 then .negative else .positive

theorem rounded_eq {n : Int} (hn : n ≠ 0) (e : Int) :
    rounded n e = UnpackedFloat.round .binary64 (signOf n) n.natAbs e := by
  rw [rounded, UnpackedFloat.normalize, signOf]
  rcases Int.lt_trichotomy n 0 with hneg | hzero | hpos
  · have habs : (-n).toNat = n.natAbs := by omega
    simp only [Int.compare_eq_lt.2 hneg, if_pos hneg, habs]
  · exact absurd hzero hn
  · have habs : n.toNat = n.natAbs := by omega
    simp only [Int.compare_eq_gt.2 hpos, if_neg (show ¬ n < 0 by omega), habs]

theorem ofParts_ne_negativeZero {m : Nat} {e : Int} (s : Sign) (h : IsStored m e) :
    ofParts (.finite s m e h.pos) ≠ negativeZero := by
  rw [ne_negativeZero_iff]
  by_cases he : e ≤ 971
  · rw [parts_ofParts (.finite s h he)]
    exact UnpackedFloat.noConfusion
  -- The number is too great for a double, and an infinity stands for it.
  · have hpack : Float.Model.pack (.finite s m e h.pos) = Float.Model.pack (.infinity s) :=
      eq_of_toBitVec_eq (pack_overflow s h.pos (Int.lt_of_not_ge he))
    rw [ofParts, hpack, ← ofParts, parts_ofParts (.infinity s)]
    exact UnpackedFloat.noConfusion

theorem rounded_ne_negativeZero (n : Int) {e : Int} (he : -1074 ≤ e) :
    ofParts (rounded n e) ≠ negativeZero := by
  by_cases hn : n = 0
  · have hzero : ofParts (rounded 0 e) = 0 := rfl
    rw [hn, hzero, ne_negativeZero_iff, parts_zero]
    exact fun h => Sign.noConfusion (UnpackedFloat.zero.inj h)
  · obtain ⟨M, E, h, hround⟩ := exists_round (signOf n) (Int.natAbs_pos.2 hn) he
    rw [rounded_eq hn, hround]
    exact ofParts_ne_negativeZero _ h

theorem parts_infinity_add (s : Sign) (v : UnpackedFloat) :
    UnpackedFloat.add .binary64 (.infinity s) v = .infinity s ∨
      UnpackedFloat.add .binary64 (.infinity s) v = .notANumber := by
  cases v with
  | notANumber => exact .inr rfl
  | infinity t =>
    by_cases h : s == t
    · exact .inl (if_pos h)
    · exact .inr (if_neg h)
  | zero t => exact .inl rfl
  | finite t m e hm => exact .inl rfl

/-- A sum is one of its terms, or it is special, or it is rounded from the sum of two mantissas. -/
theorem parts_add_cases {u v : UnpackedFloat} (hu : Form u) (hv : Form v)
    (hne : u ≠ .zero .negative) :
    (Form (u.add .binary64 v) ∧ u.add .binary64 v ≠ .zero .negative) ∨
      ∃ k e : Int, -1074 ≤ e ∧ u.add .binary64 v = rounded k e := by
  by_cases hvzero : v = .zero .positive
  · rw [hvzero, (parts_add_zero hne).1]
    exact .inl ⟨hu, hne⟩
  cases hu with
  | notANumber => exact .inl ⟨.notANumber, UnpackedFloat.noConfusion⟩
  | infinity s =>
    rcases parts_infinity_add s v with h | h <;> rw [h]
    · exact .inl ⟨.infinity s, UnpackedFloat.noConfusion⟩
    · exact .inl ⟨.notANumber, UnpackedFloat.noConfusion⟩
  | zero s =>
    cases s with
    | negative => exact absurd rfl hne
    | positive =>
      by_cases hvneg : v = .zero .negative
      · rw [hvneg]
        exact .inl ⟨.zero .positive, hne⟩
      · rw [(parts_add_zero hvneg).2]
        exact .inl ⟨hv, hvneg⟩
  | finite s h he =>
    cases hv with
    | notANumber => exact .inl ⟨.notANumber, UnpackedFloat.noConfusion⟩
    | infinity t => exact .inl ⟨.infinity t, UnpackedFloat.noConfusion⟩
    | zero t => exact .inl ⟨.finite s h he, UnpackedFloat.noConfusion⟩
    | finite t h' he' => exact .inr ⟨_, _, Int.le_min.2 ⟨h.least, h'.least⟩, rfl⟩

theorem ofParts_add_ne_negativeZero {u v : UnpackedFloat} (hu : Form u) (hv : Form v)
    (h : u ≠ .zero .negative) : ofParts (u.add .binary64 v) ≠ negativeZero := by
  rcases parts_add_cases hu hv h with ⟨hform, hne⟩ | ⟨k, e, he, hround⟩
  · rw [ne_negativeZero_iff, parts_ofParts hform]
    exact hne
  · rw [hround]
    exact rounded_ne_negativeZero k he

/-- A sum is the negative zero only if both of its terms are. -/
theorem add_ne_negativeZero {x : Float} (h : x ≠ negativeZero) (y : Float) :
    x + y ≠ negativeZero :=
  ofParts_add_ne_negativeZero (form_parts x) (form_parts y) (ne_negativeZero_iff.1 h)

theorem form_neg {u : UnpackedFloat} (h : Form u) : Form u.neg := by
  cases h with
  | notANumber => exact .notANumber
  | infinity s => exact .infinity _
  | zero s => exact .zero _
  | finite s h he => exact .finite _ h he

theorem parts_sub_eq (u v : UnpackedFloat) : u.sub .binary64 v = u.add .binary64 v.neg := by
  cases u with
  | finite s m e hm =>
    cases v with
    | finite t n f hn =>
      cases t with
      | negative => exact congrArg (fun k => rounded k (min e f)) (Int.sub_neg _ _)
      | positive => rfl
    | _ => rfl
  | _ => cases v <;> rfl

theorem sub_ne_negativeZero {x : Float} (h : x ≠ negativeZero) (y : Float) :
    x - y ≠ negativeZero := by
  rw [sub_eq, parts_sub_eq]
  exact ofParts_add_ne_negativeZero (form_parts x) (form_neg (form_parts y))
    (ne_negativeZero_iff.1 h)

end CircuitPicture.Double
