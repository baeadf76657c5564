import CircuitPicture.Proofs.NumberTexts
import Mathlib.Algebra.Order.Ring.Rat

/-! # Reading decimals

A digit more behind the point is one digit more of the number without the point (`withPoint_digit`).
Digits with a point between them are read as one number (`read?`). -/

namespace CircuitPicture.Decimal

theorem digitsText_digit {n d : Nat} (hn : 0 < n) (hd : d < 10) :
    digitsText (10 * n + d) = digitsText n ++ [d.digitChar] := by
  rw [digitsText, digitsText, ← Nat.toDigits_append_toDigits (by decide) hn hd,
    Nat.toDigits_of_lt_base hd]

theorem IsDigits.head?_append {digits : List Char} (h : IsDigits digits) (rest : List Char) :
    (digits ++ rest).head? = digits.head? := by
  rw [List.head?_append, List.head?_eq_some_head h.ne_nil, Option.some_or]

/-- Only zero begins with a zero. -/
theorem head?_digitsText {n : Nat} (h : (digitsText n).head? = some '0') : n = 0 := by
  induction n using Nat.strong_induction_on with
  | _ n ih =>
    by_cases hdigit : n < 10
    · have hzero : ∀ d < 10, Nat.digitChar d = '0' → d = 0 := by decide
      rw [digitsText, Nat.toDigits_of_lt_base hdigit, List.head?_cons] at h
      exact hzero n hdigit (Option.some.inj h)
    · have hsplit : n = 10 * (n / 10) + n % 10 := by omega
      rw [hsplit, digitsText_digit (by omega) (by omega),
        (isDigits_digitsText (n / 10)).head?_append] at h
      have hprefix : n / 10 = 0 := ih (n / 10) (by omega) h
      omega

theorem withPoint_zero (n : Nat) : withPoint (digitsText n) 0 = digitsText n ++ ['.'] := by
  have hlength : 0 < (digitsText n).length :=
    List.length_pos_iff.2 (isDigits_digitsText n).ne_nil
  have hpadded : List.replicate (0 + 1 - (digitsText n).length) '0' ++ digitsText n =
      digitsText n := by
    rw [Nat.sub_eq_zero_of_le hlength, List.replicate_zero, List.nil_append]
  rw [withPoint, hpadded, Nat.sub_zero, List.take_length, List.drop_length]

theorem padded_digit (n places : Nat) {d : Nat} (hd : d < 10) :
    List.replicate (places + 1 + 1 - (digitsText (10 * n + d)).length) '0' ++
        digitsText (10 * n + d) =
      List.replicate (places + 1 - (digitsText n).length) '0' ++ digitsText n ++
        [d.digitChar] := by
  rcases Nat.eq_zero_or_pos n with rfl | hn
  -- the digit is all that is written, with one zero more in front instead of the digit `0`
  · have hone : digitsText d = [d.digitChar] := Nat.toDigits_of_lt_base hd
    have hzero : digitsText 0 = ['0'] := rfl
    rw [Nat.mul_zero, Nat.zero_add, hone, hzero, List.length_singleton, List.length_singleton,
      Nat.add_sub_cancel, Nat.add_sub_cancel, ← List.replicate_succ']
  · rw [digitsText_digit hn hd, List.length_append, List.length_singleton, Nat.add_sub_add_right,
      List.append_assoc]

theorem withPoint_digit (n places : Nat) {d : Nat} (hd : d < 10) :
    withPoint (digitsText (10 * n + d)) (places + 1) =
      withPoint (digitsText n) places ++ [d.digitChar] := by
  rw [withPoint, withPoint, padded_digit n places hd]
  generalize List.replicate (places + 1 - (digitsText n).length) '0' ++ digitsText n = padded
  have hlength : (padded ++ [d.digitChar]).length - (places + 1) = padded.length - places := by
    rw [List.length_append, List.length_singleton, Nat.add_sub_add_right]
  rw [hlength, List.take_append_of_le_length (Nat.sub_le _ _),
    List.drop_append_of_le_length (Nat.sub_le _ _), List.append_assoc, List.cons_append]

/-- The number that digits with a point between them stand for. There is no exponent to be read. -/
def read? (text : String) : Option Rat :=
  let whole := text.toList.takeWhile Char.isDigit
  match text.toList.dropWhile Char.isDigit with
  | '.' :: places =>
    if whole ≠ [] ∧ places ≠ [] ∧ places.all Char.isDigit then
      some (Nat.ofDigitChars 10 (whole ++ places) 0 / 10 ^ places.length)
    else none
  | _ => none

theorem read?_eq {whole places : List Char} (hwhole : IsDigits whole) (hplaces : IsDigits places) :
    read? (String.ofList (whole ++ '.' :: places)) =
      some (Nat.ofDigitChars 10 (whole ++ places) 0 / 10 ^ places.length : Rat) := by
  have htake : (whole ++ '.' :: places).takeWhile Char.isDigit = whole := by
    rw [List.takeWhile_append_of_pos hwhole.isDigit, List.takeWhile_cons_of_neg (by decide),
      List.append_nil]
  have hdrop : (whole ++ '.' :: places).dropWhile Char.isDigit = '.' :: places := by
    rw [List.dropWhile_append_of_pos hwhole.isDigit, List.dropWhile_cons_of_neg (by decide)]
  rw [read?, String.toList_ofList, htake, hdrop]
  exact if_pos ⟨hwhole.ne_nil, hplaces.ne_nil, List.all_eq_true.2 hplaces.isDigit⟩

/-- The digits of a natural number, read together with places behind the point. -/
theorem ofDigitChars_digitsText (n : Nat) (places : List Char) :
    Nat.ofDigitChars 10 (digitsText n ++ places) 0 = Nat.ofDigitChars 10 places n := by
  rw [Nat.ofDigitChars_append, digitsText, Nat.ofDigitChars_toDigits (by decide) (by decide)]

end CircuitPicture.Decimal
