import CircuitPicture.Decimal.Text

/-! # The form of numbers

The text of a double is a word if the double is no finite number. Any other has digits, perhaps with
a point between two of them, and a sign in front if it is negative (`isNumber_coordinateText`). -/

namespace CircuitPicture.Decimal

structure IsDigits (text : List Char) : Prop where
  ne_nil : text ≠ []
  isDigit : ∀ c ∈ text, c.isDigit = true

inductive IsNumeral : List Char → Prop
  | whole {digits : List Char} (h : IsDigits digits) : IsNumeral digits
  | point {digits places : List Char} (hdigits : IsDigits digits) (hplaces : IsDigits places) :
      IsNumeral (digits ++ '.' :: places)

inductive IsNumber : String → Prop
  | nan : IsNumber "NaN"
  | infinite (negative : Bool) : IsNumber (signed negative ['i', 'n', 'f'])
  | finite (negative : Bool) {text : List Char} (h : IsNumeral text) :
      IsNumber (signed negative text)

theorem isDigits_digitsText (n : Nat) : IsDigits (digitsText n) where
  ne_nil := Nat.toDigits_ne_nil
  isDigit _ := Nat.isDigit_of_mem_toDigits (by decide) (by decide)

theorem isDigit_of_mem_zeros {n : Nat} {c : Char} (hc : c ∈ List.replicate n '0') :
    c.isDigit = true := by
  rw [List.eq_of_mem_replicate hc]
  decide

theorem isDigits_zero : IsDigits ['0'] where
  ne_nil := List.cons_ne_nil _ _
  isDigit _ hc := isDigit_of_mem_zeros (n := 1) hc

theorem IsDigits.append_zeros {digits : List Char} (h : IsDigits digits) (n : Nat) :
    IsDigits (digits ++ List.replicate n '0') where
  ne_nil := List.append_ne_nil_of_left_ne_nil h.ne_nil _
  isDigit c hc := (List.mem_append.1 hc).elim (h.isDigit c) isDigit_of_mem_zeros

/-- The zeros in front of the digits leave one of them before the point. -/
theorem isNumeral_withPoint {digits : List Char} (h : IsDigits digits) {places : Nat}
    (hplaces : 0 < places) : IsNumeral (withPoint digits places) := by
  rw [withPoint]
  generalize hpadded : List.replicate (places + 1 - digits.length) '0' ++ digits = padded
  have hlength : places < padded.length := by
    rw [← hpadded, List.length_append, List.length_replicate]
    omega
  have hdigit : ∀ c ∈ padded, c.isDigit = true := by
    intro c hc
    rw [← hpadded] at hc
    exact (List.mem_append.1 hc).elim isDigit_of_mem_zeros (h.isDigit c)
  refine .point ⟨?_, fun c hc => hdigit c (List.mem_of_mem_take hc)⟩
    ⟨?_, fun c hc => hdigit c (List.mem_of_mem_drop hc)⟩
  · rw [← List.length_pos_iff, List.length_take]
    omega
  · rw [← List.length_pos_iff, List.length_drop]
    omega

theorem isNumeral_positional (digits : Nat) (exponent : Int) :
    IsNumeral (positional digits exponent) := by
  rw [positional]
  split
  · exact .whole ((isDigits_digitsText digits).append_zeros exponent.toNat)
  · exact isNumeral_withPoint (isDigits_digitsText digits) (by omega)

theorem isNumeral_shortestText (m : Nat) (q : Int) : IsNumeral (shortestText m q) := by
  rw [shortestText]
  split
  · exact .whole isDigits_zero
  · exact isNumeral_positional _ _

theorem isNumeral_exactText (m : Nat) (q : Int) : IsNumeral (exactText m q) := by
  rw [exactText]
  split
  · exact .point (isDigits_digitsText _) isDigits_zero
  · exact isNumeral_shortestText m q

theorem isNumber_textOf {finite : Nat → Int → List Char}
    (hfinite : ∀ m q, IsNumeral (finite m q)) (x : Binary64) : IsNumber (textOf finite x) := by
  cases x with
  | nan => exact .nan
  | infinite negative => exact .infinite negative
  | finite negative m q => exact .finite negative (hfinite m q)

theorem isNumber_coordinateText (x : Float) : IsNumber (coordinateText x) :=
  isNumber_textOf isNumeral_exactText (.ofFloat x)

theorem IsNumeral.mem {text : List Char} (h : IsNumeral text) {c : Char} (hc : c ∈ text) :
    c.isDigit = true ∨ c = '.' := by
  cases h with
  | whole h => exact .inl (h.isDigit c hc)
  | point hdigits hplaces =>
    obtain hc | rfl | hc := List.mem_append.1 hc |>.imp_right List.mem_cons.1
    · exact .inl (hdigits.isDigit c hc)
    · exact .inr rfl
    · exact .inl (hplaces.isDigit c hc)

/-- Nothing in a number is a mark of a command or ends a line. -/
theorem IsNumber.mem {text : String} (h : IsNumber text) {c : Char} (hc : c ∈ text.toList) :
    c.isAlphanum = true ∨ c = '.' ∨ c = '-' := by
  have hsigned {negative : Bool} {body : List Char}
      (hbody : ∀ d ∈ body, d.isAlphanum = true ∨ d = '.')
      (hc : c ∈ (signed negative body).toList) : c.isAlphanum = true ∨ c = '.' ∨ c = '-' := by
    rw [signed, String.toList_ofList] at hc
    cases negative with
    | false => exact (hbody c hc).imp_right .inl
    | true =>
      obtain rfl | hc := List.mem_cons.1 hc
      · exact .inr (.inr rfl)
      · exact (hbody c hc).imp_right .inl
  cases h with
  | nan =>
    have hword : "NaN".toList.all Char.isAlphanum = true := by decide
    exact .inl (List.all_eq_true.1 hword c hc)
  | infinite negative =>
    have hword : ['i', 'n', 'f'].all Char.isAlphanum = true := by decide
    exact hsigned (fun d hd => .inl (List.all_eq_true.1 hword d hd)) hc
  | finite negative hnumeral =>
    have hdigit {d : Char} (hd : d.isDigit = true) : d.isAlphanum = true := by
      simp [Char.isAlphanum, hd]
    exact hsigned (fun d hd => (hnumeral.mem hd).imp_left hdigit) hc

end CircuitPicture.Decimal
