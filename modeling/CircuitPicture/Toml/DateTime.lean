/-! # TOML dates and times

A date, a time of day, or both, the latter also with an offset. Seconds may be left out. -/

namespace CircuitPicture.Toml

def twoDigits? (a b : Char) : Option Nat :=
  if a.isDigit && b.isDigit then
    some (10 * (a.toNat - '0'.toNat) + (b.toNat - '0'.toNat))
  else none

def isUpTo (bound : Nat) (a b : Char) : Bool :=
  match twoDigits? a b with
  | some n => decide (n ≤ bound)
  | none => false

def isLeapYear (year : Nat) : Bool :=
  year % 4 == 0 && (year % 100 != 0 || year % 400 == 0)

def daysInMonth (year month : Nat) : Nat :=
  if month = 2 then if isLeapYear year then 29 else 28
  else if month = 4 ∨ month = 6 ∨ month = 9 ∨ month = 11 then 30
  else 31

/-- Whether the text is a date, `year-month-day`. -/
def isDate : List Char → Bool
  | [y₁, y₂, y₃, y₄, '-', m₁, m₂, '-', d₁, d₂] =>
    match twoDigits? y₁ y₂, twoDigits? y₃ y₄, twoDigits? m₁ m₂, twoDigits? d₁ d₂ with
    | some century, some year, some month, some day =>
      decide (1 ≤ month) && decide (month ≤ 12) && decide (1 ≤ day) &&
        decide (day ≤ daysInMonth (100 * century + year) month)
    | _, _, _, _ => false
  | _ => false

/-- What follows a fraction of a second, if there is one. -/
def afterFraction? : List Char → Option (List Char)
  | '.' :: rest =>
    if (rest.takeWhile Char.isDigit).isEmpty then none else some (rest.dropWhile Char.isDigit)
  | rest => some rest

/-- What follows the seconds, if there are any. -/
def afterSeconds? : List Char → Option (List Char)
  | ':' :: s₁ :: s₂ :: rest => if isUpTo 60 s₁ s₂ then afterFraction? rest else none
  | ':' :: _ => none
  | rest => some rest

/-- What follows a time of day. -/
def afterTime? : List Char → Option (List Char)
  | h₁ :: h₂ :: ':' :: m₁ :: m₂ :: rest =>
    if isUpTo 23 h₁ h₂ && isUpTo 59 m₁ m₂ then afterSeconds? rest else none
  | _ => none

def isOffset : List Char → Bool
  | [] => true
  | ['Z'] => true
  | ['z'] => true
  | [sign, h₁, h₂, ':', m₁, m₂] =>
    (sign == '+' || sign == '-') && isUpTo 23 h₁ h₂ && isUpTo 59 m₁ m₂
  | _ => false

def isDateTime (text : List Char) : Bool :=
  let date := text.take 10
  match text.drop 10 with
  | [] => isDate date || afterTime? text == some []
  | delimiter :: time =>
    if isDate date then
      (delimiter == 'T' || delimiter == 't' || delimiter == ' ') &&
        ((afterTime? time).map isOffset).getD false
    else afterTime? text == some []

end CircuitPicture.Toml
