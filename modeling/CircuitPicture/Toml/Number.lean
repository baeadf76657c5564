import CircuitPicture.Toml.Value

/-! # TOML numbers

Digits may be grouped by single underscores. Whether a text counts as a number is decided by its
shape; an integer can then be read if it has digits of its base only and fits into 128 bits, and a
float if it is in the range of doubles. -/

namespace CircuitPicture.Toml

/-- Whether each underscore stands between two characters of a class. -/
def isGrouped (p : Char → Bool) : List Char → Bool
  | [] => true
  | '_' :: _ => false
  | c :: '_' :: rest => p c && rest.head?.any p && isGrouped p rest
  | _ :: rest => isGrouped p rest

def withoutUnderscores (text : List Char) : List Char := text.filter fun c => c != '_'

def isHexDigit (c : Char) : Bool :=
  c.isDigit || (decide ('a' ≤ c.toLower) && decide (c.toLower ≤ 'f'))

def digitValue (c : Char) : Nat :=
  if c.isDigit then c.toNat - '0'.toNat else c.toLower.toNat - 'a'.toNat + 10

def isDigitOf (base : Nat) (c : Char) : Bool := isHexDigit c && decide (digitValue c < base)

/-- The number that digits stand for in a base. -/
def digitsValue (base : Nat) (digits : List Char) : Nat :=
  digits.foldl (fun n d => base * n + digitValue d) 0

/-- The integer that digits stand for in a base; it has to fit into 128 bits with or without a
sign. -/
def readInteger? (base : Nat) (negative : Bool) (digits : List Char) : Option Int :=
  let magnitude := digitsValue base digits
  let fits := if negative then decide (magnitude ≤ 1 <<< 127) else decide (magnitude < 1 <<< 128)
  if !digits.isEmpty && digits.all (isDigitOf base) && fits then
    some (if negative then -magnitude else magnitude)
  else none

/-- An integer with the mark of its base in front of it, given what follows the mark. -/
def basedInteger? (base : Nat) (text : List Char) : Option Value :=
  if isGrouped isHexDigit text && text.all (fun c => c == '_' || isDigitOf base c) then
    some (.integer (readInteger? base false (withoutUnderscores text)))
  else none

/-- Whether `digits * 10 ^ exponent` is too large for a double. -/
def overflows (digits : Nat) (exponent : Int) : Bool :=
  let size := (Nat.toDigits 10 digits).length + exponent
  let bound := 1 <<< 1024 - 1 <<< 970
  if digits = 0 then false
  else if 310 < size then true
  else if size < 300 then false
  else if 0 ≤ exponent then decide (bound ≤ digits * Nat.pow 10 exponent.toNat)
  else decide (bound * Nat.pow 10 (-exponent).toNat ≤ digits)

def isGroupChar (c : Char) : Bool := c.isDigit || c == '_'

/-- The digits at the front of a text, of which there has to be one, and what follows them. -/
def leadingDigits? (text : List Char) : Option (List Char × List Char) :=
  let digits := withoutUnderscores (text.takeWhile isGroupChar)
  if digits.isEmpty then none else some (digits, text.dropWhile isGroupChar)

/-- The digits after the point, if there is one, and what follows them. -/
def fraction? : List Char → Option (List Char × List Char)
  | '.' :: text => leadingDigits? text
  | text => some ([], text)

/-- The value of an exponent, if there is one, and what follows it. -/
def exponent? : List Char → Option (Int × List Char)
  | e :: text =>
    if e == 'e' || e == 'E' then do
      let negative := text.head? == some '-'
      let (digits, rest) ←
        leadingDigits? (if negative || text.head? == some '+' then text.drop 1 else text)
      let magnitude : Int := digitsValue 10 digits
      return (if negative then -magnitude else magnitude, rest)
    else some (0, e :: text)
  | [] => some (0, [])

/-- Whether a text without its sign, which has the shape of a float, is in the range of doubles. -/
def floatInRange? (text : List Char) : Option Bool := do
  let (whole, rest) ← leadingDigits? text
  let (fraction, rest) ← fraction? rest
  let (exponent, rest) ← exponent? rest
  if rest.isEmpty && (whole.length == 1 || text.head? != some '0') then
    return !overflows (digitsValue 10 (whole ++ fraction)) (exponent - fraction.length)
  else none

/-- A decimal number, given its sign and what follows. -/
def decimal? (sign text : List Char) : Option Value :=
  let rest := text.dropWhile Char.isDigit
  if rest.contains ' ' then none
  else if rest.any fun c => c == '.' || c == 'e' || c == 'E' then
    if isGrouped Char.isDigit text then
      (floatInRange? text).map (.float (String.ofList (sign ++ text)))
    else none
  else if rest.isEmpty || rest.head? == some '_' then
    if isGrouped isHexDigit text && (text.length == 1 || text.head? != some '0') then
      some (.integer (readInteger? 10 (sign == ['-']) (withoutUnderscores text)))
    else none
  else none

/-- A float that is no finite number, without its sign. -/
def special? (sign text : List Char) : Option Value :=
  if text == ['i', 'n', 'f'] || text == ['n', 'a', 'n'] then
    some (.float (String.ofList (sign ++ text)) true)
  else none

def number? : List Char → Option Value
  | [] => none
  | '0' :: 'x' :: text => basedInteger? 16 text
  | '0' :: 'o' :: text => basedInteger? 8 text
  | '0' :: 'b' :: text => basedInteger? 2 text
  | '+' :: text => signed? '+' text
  | '-' :: text => signed? '-' text
  | text => (special? [] text).or (decimal? [] text)
where
  signed? (sign : Char) : List Char → Option Value
    | [] => none
    | text => (special? [sign] text).or (decimal? [sign] text)

end CircuitPicture.Toml
