import CircuitPicture.Decimal.Binary64
import CircuitPicture.Decimal.Shortest

/-! # Numbers as text

Numbers are written positionally, never with an exponent. A plain number has its shortest digits
(`plainText`). A coordinate keeps one decimal place if it is whole, and its integer part is then
exact (`coordinateText`). -/

namespace CircuitPicture

namespace Decimal

def digitsText (n : Nat) : List Char := Nat.toDigits 10 n

/-- A row of digits with a point in front of its last `places` digits. -/
def withPoint (digits : List Char) (places : Nat) : List Char :=
  let padded := List.replicate (places + 1 - digits.length) '0' ++ digits
  padded.take (padded.length - places) ++ '.' :: padded.drop (padded.length - places)

/-- The number `digits * 10 ^ exponent`. -/
def positional (digits : Nat) (exponent : Int) : List Char :=
  if 0 ≤ exponent then digitsText digits ++ List.replicate exponent.toNat '0'
  else withPoint (digitsText digits) (-exponent).toNat

def shortestText (m : Nat) (q : Int) : List Char :=
  if m = 0 then ['0']
  else
    let (digits, exponent) := Shortest.decimal m q
    positional digits exponent

/-- The value of `m * 2 ^ q` if that is a natural number. -/
def whole? (m : Nat) (q : Int) : Option Nat :=
  if 0 ≤ q then some (m <<< q.toNat)
  else if m % 1 <<< (-q).toNat = 0 then some (m >>> (-q).toNat)
  else none

/-- A whole number has one decimal place; any other has its shortest digits. -/
def exactText (m : Nat) (q : Int) : List Char :=
  match whole? m q with
  | some n => digitsText n ++ ['.', '0']
  | none => shortestText m q

def signed (negative : Bool) (text : List Char) : String :=
  String.ofList (if negative then '-' :: text else text)

/-- The text of a double whose finite magnitudes are written by `finite`. -/
def textOf (finite : Nat → Int → List Char) : Binary64 → String
  | .nan => "NaN"
  | .infinite negative => signed negative ['i', 'n', 'f']
  | .finite negative m q => signed negative (finite m q)

/-- A number as it stands in running text. -/
def plainText (x : Float) : String := textOf shortestText (.ofFloat x)

/-- A number as picture commands expect it. -/
def coordinateText (x : Float) : String := textOf exactText (.ofFloat x)

end Decimal

end CircuitPicture
