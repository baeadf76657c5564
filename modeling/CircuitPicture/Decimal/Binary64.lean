/-! # Doubles, taken apart

A finite double is a sign and a natural number times a power of two. -/

namespace CircuitPicture

inductive Binary64 where
  | nan
  | infinite (negative : Bool)
  /-- The number `mantissa * 2 ^ exponent`, or its negative. -/
  | finite (negative : Bool) (mantissa : Nat) (exponent : Int)
deriving DecidableEq, Repr

namespace Binary64

/-- The number whose sign bit is `negative`, with `biased` in its exponent bits and `fraction` in
the bits after them. -/
def ofFields (negative : Bool) (biased fraction : Nat) : Binary64 :=
  if biased = 2047 then
    if fraction = 0 then infinite negative else nan
  else if biased = 0 then finite negative fraction (-1074)
  else finite negative (1 <<< 52 + fraction) ((biased : Int) - 1075)

def ofBits (bits : UInt64) : Binary64 :=
  ofFields (decide (1 <<< 63 ≤ bits.toNat)) (bits.toNat >>> 52 % 1 <<< 11) (bits.toNat % 1 <<< 52)

def ofFloat (x : Float) : Binary64 := ofBits x.toBits

end Binary64

end CircuitPicture
