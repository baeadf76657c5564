/-! # Numbers for coordinates

Coordinates are written once for every number type with exact quarters. The program computes in
double precision; rational numbers give the exact values that the doubles stand for. -/

namespace CircuitPicture

class Scalar (α : Type) extends Add α, Sub α, Mul α where
  ofNat : Nat → α
  /-- A count of quarters of a unit. -/
  quarters : Int → α

instance : Scalar Float where
  ofNat n := Float.ofNat n
  quarters k := Float.ofInt k * 0.25

instance : Scalar Rat where
  ofNat n := n
  quarters k := k / 4

end CircuitPicture
