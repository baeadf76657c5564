/-! # Shortest decimals

Of the decimals that read back as a given double the shortest one is written, of several such the
nearest, and of two equally near ones the greater. The search runs over decimal grids: the coarsest
grid `10 ^ k` with a point among the numbers that round to the double has the answer, next to the
double. -/

namespace CircuitPicture

namespace Shortest

/-- The integers around a double that round to it. -/
structure Interval where
  low : Nat
  value : Nat
  high : Nat
  closed : Bool
deriving DecidableEq, Repr

namespace Interval

def contains (i : Interval) (n : Nat) : Bool :=
  if i.closed then decide (i.low ≤ n) && decide (n ≤ i.high)
  else decide (i.low < n) && decide (n < i.high)

/-- The point of the grid `grid` that stands for the interval, in units of the grid. -/
def onGrid? (i : Interval) (grid : Nat) : Option Nat :=
  let below := i.value / grid
  let above := below + 1
  match i.contains (below * grid), i.contains (above * grid) with
  | true, true =>
    if i.value - below * grid < above * grid - i.value then some below else some above
  | true, false => some below
  | false, true => some above
  | false, false => none

/-- The digits and the exponent of the point on the coarsest grid, no coarser than `10 ^ k`. -/
def coarsest (i : Interval) : Nat → Nat × Nat
  | 0 => (i.value, 0)
  | k + 1 =>
    match i.onGrid? (Nat.pow 10 (k + 1)) with
    | some digits => (digits, k + 1)
    | none => i.coarsest k

def scale (i : Interval) (n : Nat) : Interval :=
  ⟨i.low * n, i.value * n, i.high * n, i.closed⟩

end Interval

/-- The interval of `m * 2 ^ q` in units of `2 ^ (q - 2)`. The gap below a power of two is half as
wide as the gap above it. -/
def interval (m : Nat) : Interval where
  low := if m = 1 <<< 52 then 4 * m - 1 else 4 * m - 2
  value := 4 * m
  high := 4 * m + 2
  closed := m % 2 == 0

/-- The digits and the exponent of ten of the shortest decimal for `m * 2 ^ q`. -/
def decimal (m : Nat) (q : Int) : Nat × Int :=
  let places := (2 - q).toNat
  let i := (interval m).scale (if 2 ≤ q then 1 <<< (q - 2).toNat else Nat.pow 5 places)
  let (digits, k) := i.coarsest (Nat.toDigits 10 i.high).length
  (digits, (k : Int) - places)

end Shortest

end CircuitPicture
