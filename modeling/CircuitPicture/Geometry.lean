import CircuitPicture.Scalar

/-! # Points, sizes and bounds

Plane geometry of a picture: x grows to the right and y grows upwards. -/

namespace CircuitPicture

structure Point (α : Type) where
  x : α
  y : α
deriving BEq, DecidableEq, Repr

instance {α : Type} [Add α] : Add (Point α) where
  add p q := ⟨p.x + q.x, p.y + q.y⟩

structure Size (α : Type) where
  width : α
  height : α
deriving DecidableEq, Repr

/-- The rectangle from its bottom left corner `low` to its top right corner `high`. -/
structure Bounds (α : Type) where
  low : Point α
  high : Point α
deriving DecidableEq, Repr

namespace Bounds

variable {α : Type}

def ofBottomLeft [Add α] (origin : Point α) (size : Size α) : Bounds α :=
  ⟨origin, origin + ⟨size.width, size.height⟩⟩

def width [Sub α] (b : Bounds α) : α := b.high.x - b.low.x

def height [Sub α] (b : Bounds α) : α := b.high.y - b.low.y

/-- Whether a point lies in the rectangle, its edges included. -/
def contains [LE α] [DecidableLE α] (b : Bounds α) (p : Point α) : Bool :=
  decide (b.low.x ≤ p.x) && decide (p.x ≤ b.high.x) &&
    decide (b.low.y ≤ p.y) && decide (p.y ≤ b.high.y)

end Bounds

end CircuitPicture
