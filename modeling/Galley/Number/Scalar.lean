/-!
The arithmetic that geometry needs, so that the same formulas hold for doubles and for exact
fractions.
-/
namespace Galley

class Scalar (α : Type) extends Add α, Sub α, Mul α, Div α, Neg α where
  ofInt : Int → α
  le : α → α → Bool
  same : α → α → Bool

namespace Scalar
variable {α : Type} [Scalar α]

def zero : α := ofInt 0

def one : α := ofInt 1

def two : α := ofInt 2

def half : α := one / two

def abs (x : α) : α := if le zero x then x else -x

def min (x y : α) : α := if le x y then x else y

def max (x y : α) : α := if le x y then y else x

end Scalar

instance : Scalar Float where
  ofInt := Float.ofInt
  le x y := x ≤ y
  same x y := x == y

instance : Scalar Rat where
  ofInt := Rat.ofInt
  le x y := x ≤ y
  same x y := x == y

/-- Scalars with angles and distances. Directions in documents are whole or fractional degrees. -/
class Trig (α : Type) extends Scalar α where
  cosine : Float → α
  sine : Float → α
  tangent : Int → α
  sqrt : α → α
  /-- The angle of a vector from the x axis in radians, given y and x. -/
  angle : α → α → α
  fullTurn : α

def degree : Float := 0.017453292519943295

instance : Trig Float where
  cosine d := (d * degree).cos
  sine d := (d * degree).sin
  tangent d := (Float.ofInt d * degree).tan
  sqrt := Float.sqrt
  angle := Float.atan2
  fullTurn := 6.283185307179586

end Galley
