import Galley.Number.Integer
import Galley.Number.Shortest
/-!
Doubles as device numbers. What is beyond the bounds comes to the nearest of them, and what is not
a number comes to 0.
-/
namespace Galley.Number

def Binary.quotient (b : Binary) : Nat × Nat :=
  (b.mantissa * Nat.pow 2 b.exponent.toNat, Nat.pow 2 (-b.exponent).toNat)

def withSign (x : Float) (n : Nat) : Int :=
  if x.isNaN then 0 else saturate (if isNegative x then -n else n)

/-- The nearest whole number; halves go away from zero. -/
def ofFloat (x : Float) : Int :=
  let (n, d) := (Binary.ofFloat x).quotient
  withSign x (roundDiv .up n d)

/-- The whole part. -/
def truncate (x : Float) : Int :=
  let (n, d) := (Binary.ofFloat x).quotient
  withSign x (n / d)

end Galley.Number
