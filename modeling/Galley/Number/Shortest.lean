/-!
Doubles as exact binary fractions, and the fewest decimal digits that read back as the same double.
A candidate is one of the two neighbours of the value on the grid of n digits; the first n with a
candidate wins.
-/
namespace Galley.Number

/-- Which way a value halfway between two neighbours goes. -/
inductive Tie where
  | up | toEven
  deriving DecidableEq

def roundDiv (tie : Tie) (n d : Nat) : Nat :=
  let q := n / d
  let twice := 2 * (n % d)
  if twice < d then q
  else if d < twice then q + 1
  else match tie with
    | .up => q + 1
    | .toEven => q + q % 2

/-- A positive number `mantissa` times a power of two; `halfBelow` tells whether the double
before it is only half as far as the double after it. -/
structure Binary where
  mantissa : Nat
  exponent : Int
  halfBelow : Bool

def Binary.ofFloat (x : Float) : Binary :=
  let bits : Nat := x.toBits.toNat % Nat.pow 2 63
  let field : Nat := bits / Nat.pow 2 52
  let fraction := bits % Nat.pow 2 52
  if field = 0 then ⟨fraction, -1074, false⟩
  else ⟨fraction + Nat.pow 2 52, (field : Int) - 1075, fraction = 0 && field != 1⟩

def isNegative (x : Float) : Bool := Nat.pow 2 63 ≤ x.toBits.toNat

structure Digits where
  value : Nat
  exponent : Int

/-- Four times the value of the fraction as a quotient, in units of a power of ten. -/
def Binary.inUnits (b : Binary) (unit : Int) : Nat × Nat :=
  (Nat.pow 2 b.exponent.toNat * Nat.pow 10 (-unit).toNat,
    4 * (Nat.pow 2 (-b.exponent).toNat * Nat.pow 10 unit.toNat))

/-- Whether a multiple of the unit reads back as the fraction. The ends of the interval belong to
a fraction with an even mantissa. -/
def Binary.readsBack (b : Binary) (unit : Int) (n : Nat) : Bool :=
  let (scale, den) := b.inUnits unit
  let low := (4 * b.mantissa - if b.halfBelow then 1 else 2) * scale
  let high := (4 * b.mantissa + 2) * scale
  if b.mantissa % 2 = 0 then low ≤ n * den && n * den ≤ high else low < n * den && n * den < high

/-- The number of digits before the decimal point; zero or less for a number below one tenth. -/
def Binary.places (b : Binary) : Int :=
  let whole := b.mantissa * Nat.pow 2 b.exponent.toNat
  let den := Nat.pow 2 (-b.exponent).toNat
  if den ≤ whole then ((Nat.toDigits 10 (whole / den)).length : Nat)
  else 1 - ((Nat.toDigits 10 ((den - 1) / whole)).length : Nat)

/-- The multiple of the unit nearest to the fraction, or the neighbour on the other side if only
that one reads back. -/
def Binary.candidate (b : Binary) (tie : Tie) (unit : Int) : Option Nat :=
  let (scale, den) := b.inUnits unit
  let near := roundDiv tie (4 * b.mantissa * scale) den
  let floor := 4 * b.mantissa * scale / den
  let far := 2 * floor + 1 - near
  if b.readsBack unit near then some near
  else if b.readsBack unit far then some far
  else none

def Binary.search (b : Binary) (tie : Tie) : Nat → Int → Digits
  | 0, unit => ⟨(b.candidate tie unit).getD 0, unit⟩
  | fuel + 1, unit =>
    match b.candidate tie unit with
    | some d => ⟨d, unit⟩
    | none => b.search tie fuel (unit - 1)

def Digits.strip (d : Digits) : Nat → Digits
  | 0 => d
  | fuel + 1 =>
    if d.value ≠ 0 ∧ d.value % 10 = 0 then strip ⟨d.value / 10, d.exponent + 1⟩ fuel else d

/-- The fewest digits that read back as the double; seventeen always suffice. -/
def shortest (tie : Tie) (x : Float) : Digits :=
  let b := Binary.ofFloat x
  if b.mantissa = 0 then ⟨0, 0⟩ else (b.search tie 16 (b.places - 1)).strip 20

end Galley.Number
