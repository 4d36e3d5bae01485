import Galley.Number.Shortest
/-! Doubles written out: plain digits, a fixed number of places, or a power of ten when short. -/
namespace Galley.Number

/-- Digits with a point so many places before their end. -/
def pointed (ds : List Char) (places : Nat) : String :=
  let padded := List.replicate (places + 1 - ds.length) '0' ++ ds
  let whole := padded.take (padded.length - places)
  String.ofList (if places = 0 then whole else whole ++ '.' :: padded.drop (padded.length - places))

def Digits.positional (d : Digits) : String :=
  pointed (Nat.toDigits 10 (d.value * Nat.pow 10 d.exponent.toNat)) (-d.exponent).toNat

def signed (x : Float) (magnitude : String) : String :=
  if x.isNaN then "NaN"
  else (if isNegative x then "-" else "") ++ (if x.isInf then "inf" else magnitude)

/-- The fewest digits that read back, all of them written out. -/
def plain (x : Float) : String := signed x (shortest .up x).positional

/-- A fixed number of decimal places, rounded from the exact value with ties to even. -/
def fixed (places : Nat) (x : Float) : String :=
  let b := Binary.ofFloat x
  let n := roundDiv .toEven (b.mantissa * Nat.pow 2 b.exponent.toNat * Nat.pow 10 places)
    (Nat.pow 2 (-b.exponent).toNat)
  signed x (pointed (Nat.toDigits 10 n) places)

/-- A power of ten after its letter: always a sign, and no leading zero. -/
def exponentText (e : Int) : String :=
  "e" ++ (if e < 0 then "-" else "+") ++ toString e.natAbs

/-- The digits of a data file: a point always, and a power of ten beyond sixteen digits before
the point or five zeros after it. -/
def Digits.compact (d : Digits) : String :=
  let ds := Nat.toDigits 10 d.value
  let places : Int := ds.length + d.exponent
  if 0 ≤ d.exponent ∧ places ≤ 16 then d.positional ++ ".0"
  else if -5 < places ∧ places ≤ 16 then d.positional
  else pointed ds (ds.length - 1) ++ exponentText (places - 1)

def compact? (x : Float) : Option String :=
  if x.isFinite then some (signed x (shortest .toEven x).compact) else none

end Galley.Number
