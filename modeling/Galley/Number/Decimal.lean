import Galley.Number.Integer
/-! Numbers with a fraction or an exponent, read as the nearest double. -/
namespace Galley.Number

def isDigit (c : Char) : Bool := '0'.toNat ≤ c.toNat && c.toNat ≤ '9'.toNat

def infinity : Float := 1 / 0

def notANumber : Float := 0 / 0

/-- The double nearest to `m` times a power of ten. Far outside the range of doubles the power
is not computed. -/
def scaled (m : Nat) (e : Int) : Float :=
  let magnitude := e + (Nat.toDigits 10 m).length
  if m = 0 ∨ magnitude < -400 then 0
  else if 400 < magnitude then infinity
  else Float.ofScientific m (e < 0) e.natAbs

def exponent? : List Char → Option Int
  | [] => some 0
  | c :: s => if c = 'e' ∨ c = 'E' then integer? s else none

def decimal? (s : List Char) : Option (Nat × Int) :=
  let whole := s.takeWhile isDigit
  let rest := s.dropWhile isDigit
  let fraction := match rest with
    | '.' :: r => r.takeWhile isDigit
    | _ => []
  let rest := match rest with
    | '.' :: r => r.dropWhile isDigit
    | r => r
  match digits? 10 (whole ++ fraction), exponent? rest with
  | some m, some e => some (m, e - fraction.length)
  | _, _ => none

/-- Reads a number without a sign; infinity and the absence of a number are words. -/
def magnitude? (s : List Char) : Option Float :=
  let word := String.ofList (s.map Char.toLower)
  if word = "inf" ∨ word = "infinity" then some infinity
  else if word = "nan" then some notANumber
  else (decimal? s).map fun (m, e) => scaled m e

def float? : List Char → Option Float
  | '-' :: s => (magnitude? s).map Neg.neg
  | '+' :: s => magnitude? s
  | s => magnitude? s

end Galley.Number
