import Galley.Number.Decimal
import Galley.Number.Rounding
import Galley.Text.Space
/-! The resolution of a device, and lengths that depend on it. -/
namespace Galley

/-- Device units in an inch, and the smallest motions in device units. -/
structure Resolution where
  unitsPerInch : Int
  horizontal : Int
  vertical : Int
  deriving DecidableEq

def Resolution.initial : Resolution := ⟨72000, 1, 1⟩

inductive Length where
  | inches (n : Float)
  | units (n : Float)

namespace Length

def toUnits (unitsPerInch : Int) : Length → Int
  | .inches n => Number.ofFloat (n * Float.ofInt unitsPerInch)
  | .units n => Number.ofFloat n

def isNumeric (c : Char) : Bool := Number.isDigit c || c == '.' || c == '-' || c == '+'

def inUnit? (n : Float) : String → Option Length
  | "i" => some (.inches n)
  | "c" => some (.inches (n / 2.54))
  | "m" => some (.inches (n / 25.4))
  | "p" => some (.inches (n / 72))
  | "P" => some (.inches (n / 6))
  | "" => some (.units n)
  | "u" => some (.units n)
  | _ => none

def parse? (s : List Char) : Option Length :=
  let s := Text.trim s
  (Number.float? (s.takeWhile isNumeric)).bind fun n =>
    inUnit? n (String.ofList (s.dropWhile isNumeric))

end Length

end Galley
