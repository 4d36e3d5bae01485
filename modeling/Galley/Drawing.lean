import Galley.Number.Integer
/-!
Drawing commands: a letter and whole numbers. All positions are relative, each point to the one
before it.
-/
namespace Galley

inductive Drawing where
  | line (dh dv : Int)
  /-- A circle whose leftmost point is the current point. -/
  | circle (diameter : Int) (filled : Bool)
  /-- An ellipse whose leftmost point is the current point. -/
  | ellipse (h v : Int) (filled : Bool)
  /-- An arc with its centre at `c1` and its end at `c2` from the centre. -/
  | arc (c1 c2 : Int × Int)
  | spline (offsets : List (Int × Int))
  /-- A polygon, closed back to the current point. -/
  | polygon (offsets : List (Int × Int)) (filled : Bool)
  /-- The thickness of lines; a negative one is the default. -/
  | thickness (n : Int)
  deriving DecidableEq

namespace Drawing

/-- Numbers taken two by two; a missing last one is 0. -/
def points : List Int → List (Int × Int)
  | [] => []
  | [h] => [(h, 0)]
  | h :: v :: r => (h, v) :: points r

/-- The command of a letter and its numbers. Missing numbers are 0. -/
def ofLetter? (letter : Char) (args : List Int) : Option Drawing :=
  let arg (i : Nat) : Int := args.getD i 0
  match letter with
  | 'l' => some (.line (arg 0) (arg 1))
  | 'c' => some (.circle (arg 0) false)
  | 'C' => some (.circle (arg 0) true)
  | 'e' => some (.ellipse (arg 0) (arg 1) false)
  | 'E' => some (.ellipse (arg 0) (arg 1) true)
  | 'a' => some (.arc (arg 0, arg 1) (arg 2, arg 3))
  | '~' => some (.spline (points args))
  | 'p' => some (.polygon (points args) false)
  | 'P' => some (.polygon (points args) true)
  | 't' => some (.thickness (arg 0))
  | _ => none

def total (offsets : List (Int × Int)) : Int × Int :=
  offsets.foldl (fun p d => (Number.add p.1 d.1, Number.add p.2 d.2)) (0, 0)

def advance : Drawing → Int × Int
  | .line dh dv => (dh, dv)
  | .circle d _ => (d, 0)
  | .ellipse h _ _ => (h, 0)
  | .arc c1 c2 => (Number.add c1.1 c2.1, Number.add c1.2 c2.2)
  | .spline offsets => total offsets
  | .polygon offsets _ => total offsets
  | .thickness _ => (0, 0)

def pairText (p : Int × Int) : String := s!"({p.1}, {p.2})"

def pairsText (ps : List (Int × Int)) : String :=
  "[" ++ ", ".intercalate (ps.map pairText) ++ "]"

def describe : Drawing → String
  | .line dh dv => s!"Line \x7b dh: {dh}, dv: {dv} \x7d"
  | .circle d filled => s!"Circle \x7b diameter: {d}, filled: {filled} \x7d"
  | .ellipse h v filled => s!"Ellipse \x7b h: {h}, v: {v}, filled: {filled} \x7d"
  | .arc c1 c2 => "Arc \x7b c1: " ++ pairText c1 ++ ", c2: " ++ pairText c2 ++ " \x7d"
  | .spline offsets => "Spline(" ++ pairsText offsets ++ ")"
  | .polygon offsets filled =>
    "Polygon \x7b points: " ++ pairsText offsets ++ s!", filled: {filled} \x7d"
  | .thickness n => s!"Thickness({n})"

end Drawing

end Galley
