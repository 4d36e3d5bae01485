import Galley.Canvas.Point
/-! Arcs and splines as the curves that a surface can draw. -/
namespace Galley.Canvas
variable {α : Type}

inductive Arc (α : Type) where
  | line (stop : Point α)
  | round (centre : Point α) (radius start stop : α)

/-- The centre of an arc from its start point, moved along the chord onto the perpendicular
bisector of the chord; none if the chord is no more than a point. -/
def arcCentre [Scalar α] (c1 chord : Point α) : Option (Point α) :=
  let n := chord.dot chord
  if Scalar.same n Scalar.zero then none
  else some (c1 + chord.scale (Scalar.half - c1.dot chord / n))

def arc [Trig α] (start : Point α) (c1 c2 : Int × Int) : Arc α :=
  let c1 := Point.ofInts c1
  let chord := c1 + Point.ofInts c2
  match arcCentre c1 chord with
  | none => .line (start + chord)
  | some centre =>
    .round (start + centre) centre.length (Point.origin - centre).angle (chord - centre).angle

inductive Segment (α : Type) where
  | line (stop : Point α)
  | cubic (c1 c2 stop : Point α)

variable [Scalar α]

def reach (p : Point α) : List (Int × Int) → List (Point α)
  | [] => []
  | d :: r => (p + Point.ofInts d) :: reach (p + Point.ofInts d) r

def middle (p q : Point α) : Point α := p.lerp q Scalar.half

def elevate (start control stop : Point α) : Segment α :=
  let t : α := Scalar.two / Scalar.ofInt 3
  .cubic (start.lerp control t) (stop.lerp control t) stop

/-- The curves about the inner control points, from the middle before each to the middle after,
and the line to the last control point. -/
def bends : List (Point α) → List (Segment α)
  | p :: q :: r :: ps => elevate (middle p q) q (middle q r) :: bends (q :: r :: ps)
  | [_, q] => [.line q]
  | _ => []

/-- The spline through control points at offsets from a start: a quadratic curve between middles
of neighbours, with straight ends. A single offset is a line. -/
def spline (start : Point α) (offsets : List (Int × Int)) : List (Segment α) :=
  match reach start offsets with
  | [] => []
  | [p] => [.line p]
  | p :: ps => .line (middle start p) :: bends (start :: p :: ps)

end Galley.Canvas
