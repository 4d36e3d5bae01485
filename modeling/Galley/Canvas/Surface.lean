import Galley.Canvas.Curve
import Galley.Canvas.Transform
import Galley.Colour.Basic
import Galley.Font.Style
import Galley.Number.Notation
import Galley.Text.Quoted
/-! What a drawing surface can be asked to do. -/
namespace Galley.Canvas

/-- A font at a size in device units. -/
structure FontSpec (α : Type) where
  style : Font.Style
  size : α

inductive LineCap where
  | butt | round | square
  deriving DecidableEq

inductive LineJoin where
  | miter | round | bevel
  deriving DecidableEq

def LineCap.ofCode? : Int → Option LineCap
  | 0 => some .butt
  | 1 => some .round
  | 2 => some .square
  | _ => none

def LineJoin.ofCode? : Int → Option LineJoin
  | 0 => some .miter
  | 1 => some .round
  | 2 => some .bevel
  | _ => none

def LineCap.name : LineCap → String
  | .butt => "Butt"
  | .round => "Round"
  | .square => "Square"

def LineJoin.name : LineJoin → String
  | .miter => "Miter"
  | .round => "Round"
  | .bevel => "Bevel"

structure Pen (α : Type) where
  colour : Rgb
  width : α
  cap : LineCap
  join : LineJoin

inductive Call (α : Type) where
  | beginPage (width height : α)
  | endPage
  | setTransform (t : Transform α)
  | beginPath
  | moveTo (p : Point α)
  | lineTo (p : Point α)
  | arc (centre : Point α) (radius start stop : α) (anticlockwise : Bool)
  | ellipse (centre : Point α) (rx ry : α)
  | bezierTo (c1 c2 p : Point α)
  | closePath
  | stroke (pen : Pen α)
  | fill (colour : Rgb)
  | fillText (text : String) (origin : Point α) (font : FontSpec α) (colour : Rgb)

/-- The width of a text in a font, in device units. -/
abbrev Measure (α : Type) := String → FontSpec α → α

/-- Takes every character to be half as wide as the font is high. -/
def halfEm {α : Type} [Scalar α] : Measure α := fun text font =>
  Scalar.ofInt text.length * font.size / Scalar.two

def polygon {α : Type} : List (Point α) → List (Call α)
  | [] => []
  | p :: ps => .moveTo p :: ps.map .lineTo ++ [.closePath]

def Point.text (p : Point Float) : String := Number.plain p.x ++ " " ++ Number.plain p.y

def spaced (xs : List Float) : String := " ".intercalate (xs.map Number.plain)

def Call.display : Call Float → String
  | .beginPage w h => "begin_page " ++ spaced [w, h]
  | .endPage => "end_page"
  | .setTransform t => "set_transform " ++ spaced [t.a, t.b, t.c, t.d, t.e, t.f]
  | .beginPath => "begin_path"
  | .moveTo p => "move_to " ++ p.text
  | .lineTo p => "line_to " ++ p.text
  | .arc centre radius start stop anticlockwise =>
    "arc " ++ centre.text ++ " " ++ Number.plain radius ++ " " ++ Number.fixed 4 start ++ " " ++
      Number.fixed 4 stop ++ (if anticlockwise then " anticlockwise" else "")
  | .ellipse centre rx ry => "ellipse " ++ centre.text ++ " " ++ spaced [rx, ry]
  | .bezierTo c1 c2 p => "bezier_to " ++ c1.text ++ " " ++ c2.text ++ " " ++ p.text
  | .closePath => "close_path"
  | .stroke pen => "stroke " ++ pen.colour.display ++ " " ++ Number.plain pen.width
  | .fill colour => "fill " ++ colour.display
  | .fillText text p font colour =>
    "fill_text " ++ Text.quote text ++ " " ++ p.text ++ " " ++ font.style.family ++ " " ++
      font.style.weight.css ++ " " ++ font.style.slant.css ++ " " ++ Number.plain font.size ++
      " " ++ colour.display

end Galley.Canvas
