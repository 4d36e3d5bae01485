import Galley.Canvas.Hotspot
import Galley.Canvas.Surface
import Galley.Device.Call
/-!
The device that paints a page on a surface. Text of a run is drawn in one piece across moves that
end near enough to where the text ends.
-/
namespace Galley.Canvas
open Device

structure Painter (α : Type) where
  /-- The default width of lines as a fraction of the type size. -/
  lineWidth : α
  unitsPerInch : Int
  h : α
  v : α
  style : Font.Style
  size : Int
  charHeight : Int
  slant : Int
  /-- The rotation of text in degrees. -/
  rotation : Float
  reversed : Bool
  visible : Bool
  stroke : Colour
  fill : Option Colour
  thickness : Option α
  cap : LineCap
  join : LineJoin
  links : Links α

namespace Painter

abbrev Painted (α : Type) := Painter α × List (Canvas.Call α)

variable {α : Type} [Trig α]

def initial (page : Nat) (lineWidth : α) : Painter α where
  lineWidth := lineWidth
  unitsPerInch := Resolution.initial.unitsPerInch
  h := Scalar.zero
  v := Scalar.zero
  style := Font.styleOrGuess "TR"
  size := 10
  charHeight := 0
  slant := 0
  rotation := 0
  reversed := false
  visible := true
  stroke := .default
  fill := none
  thickness := none
  cap := .butt
  join := .miter
  links := .ofPage page

def position (p : Painter α) : Point α := ⟨p.h, p.v⟩

/-- The selected font. Sizes are in points, of which there are 72 in an inch. -/
def font (p : Painter α) : FontSpec α :=
  ⟨p.style, Scalar.ofInt p.size * Scalar.ofInt p.unitsPerInch / Scalar.ofInt 72⟩

def pen (p : Painter α) : Pen α :=
  ⟨p.stroke.orElse .black, p.thickness.getD (p.lineWidth * p.font.size), p.cap, p.join⟩

def fillColour (p : Painter α) : Rgb := (p.fill.getD p.stroke).orElse .black

/-- The height of characters as a part of the type size. -/
def stretch (p : Painter α) : α :=
  if p.charHeight ≠ 0 ∧ p.size ≠ 0 then Scalar.ofInt p.charHeight / Scalar.ofInt p.size
  else Scalar.one

def upright (p : Painter α) : Transform α :=
  { Transform.identity with
    a := if p.reversed then -Scalar.one else Scalar.one
    c := if p.slant ≠ 0 then -Trig.tangent p.slant * p.stretch else Scalar.zero
    d := p.stretch }

def textTransform (p : Painter α) : Transform α :=
  if p.rotation == 0 then p.upright else p.upright.before (.rotation p.rotation)

/-- Where the text begins. Reversed text begins on the right of the place that it takes. -/
def textOrigin (p : Painter α) (width : α) : Point α :=
  if p.reversed then ⟨p.h + width, p.v⟩ else p.position

def showCalls (p : Painter α) (text : String) (width : α) : List (Canvas.Call α) :=
  let colour := p.stroke.orElse .black
  let t := p.textTransform
  if p.visible = false ∨ text.isEmpty then []
  else if t.isIdentity then [.fillText text p.position p.font colour]
  else [
    .setTransform (t.before (.shift (p.textOrigin width))),
    .fillText text .origin p.font colour,
    .setTransform .identity]

variable (measure : Measure α)

def advance (p : Painter α) (text : String) (tracking : Option α) : Painted α :=
  let width := measure text p.font
  let step := match tracking with
    | some t => width + t
    | none => width
  ({ p with h := p.h + step }, p.showCalls text width)

def advanceEach (tracking : α) (p : Painter α) : List Char → Painted α
  | [] => (p, [])
  | c :: cs =>
    let (p, calls) := p.advance measure (String.singleton c) (some tracking)
    let (p, more) := advanceEach tracking p cs
    (p, calls ++ more)

def printText (p : Painter α) (text : String) (tracking : Int) : Painted α :=
  if tracking = 0 then p.advance measure text none
  else p.advanceEach measure (Scalar.ofInt tracking) text.toList

/-- Shows the text that is held back, and then goes to a position if one is given. -/
def release (p : Painter α) (held : String) (stop : Option α) : Painted α :=
  let (p, calls) := if held.isEmpty then (p, []) else p.advance measure held none
  ({ p with h := stop.getD p.h }, calls)

def heldEnd (p : Painter α) (held : String) : α := p.h + measure held p.font

/-- How far, in device units, a move may be from the end of a text and still join it. -/
def tolerance : α := Scalar.half

def joins (p : Painter α) (held : String) (h : α) : Bool :=
  !held.isEmpty && Scalar.le (Scalar.abs (h - p.heldEnd measure held)) tolerance

/-- The position that a move goes to, given the text that is held back and the position to which
a move went after it. -/
def target? (p : Painter α) (held : String) (stop : Option α) : RunPiece → Option α
  | .moveTo h => some (Scalar.ofInt h)
  | .moveBy dh => some (stop.getD (p.heldEnd measure held) + Scalar.ofInt dh)
  | _ => none

/-- Prints the pieces of a run. A move keeps text held back if it goes to where the text ends. -/
def printRun (p : Painter α) (held : String) (stop : Option α) : List RunPiece → Painted α
  | [] => p.release measure held stop
  | .text s :: run => p.printRun (held ++ s) none run
  | piece :: run =>
    match p.target? measure held stop piece with
    | none =>
      let (p, calls) := p.release measure held stop
      let (p, more) := p.printRun "" none run
      (p, calls ++ more)
    | some h =>
      if p.joins measure held h then p.printRun held (some h) run
      else
        let (p, calls) := p.release measure held stop
        let (p, more) := printRun { p with h := h } "" none run
        (p, calls ++ more)

omit measure in
def paintPath (p : Painter α) (filled : Bool) (path : List (Canvas.Call α)) :
    List (Canvas.Call α) :=
  .beginPath :: path ++ [if filled then .fill p.fillColour else .stroke p.pen]

def arcPath (start : Point α) : Arc α → List (Canvas.Call α)
  | .line stop => [.moveTo start, .lineTo stop]
  | .round centre radius first last => [.moveTo start, .arc centre radius first last true]

def segmentCall : Segment α → Canvas.Call α
  | .line stop => .lineTo stop
  | .cubic c1 c2 stop => .bezierTo c1 c2 stop

def shapeCalls (p : Painter α) (d : Drawing) : List (Canvas.Call α) :=
  let start := p.position
  match d with
  | .line dh dv =>
    p.paintPath false [.moveTo start, .lineTo (start + Point.ofInts (dh, dv))]
  | .circle diameter filled =>
    let r : α := Scalar.ofInt diameter / Scalar.two
    p.paintPath filled [.arc (start + ⟨r, Scalar.zero⟩) r Scalar.zero Trig.fullTurn false]
  | .ellipse h v filled =>
    let rx : α := Scalar.ofInt h / Scalar.two
    let ry : α := Scalar.ofInt v / Scalar.two
    p.paintPath filled [.ellipse (start + ⟨rx, Scalar.zero⟩) rx ry]
  | .arc c1 c2 => p.paintPath false (arcPath start (arc start c1 c2))
  | .spline offsets =>
    p.paintPath false (.moveTo start :: (spline start offsets).map segmentCall)
  | .polygon offsets filled =>
    p.paintPath filled (polygon (start :: reach start offsets))
  | .thickness _ => []

def setThickness (p : Painter α) : Drawing → Painter α
  | .thickness n => { p with thickness := if n < 0 then none else some (Scalar.ofInt n) }
  | _ => p

def draw (p : Painter α) (d : Drawing) : Painted α :=
  let p := p.setThickness d
  let (dh, dv) := d.advance
  ({ p with h := p.h + Scalar.ofInt dh, v := p.v + Scalar.ofInt dv },
    if p.visible then p.shapeCalls d else [])

def receive (p : Painter α) : Device.Call → Painted α
  | .resolution r => ({ p with unitsPerInch := r.unitsPerInch }, [])
  | .beginPage _ => ({ p with h := Scalar.zero, v := Scalar.zero }, [])
  | .setSize size => ({ p with size := size }, [])
  | .setFont _ name => ({ p with style := Font.styleOrGuess (name.getD "") }, [])
  | .moveToH h => ({ p with h := Scalar.ofInt h }, [])
  | .moveByH dh => ({ p with h := p.h + Scalar.ofInt dh }, [])
  | .moveToV v => ({ p with v := Scalar.ofInt v }, [])
  | .moveByV dv => ({ p with v := p.v + Scalar.ofInt dv }, [])
  | .printGlyph text => (p, p.showCalls text (measure text p.font))
  | .printText text tracking => p.printText measure text tracking
  | .textRun run => p.printRun measure "" none run
  | .draw d => p.draw d
  | .strokeColour c => ({ p with stroke := c }, [])
  | .fillColour c => ({ p with fill := some c }, [])
  | .charHeight n => ({ p with charHeight := n }, [])
  | .slant degrees => ({ p with slant := degrees }, [])
  | .visible on => ({ p with visible := on }, [])
  | .rotate degrees => ({ p with rotation := degrees }, [])
  | .lineCap code => ({ p with cap := (LineCap.ofCode? code).getD p.cap }, [])
  | .lineJoin code => ({ p with join := (LineJoin.ofCode? code).getD p.join }, [])
  | .markStart link => ({ p with links := p.links.start link p.h p.v }, [])
  | .markEnd => ({ p with links := p.links.stop p.h }, [])
  | .markSuspend => ({ p with links := p.links.suspend p.h }, [])
  | .markRestart => ({ p with links := p.links.restart p.h p.v }, [])
  | .reverse => ({ p with reversed := !p.reversed }, [])
  | _ => (p, [])

def receiveAll (p : Painter α) : List Device.Call → Painted α
  | [] => (p, [])
  | c :: cs =>
    let (p, calls) := p.receive measure c
    let (p, more) := p.receiveAll cs
    (p, calls ++ more)

def hotspots (p : Painter α) : List (Hotspot α) := p.links.finish p.h

end Painter

end Galley.Canvas
