import Galley.Colour.Palette
import Galley.Device.Session
import Galley.Terminal.Line
/-!
The device that shows calls on pages of cells. A position is in the column and row that its
distance covers in smallest motions.
-/
namespace Galley.Terminal
open Device

structure Screen where
  horizontal : Int
  vertical : Int
  /-- The pages, latest first. -/
  pages : List Grid
  /-- The lines on the latest page. -/
  strokes : Strokes
  h : Int
  v : Int
  face : Font.Face
  colour : Int
  visible : Bool
  sgr : Bool

namespace Screen

/-- The smallest motions of a resolution are at least one unit here. -/
def initial (r : Resolution) (sgr : Bool) : Screen where
  horizontal := max r.horizontal 1
  vertical := max r.vertical 1
  pages := []
  strokes := {}
  h := 0
  v := 0
  face := .regular
  colour := -1
  visible := true
  sgr := sgr

def place (s : Screen) (h v : Int) : Int × Int := (v / s.vertical, h / s.horizontal)

def cell (s : Screen) (ch : Char) : Cell := ⟨ch, s.face, s.colour⟩

/-- Changes the latest page, or a first one. -/
def onPage (f : Grid → Grid) : List Grid → List Grid
  | [] => [f .empty]
  | g :: gs => f g :: gs

def put (s : Screen) (offset : Int) (ch : Char) : Screen :=
  if s.visible then
    let (row, col) := s.place s.h s.v
    let cell := s.cell ch
    { s with pages := onPage (·.set row (Number.add col offset) cell) s.pages }
  else s

/-- Writes characters side by side, from a column on. The columns are counted in 32 bits. -/
def putAll (s : Screen) (offset : Nat) : List Char → Screen
  | [] => s
  | c :: cs => (s.put (Number.wrap offset) c).putAll (offset + 1) cs

def type (s : Screen) (tracking : Int) : List Char → Screen
  | [] => s
  | c :: cs =>
    let s := s.put 0 c
    type { s with h := Number.add s.h (Number.add s.horizontal tracking) } tracking cs

def plot (s : Screen) (start stop : Int × Int) : Screen :=
  let (g, gs) := match s.pages with
    | [] => (.empty, [])
    | g :: gs => (g, gs)
  match Plot.line? ⟨g, s.strokes⟩ start stop (s.cell ' ') with
  | some p => { s with pages := p.grid :: gs, strokes := p.strokes }
  | none => { s with pages := g :: gs }

def lineTo (s : Screen) (h v : Int) : Screen :=
  let t := if s.visible then s.plot (s.place s.h s.v) (s.place h v) else s
  { t with h := h, v := v }

def lineBy (s : Screen) (d : Int × Int) : Screen :=
  s.lineTo (Number.add s.h d.1) (Number.add s.v d.2)

def moveFrom (s : Screen) (h v : Int) (d : Int × Int) : Screen :=
  { s with h := Number.add h d.1, v := Number.add v d.2 }

/-- Only straight lines are shown; other shapes are moves. -/
def draw (s : Screen) (d : Drawing) : Screen :=
  match d with
  | .line dh dv => s.lineBy (dh, dv)
  | .polygon offsets _ =>
    ((offsets.foldl lineBy s).lineTo s.h s.v).moveFrom s.h s.v d.advance
  | _ => s.moveFrom s.h s.v d.advance

/-- The finest resolution that a grid of cells can show. -/
def maxUnitsPerInch : Int := 1000

def setResolution (s : Screen) (r : Resolution) : Screen :=
  if maxUnitsPerInch < r.unitsPerInch then s
  else { s with horizontal := max r.horizontal 1, vertical := max r.vertical 1 }

def step (s : Screen) : Call → Screen
  | .resolution r => s.setResolution r
  | .beginPage _ => { s with pages := .empty :: s.pages, strokes := {}, h := 0, v := 0 }
  | .setFont _ name => { s with face := .ofName (name.getD "") }
  | .moveToH h => { s with h := h }
  | .moveByH dh => { s with h := Number.add s.h dh }
  | .moveToV v => { s with v := v }
  | .moveByV dv => { s with v := Number.add s.v dv }
  | .printGlyph text => s.putAll 0 text.toList
  | .printText text tracking => s.type tracking text.toList
  | .draw d => s.draw d
  | .strokeColour c => { s with colour := Palette.index c }
  | .visible on => { s with visible := on }
  | .sgr on => { s with sgr := on }
  | _ => s

def receive (s : Screen) (c : Call) : Screen := c.expand.foldl step s

end Screen

structure TooFine where
  unitsPerInch : Int
  deriving DecidableEq

def TooFine.message (e : TooFine) : String :=
  "resolution of " ++ toString e.unitsPerInch ++ " units per inch is higher than the maximum of " ++
    toString Screen.maxUnitsPerInch ++ "; was the input generated for a terminal device?"

def screen : Sink Screen TooFine where
  receive := Screen.receive
  refuse _ r := if Screen.maxUnitsPerInch < r.unitsPerInch then some ⟨r.unitsPerInch⟩ else none

end Galley.Terminal
