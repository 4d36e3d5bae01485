import Galley.Canvas.Painter
import Galley.Device.Session
/-!
Documents as pages that can be painted one by one. The commands before the first page come before
those of every page when it is painted.
-/
namespace Galley.Canvas
open Device

structure Options where
  /-- The size of the paper in inches, until the document sets one. -/
  paperWidth : Float := 8.5
  paperHeight : Float := 11
  /-- The default width of lines as a fraction of the type size. -/
  lineWidth : Float := 0.04

def Options.paper (o : Options) (unitsPerInch : Int) : Int × Int :=
  (Number.ofFloat (o.paperWidth * Float.ofInt unitsPerInch),
    Number.ofFloat (o.paperHeight * Float.ofInt unitsPerInch))

structure Page where
  number : Int
  width : Int
  height : Int
  tokens : List Token

/-- The device that follows the sizes of pages. -/
structure Pager where
  options : Options
  unitsPerInch : Int
  paper : Option (Int × Int)
  /-- The pages before the current one, latest first. -/
  done : List Page
  /-- The current page, with its commands latest first. -/
  current : Page

namespace Pager

def size (p : Pager) : Int × Int := p.paper.getD (p.options.paper p.unitsPerInch)

def newPage (size : Int × Int) (number : Int) : Page := ⟨number, size.1, size.2, []⟩

def initial (options : Options) : Pager :=
  let units := Resolution.initial.unitsPerInch
  ⟨options, units, none, [], newPage (options.paper units) 0⟩

def resize (p : Pager) (size : Int × Int) : Pager :=
  { p with current := { p.current with width := size.1, height := size.2 } }

/-- Before the first page a resolution still counts for the paper. -/
def setResolution (p : Pager) (r : Resolution) : Pager :=
  let p := { p with unitsPerInch := r.unitsPerInch }
  if p.done.isEmpty ∧ p.paper.isNone then p.resize p.size else p

def close (page : Page) : Page := { page with tokens := page.tokens.reverse }

def beginPage (p : Pager) (number : Int) : Pager :=
  { p with done := close p.current :: p.done, current := newPage p.size number }

def receive (p : Pager) : Device.Call → Pager
  | .resolution r => p.setResolution r
  | .beginPage number => p.beginPage number
  | .paperSize w h => { p with paper := some (w, h) }.resize (w, h)
  | _ => p

def receiveAll (p : Pager) (cs : List Device.Call) : Pager := cs.foldl receive p

def keep (p : Pager) (t : Token) : Pager :=
  { p with current := { p.current with tokens := t :: p.current.tokens } }

def pages (p : Pager) : List Page := (close p.current :: p.done).reverse

end Pager

def paginate (i : Interpreter) (p : Pager) : List Token → Interpreter × Pager
  | [] => (i, p)
  | t :: ts =>
    let (i, calls) := i.exec t
    paginate i ((p.receiveAll calls).keep t) ts

/-- A document in pages. Until one is read there is not even a prologue. -/
structure Document where
  options : Options
  /-- The commands before the first page, as a page of its own. -/
  prologue : Option Page
  pages : List Page
  anchors : Anchors
  outline : Outline
  warnings : List Warning

structure NoSuchPage where
  page : Nat
  pages : Nat
  deriving DecidableEq

def NoSuchPage.message (e : NoSuchPage) : String :=
  "page " ++ toString e.page ++ " does not exist; the document has " ++ toString e.pages ++ " pages"

namespace Document

def blank (options : Options) : Document := ⟨options, none, [], {}, .empty, []⟩

def ofTokens (options : Options) (ts : List Token) : Document :=
  let (i, p) := paginate .initial (.initial options) ts
  let (i, calls) := i.finish
  let pages := (p.receiveAll calls).pages
  { options := options
    prologue := pages.head?
    pages := pages.drop 1
    anchors := i.anchors
    outline := i.outline
    warnings := i.warnings }

def ofSource (options : Options) (legacy : Bool) (source : String) : Document :=
  ofTokens options (Token.tokenize legacy source)

/-- A page by its place, counted from 1. -/
def page? (d : Document) : Nat → Option Page
  | 0 => none
  | n + 1 => d.pages[n]?

/-- Combines the sizes of all the pages; without any, the size is that of the prologue or of the
paper. -/
def sizeBy (d : Document) (f : Int → Int → Int) : Int × Int :=
  match d.pages ++ d.prologue.toList with
  | [] => d.options.paper Resolution.initial.unitsPerInch
  | first :: _ =>
    (d.pages.drop 1).foldl (fun (w, h) p => (f w p.width, f h p.height)) (first.width, first.height)

def minSize (d : Document) : Int × Int := d.sizeBy min

def maxSize (d : Document) : Int × Int := d.sizeBy max

def paint {α : Type} [Trig α] (measure : Measure α) (lineWidth : α) (page : Nat)
    (ts : List Token) : List (Canvas.Call α) × List (Hotspot α) :=
  let (painter, calls) :=
    (Painter.initial page lineWidth).receiveAll measure (Interpreter.initial.runAll ts).2
  (calls, painter.hotspots)

def renderPage (d : Document) (measure : Measure Float) (n : Nat) :
    Except NoSuchPage (List (Canvas.Call Float) × List (Hotspot Float)) :=
  match d.prologue, d.page? n with
  | some prologue, some page =>
    let (calls, hotspots) := paint measure d.options.lineWidth n (prologue.tokens ++ page.tokens)
    .ok (.beginPage (Float.ofInt page.width) (Float.ofInt page.height) :: calls ++ [.endPage],
      hotspots)
  | _, _ => .error ⟨n, d.pages.length⟩

end Document

end Galley.Canvas
