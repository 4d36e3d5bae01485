import Galley.Control.Link
import Galley.Number.Scalar
/-!
The areas of links on a page. A link that goes on in another line is suspended at the end of the
one and restarted in the other; each part has an area of its own.
-/
namespace Galley.Canvas
variable {α : Type} [Scalar α]

structure Rect (α : Type) where
  left : α
  top : α
  right : α
  bottom : α

namespace Rect

def width (r : Rect α) : α := r.right - r.left

def height (r : Rect α) : α := r.bottom - r.top

/-- The edges belong to the rectangle. -/
def contains (r : Rect α) (x y : α) : Bool :=
  Scalar.le r.left x && Scalar.le x r.right && Scalar.le r.top y && Scalar.le y r.bottom

end Rect

/-- The area of a link, or of the part of it in one line. -/
structure Hotspot (α : Type) where
  page : Nat
  rect : Rect α
  target : Option Target
  border : List Float
  colour : List Float
  raw : String

structure OpenLink (α : Type) where
  link : Link
  left : α
  v : α

structure Links (α : Type) where
  page : Nat
  current : Option (OpenLink α)
  suspended : Option Link
  /-- The areas that are closed, latest first. -/
  closed : List (Hotspot α)

def OpenLink.hotspot (o : OpenLink α) (page : Nat) (h : α) : Hotspot α where
  page := page
  rect := {
    left := Scalar.min o.left h
    top := o.v - Scalar.ofInt o.link.rise.natAbs
    right := Scalar.max o.left h
    bottom := o.v + Scalar.ofInt o.link.drop.natAbs }
  target := o.link.target
  border := o.link.border
  colour := o.link.colour
  raw := o.link.raw

namespace Links

def ofPage (page : Nat) : Links α := ⟨page, none, none, []⟩

def close (s : Links α) (h : α) : Links α :=
  match s.current with
  | none => s
  | some o => { s with current := none, closed := o.hotspot s.page h :: s.closed }

/-- Begins a link, after the end of one that is still open. -/
def start (s : Links α) (link : Link) (h v : α) : Links α :=
  { s.close h with current := some ⟨link, h, v⟩, suspended := none }

def suspend (s : Links α) (h : α) : Links α :=
  match s.current with
  | none => s
  | some o => { s.close h with suspended := some o.link }

def restart (s : Links α) (h v : α) : Links α :=
  match s.suspended with
  | none => s
  | some link => { s with current := some ⟨link, h, v⟩, suspended := none }

def stop (s : Links α) (h : α) : Links α := { s.close h with suspended := none }

def finish (s : Links α) (h : α) : List (Hotspot α) := (s.close h).closed.reverse

end Links

end Galley.Canvas
