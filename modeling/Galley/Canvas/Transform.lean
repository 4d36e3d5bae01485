import Galley.Canvas.Point
/-! Affine maps of the plane, made of two columns and an offset. -/
namespace Galley.Canvas
variable {α : Type} [Scalar α]

/-- Maps (x, y) to (a x + c y + e, b x + d y + f). -/
structure Transform (α : Type) where
  a : α
  b : α
  c : α
  d : α
  e : α
  f : α

namespace Transform

def identity : Transform α :=
  ⟨Scalar.one, Scalar.zero, Scalar.zero, Scalar.one, Scalar.zero, Scalar.zero⟩

def isIdentity (t : Transform α) : Bool :=
  Scalar.same t.a Scalar.one && Scalar.same t.b Scalar.zero && Scalar.same t.c Scalar.zero &&
    Scalar.same t.d Scalar.one && Scalar.same t.e Scalar.zero && Scalar.same t.f Scalar.zero

def apply (t : Transform α) (p : Point α) : Point α :=
  ⟨t.a * p.x + t.c * p.y + t.e, t.b * p.x + t.d * p.y + t.f⟩

/-- One transform after another: `t.before u` applies `t` first. -/
def before (t u : Transform α) : Transform α where
  a := u.a * t.a + u.c * t.b
  b := u.b * t.a + u.d * t.b
  c := u.a * t.c + u.c * t.d
  d := u.b * t.c + u.d * t.d
  e := u.a * t.e + u.c * t.f + u.e
  f := u.b * t.e + u.d * t.f + u.f

def shift (p : Point α) : Transform α := { identity with e := p.x, f := p.y }

def turn (cosine sine : α) : Transform α :=
  { identity with a := cosine, b := sine, c := -sine, d := cosine }

def rotation {α : Type} [Trig α] (degrees : Float) : Transform α :=
  turn (Trig.cosine degrees) (Trig.sine degrees)

end Transform

end Galley.Canvas
