import Galley.Number.Scalar
/-! Points of a page in device units; y grows down the page. -/
namespace Galley.Canvas
variable {α : Type}

structure Point (α : Type) where
  x : α
  y : α

attribute [ext] Point

namespace Point

instance [Add α] : Add (Point α) := ⟨fun p q => ⟨p.x + q.x, p.y + q.y⟩⟩

instance [Sub α] : Sub (Point α) := ⟨fun p q => ⟨p.x - q.x, p.y - q.y⟩⟩

def scale [Mul α] (p : Point α) (t : α) : Point α := ⟨p.x * t, p.y * t⟩

@[simp] theorem x_add [Add α] (p q : Point α) : (p + q).x = p.x + q.x := rfl

@[simp] theorem y_add [Add α] (p q : Point α) : (p + q).y = p.y + q.y := rfl

@[simp] theorem x_sub [Sub α] (p q : Point α) : (p - q).x = p.x - q.x := rfl

@[simp] theorem y_sub [Sub α] (p q : Point α) : (p - q).y = p.y - q.y := rfl

@[simp] theorem x_scale [Mul α] (p : Point α) (t : α) : (p.scale t).x = p.x * t := rfl

@[simp] theorem y_scale [Mul α] (p : Point α) (t : α) : (p.scale t).y = p.y * t := rfl

variable [Scalar α]

def origin : Point α := ⟨Scalar.zero, Scalar.zero⟩

def ofInts (p : Int × Int) : Point α := ⟨Scalar.ofInt p.1, Scalar.ofInt p.2⟩

def dot (p q : Point α) : α := p.x * q.x + p.y * q.y

def lerp (p q : Point α) (t : α) : Point α := p + (q - p).scale t

def length {α : Type} [Trig α] (p : Point α) : α := Trig.sqrt (p.dot p)

def angle {α : Type} [Trig α] (p : Point α) : α := Trig.angle p.y p.x

end Point

end Galley.Canvas
