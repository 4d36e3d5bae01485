import Galley.Colour.Basic
/-!
The 256 colours of a terminal. The first 16 differ between terminals and are never chosen; then
come a cube of six levels a side and a ramp of greys.
-/
namespace Galley.Palette

/-- The levels along a side of the cube. -/
def cubeLevel : Nat → Nat
  | 0 => 0
  | n => 55 + 40 * n

/-- The colour at an index, if it is the same on every terminal. -/
def rgb? (index : Nat) : Option Rgb :=
  if index < 16 then none
  else if index < 232 then
    let i := index - 16
    some ⟨cubeLevel (i / 36), cubeLevel (i / 6 % 6), cubeLevel (i % 6)⟩
  else if index < 256 then some (.grey (8 + 10 * (index - 232)))
  else none

def square (a b : Nat) : Nat := (a - b + (b - a)) * (a - b + (b - a))

def distance (a b : Rgb) : Nat := square a.r b.r + square a.g b.g + square a.b b.b

def distanceAt? (c : Rgb) (index : Nat) : Option Nat := (rgb? index).map (distance c)

def closer (c : Rgb) (best : Nat × Option Nat) (index : Nat) : Nat × Option Nat :=
  match distanceAt? c index, best.2 with
  | none, _ => best
  | some d, none => (index, some d)
  | some d, some least => if d < least then (index, some d) else best

/-- The lowest index among the entries nearest to a colour. -/
def nearest (c : Rgb) : Nat := ((List.range' 16 240).foldl (closer c) (16, none)).1

/-- The index of a colour, or -1 for the default colour. -/
def index : Colour → Int
  | .default => -1
  | .rgb c => nearest c

end Galley.Palette
