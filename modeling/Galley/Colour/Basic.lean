import Galley.Number.Scalar
/-!
Colours. A document gives a scheme letter and channels from 0 to 65536; every scheme is decoded to
eight bits each of red, green and blue.
-/
namespace Galley

structure Rgb where
  r : Nat
  g : Nat
  b : Nat
  deriving DecidableEq

namespace Rgb

def black : Rgb := ⟨0, 0, 0⟩

def white : Rgb := ⟨255, 255, 255⟩

def grey (v : Nat) : Rgb := ⟨v, v, v⟩

def display (c : Rgb) : String := s!"rgb({c.r},{c.g},{c.b})"

end Rgb

/-- A colour of its own, or the one the device has by itself. -/
inductive Colour where
  | default
  | rgb (value : Rgb)
  deriving DecidableEq

namespace Colour

def orElse (fallback : Rgb) : Colour → Rgb
  | .default => fallback
  | .rgb c => c

def describe : Colour → String
  | .default => "Default"
  | .rgb c => s!"Rgb(Rgb \x7b r: {c.r}, g: {c.g}, b: {c.b} \x7d)"

def channelMax : Float := 65536

/-- The nearest of the 256 levels of a channel. -/
def level (v : Float) : Nat := v.round.toUInt8.toNat

def light (ink : Float) : Float := 1 - ink / channelMax

/-- Decodes channel values by their scheme letter. Missing values are 0. -/
def ofScheme? (scheme : String) (args : List Float) : Option Colour :=
  let arg (i : Nat) : Float := args.getD i 0
  match scheme with
  | "d" => some .default
  | "c" =>
    let ink (i : Nat) := level (light (arg i) * 255)
    some (.rgb ⟨ink 0, ink 1, ink 2⟩)
  | "k" =>
    let ink (i : Nat) := level (light (arg i) * light (arg 3) * 255)
    some (.rgb ⟨ink 0, ink 1, ink 2⟩)
  | "r" =>
    let beam (i : Nat) := level (arg i / 257)
    some (.rgb ⟨beam 0, beam 1, beam 2⟩)
  | "g" => some (.rgb (.grey (level (arg 0 / 257))))
  | _ => none

/-- A shade from 0 for white to 1000 for black; other shades stand for the default colour. -/
def ofShade (shade : Float) : Colour :=
  if 0 ≤ shade ∧ shade ≤ 1000 then
    .rgb (.grey (level ((1000 - shade) * channelMax / 1000 / 257)))
  else .default

end Colour

end Galley
