/-! Fonts whose letters show symbols, and the characters that those symbols are. -/
namespace Galley.Font

def symbols : List (Char × Char) := [
  ('a', 'α'), ('b', 'β'), ('c', 'χ'), ('d', 'δ'), ('e', 'ε'), ('f', 'φ'), ('g', 'γ'),
  ('h', 'η'), ('i', 'ι'), ('j', 'ϕ'), ('k', 'κ'), ('l', 'λ'), ('m', 'μ'), ('n', 'ν'),
  ('o', 'ο'), ('p', 'π'), ('q', 'θ'), ('r', 'ρ'), ('s', 'σ'), ('t', 'τ'), ('u', 'υ'),
  ('v', 'ϖ'), ('w', 'ω'), ('x', 'ξ'), ('y', 'ψ'), ('z', 'ζ'), ('A', 'Α'), ('B', 'Β'),
  ('C', 'Χ'), ('D', 'Δ'), ('E', 'Ε'), ('F', 'Φ'), ('G', 'Γ'), ('H', 'Η'), ('I', 'Ι'),
  ('J', 'ϑ'), ('K', 'Κ'), ('L', 'Λ'), ('M', 'Μ'), ('N', 'Ν'), ('O', 'Ο'), ('P', 'Π'),
  ('Q', 'Θ'), ('R', 'Ρ'), ('S', 'Σ'), ('T', 'Τ'), ('U', 'Υ'), ('V', 'ς'), ('W', 'Ω'),
  ('X', 'Ξ'), ('Y', 'Ψ'), ('Z', 'Ζ')]

/-- Stretches of the dingbat font: first and last position, and the character at the first. -/
def dingbats : List (Nat × Nat × Nat) := [
  (0x21, 0x24, 0x2701), (0x25, 0x25, 0x260E), (0x26, 0x29, 0x2706), (0x2A, 0x2A, 0x261B),
  (0x2B, 0x2B, 0x261E), (0x2C, 0x47, 0x270C), (0x48, 0x48, 0x2605), (0x49, 0x6B, 0x2729),
  (0x6C, 0x6C, 0x25CF), (0x6D, 0x6D, 0x274D), (0x6E, 0x6E, 0x25A0), (0x6F, 0x72, 0x274F),
  (0x73, 0x73, 0x25B2), (0x74, 0x74, 0x25BC), (0x75, 0x75, 0x25C6), (0x76, 0x76, 0x2756),
  (0x77, 0x77, 0x25D7), (0x78, 0x7E, 0x2758)]

inductive SymbolMap where
  | symbol | dingbats
  deriving DecidableEq

namespace SymbolMap

def ofFont? : String → Option SymbolMap
  | "S" => some .symbol
  | "SS" => some .symbol
  | "ZD" => some .dingbats
  | _ => none

def name : SymbolMap → String
  | .symbol => "Symbol"
  | .dingbats => "Dingbats"

def dingbat? (n : Nat) : Option Char :=
  (Font.dingbats.find? fun (first, last, _) => first ≤ n && n ≤ last).map fun (first, _, base) =>
    Char.ofNat (base + (n - first))

/-- The symbol shown for a character; a character without one stays as it is. -/
def remapChar (m : SymbolMap) (c : Char) : Char :=
  match m with
  | .symbol => (symbols.lookup c).getD c
  | .dingbats => (dingbat? c.toNat).getD c

def remap (m : SymbolMap) (s : String) : String := String.ofList (s.toList.map m.remapChar)

end SymbolMap

end Galley.Font
