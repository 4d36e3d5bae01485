import Galley.Glyph.Names
import Galley.Number.Integer
import Galley.Text.Encoding
/-!
The text of a glyph name: a special name, a single character, code points in base 16 after `u`,
or a Latin-1 code point after `char`.
-/
namespace Galley.Glyph

/-- The special names that stand for more than one character. -/
def ligatureNames : List String := ["ff", "ffi", "ffl", "fi", "fl"]

def lookup (name : String) : Option String := names.lookup name

/-- A code point in four to six digits of base 16. -/
def codePoint? (s : List Char) : Option Char :=
  if 4 ≤ s.length ∧ s.length ≤ 6 then (Number.digits? 16 s).bind Text.char? else none

def codePoints? (s : List Char) : Option (List Char) := (s.splitOn '_').mapM codePoint?

def latin1? (s : List Char) : Option (List Char) :=
  ((Number.digits? 10 s).filter (· < 256)).map fun n => [Char.ofNat n]

/-- The text of a name that is not in the table. -/
def spelled? (name : List Char) : Option (List Char) :=
  match name with
  | [c] => some [c]
  | _ =>
    match "u".toList.isPrefixOf? name with
    | some hex => codePoints? hex
    | none => ("char".toList.isPrefixOf? name).bind latin1?

def resolve (name : String) : Option String :=
  match lookup name with
  | some s => some s
  | none => (spelled? name.toList).map String.ofList

end Galley.Glyph
