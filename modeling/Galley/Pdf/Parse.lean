import Galley.Pdf.Lexeme
import Galley.Pdf.Object
/-!
Objects from lexemes. A bracket that closes nothing is passed over, and one that is not closed
reaches to the end.
-/
namespace Galley.Pdf

inductive Bracket where
  | array | dict
  deriving DecidableEq

def Lexeme.closes? : Lexeme → Option Bracket
  | .arrayClose => some .array
  | .dictClose => some .dict
  | _ => none

/-- The rest of lexemes after reading, no longer than before. -/
abbrev Rest (ls : List Lexeme) := { r : List Lexeme // r.length ≤ ls.length }

mutual

/-- The object that begins with a lexeme, and the lexemes after it. A closing bracket is none. -/
def parseFrom (x : Lexeme) (ls : List Lexeme) : Option Object × Rest ls :=
  match x with
  | .name s => (some (.name s), ⟨ls, Nat.le_refl _⟩)
  | .string s => (some (.string s), ⟨ls, Nat.le_refl _⟩)
  | .number n => (some (.number n), ⟨ls, Nat.le_refl _⟩)
  | .word s => (some (.word s), ⟨ls, Nat.le_refl _⟩)
  | .arrayOpen =>
    let (es, r) := parseUntil .array ls
    (some (.array es), r)
  | .dictOpen =>
    let (es, r) := parseUntil .dict ls
    (some (.dict (pair es)), r)
  | .arrayClose => (none, ⟨ls, Nat.le_refl _⟩)
  | .dictClose => (none, ⟨ls, Nat.le_refl _⟩)
termination_by 2 * ls.length + 1

def parseUntil (b : Bracket) (ls : List Lexeme) : List Object × Rest ls :=
  match ls with
  | [] => ([], ⟨[], Nat.le_refl _⟩)
  | x :: rest =>
    if x.closes? = some b then ([], ⟨rest, by simp⟩)
    else
      let (o, ⟨r, hr⟩) := parseFrom x rest
      let (os, ⟨q, hq⟩) := parseUntil b r
      (o.toList ++ os, ⟨q, by simp; omega⟩)
termination_by 2 * ls.length
decreasing_by all_goals (simp; omega)

end

def parseAll (ls : List Lexeme) : List Object :=
  match ls with
  | [] => []
  | x :: rest =>
    let (o, ⟨r, hr⟩) := parseFrom x rest
    have : r.length < (x :: rest).length := Nat.lt_succ_of_le hr
    o.toList ++ parseAll r
termination_by ls.length
decreasing_by exact this

def parse (source : String) : List Object := parseAll (lex source.toList)

def parseEntries (source : String) : Entries := pair (parse source)

end Galley.Pdf
