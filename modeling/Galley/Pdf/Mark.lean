import Galley.Outline
import Galley.Pdf.Parse
/-!
Marks: named entries that a document hands to the viewer. A mark is written either behind an open
bracket and closed by the mark operator, or behind the mark operator up to the end.
-/
namespace Galley.Pdf

structure Mark where
  kind : String
  entries : Entries

namespace Mark

def value? (m : Mark) (key : String) : Option Object := m.entries.value? key

def text? (m : Mark) (key : String) : Option String := (m.value? key).bind Object.text?

def destination? (m : Mark) : Option String :=
  if m.kind = "DEST" then m.text? "Dest" else none

/-- The level of a number: at least 1, without regard to the sign. -/
def levelOf (x : Float) : Nat := max 1 x.abs.toUInt32.toNat

/-- The bookmark that the mark adds. Without a level it is at level 1. -/
def entry? (m : Mark) : Option Outline.Entry :=
  if m.kind = "OUT" then
    some {
      title := (m.text? "Title").getD ""
      target := (m.text? "Dest").getD ""
      level := (((m.value? "Level").bind Object.number?).map levelOf).getD 1 }
  else none

def ofLexemes? (ls : List Lexeme) : Option Mark :=
  match ls.getLast? with
  | some (.name kind) => some ⟨kind, pair (parseAll ls.dropLast)⟩
  | _ => none

end Mark

def markWord : String := "pdfmark"

def Lexeme.isMark : Lexeme → Bool
  | .word w => w == markWord
  | _ => false

/-- Collects the marks of lexemes. For each open bracket the lexemes since it are at hand, latest
first. -/
def marksFrom : List (List Lexeme) → List Lexeme → List Mark
  | _, [] => []
  | opens, x :: ls =>
    let seen := opens.map (x :: ·)
    if x.isMark then
      match opens with
      | [] => (Mark.ofLexemes? ls).toList
      | body :: outer =>
        (Mark.ofLexemes? body.reverse).toList ++ marksFrom (outer.map (x :: ·)) ls
    else
      match x with
      | .arrayOpen => marksFrom ([] :: seen) ls
      | .arrayClose => marksFrom (seen.drop 1) ls
      | _ => marksFrom seen ls

/-- The marks of a text. Most texts have none, which is seen without reading lexemes. -/
def marks (text : String) : List Mark :=
  if Text.occursIn markWord.toList text.toList then marksFrom [] (lex text.toList) else []

end Galley.Pdf
