import Galley.Token.Basic
/-! The part a character can play in a command. -/
namespace Galley.Token

/-- Every command letter is a class of its own. -/
inductive Class where
  | endOfLine | blank | digit | sign
  | command (kind : Kind)
  | letter | other
  deriving DecidableEq

def Kind.ofLetter? : Char → Option Kind
  | '#' => some .comment
  | 'C' => some .charNamed
  | 'D' => some .drawing
  | 'H' => some .moveAbsH
  | 'N' => some .charIndexed
  | 'V' => some .moveAbsV
  | 'c' => some .charLiteral
  | 'f' => some .setFont
  | 'h' => some .moveRelH
  | 'm' => some .setColour
  | 'n' => some .informEol
  | 'p' => some .beginPage
  | 's' => some .setSize
  | 't' => some .textNormal
  | 'u' => some .textTracked
  | 'v' => some .moveRelV
  | 'w' => some .wordSpace
  | 'x' => some .deviceControl
  | _ => none

/-- The blanks of a command: space, tab, carriage return, vertical tab and form feed. -/
def isBlank (c : Char) : Bool :=
  c == ' ' || c == '\t' || c == '\r' || c == '\x0b' || c == '\x0c'

def isDigit (c : Char) : Bool := '0' ≤ c && c ≤ '9'

def isLetter (c : Char) : Bool := ('a' ≤ c && c ≤ 'z') || ('A' ≤ c && c ≤ 'Z')

def classify (c : Char) : Class :=
  match Kind.ofLetter? c with
  | some k => .command k
  | none =>
    if c = '\n' then .endOfLine
    else if isBlank c then .blank
    else if isDigit c then .digit
    else if c = '-' ∨ c = '+' then .sign
    else if isLetter c then .letter
    else .other

def Class.name : Class → String
  | .endOfLine => "EndOfLine"
  | .blank => "Blank"
  | .digit => "Digit"
  | .sign => "Sign"
  | .letter => "Letter"
  | .other => "Other"
  | .command k =>
    match k.letter? with
    | none => "Digit"
    | some '#' => "Hash"
    | some c => (if c.isUpper then "Upper" else "Lower") ++ String.singleton c.toUpper

end Galley.Token
