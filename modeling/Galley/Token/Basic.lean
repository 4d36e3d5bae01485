/-!
The commands of typesetter output as tokens: a kind, the text of the operand and the place in the
source.
-/
namespace Galley

/-- The kinds of command. All but a move followed by a character begin with a letter. -/
inductive Token.Kind where
  | beginPage | comment | setSize | setFont | charLiteral | charNamed | charIndexed
  | moveAbsH | moveAbsV | moveRelH | moveRelV | movePrint | informEol | wordSpace
  | drawing | setColour | textNormal | textTracked | deviceControl
  deriving DecidableEq

structure Token where
  kind : Token.Kind
  /-- The operand without the command letter and without blanks around it. -/
  operand : String
  /-- The byte at which the command begins. -/
  offset : Nat
  deriving DecidableEq

structure Span where
  start : Nat
  stop : Nat
  deriving DecidableEq

namespace Token

def Kind.letter? : Kind → Option Char
  | .beginPage => some 'p'
  | .comment => some '#'
  | .setSize => some 's'
  | .setFont => some 'f'
  | .charLiteral => some 'c'
  | .charNamed => some 'C'
  | .charIndexed => some 'N'
  | .moveAbsH => some 'H'
  | .moveAbsV => some 'V'
  | .moveRelH => some 'h'
  | .moveRelV => some 'v'
  | .movePrint => none
  | .informEol => some 'n'
  | .wordSpace => some 'w'
  | .drawing => some 'D'
  | .setColour => some 'm'
  | .textNormal => some 't'
  | .textTracked => some 'u'
  | .deviceControl => some 'x'

def Kind.name : Kind → String
  | .beginPage => "BeginPage"
  | .comment => "Comment"
  | .setSize => "SetSize"
  | .setFont => "SetFont"
  | .charLiteral => "CharLiteral"
  | .charNamed => "CharNamed"
  | .charIndexed => "CharIndexed"
  | .moveAbsH => "MoveAbsH"
  | .moveAbsV => "MoveAbsV"
  | .moveRelH => "MoveRelH"
  | .moveRelV => "MoveRelV"
  | .movePrint => "MovePrint"
  | .informEol => "InformEOL"
  | .wordSpace => "WordSpace"
  | .drawing => "Drawing"
  | .setColour => "SetColour"
  | .textNormal => "TextNormal"
  | .textTracked => "TextTracked"
  | .deviceControl => "DeviceControl"

/-- The bytes of the command, as if its letter were one byte and no blank came before the operand. -/
def span (t : Token) : Span := ⟨t.offset, t.offset + 1 + t.operand.utf8ByteSize⟩

/-- The command written out. One that runs to the end of the line needs a line break after it. -/
def display (t : Token) : String :=
  match t.kind.letter? with
  | none => t.operand
  | some c => (if t.kind = .deviceControl then "x " else String.singleton c) ++ t.operand

end Token

end Galley
