import Galley.Token.Class
/-!
The states of the tokenizer and what it does in each state with a character of each class.
-/
namespace Galley.Token

/-- How far the operand of the pending command has come. -/
inductive State where
  | start
  | numberLead
  | number
  | moveDigits
  /-- The next character is the operand. -/
  | literal
  /-- The operand runs to a blank. -/
  | name
  | eolLead
  | eolFirst
  | eolGap
  | eolSecond
  /-- The operand runs to the end of the line. -/
  | line
  | text
  deriving DecidableEq

inductive Action where
  | skip
  | command (kind : Kind) (state : State)
  /-- A command that is a letter and nothing else. -/
  | niladic (kind : Kind)
  | beginMove
  | goto (state : State)
  /-- The command ends before the character, which is then looked at again. -/
  | emit
  /-- The character is the last of the command. -/
  | emitWith
  deriving DecidableEq

def Kind.opening : Kind → Action
  | .comment => .command .comment .line
  | .charNamed => .command .charNamed .name
  | .charLiteral => .command .charLiteral .literal
  | .drawing => .command .drawing .line
  | .setColour => .command .setColour .line
  | .textTracked => .command .textTracked .line
  | .deviceControl => .command .deviceControl .line
  | .textNormal => .command .textNormal .text
  | .informEol => .command .informEol .eolLead
  | .wordSpace => .niladic .wordSpace
  | .movePrint => .beginMove
  | k => .command k .numberLead

/-- The transition table. A blank ends the operand of a text command only if so desired. -/
def action (legacy : Bool) : State → Class → Action
  | .start, .digit => .beginMove
  | .start, .command k => k.opening
  | .start, _ => .skip
  | .numberLead, .blank => .goto .numberLead
  | .numberLead, .sign => .goto .number
  | .numberLead, .digit => .goto .number
  | .number, .digit => .goto .number
  | .moveDigits, .digit => .goto .moveDigits
  | .moveDigits, .endOfLine => .emit
  | .moveDigits, .blank => .emit
  | .moveDigits, _ => .emitWith
  | .literal, .endOfLine => .emit
  | .literal, _ => .emitWith
  | .name, .endOfLine => .emit
  | .name, .blank => .emit
  | .name, _ => .goto .name
  | .eolLead, .blank => .goto .eolLead
  | .eolLead, .sign => .goto .eolFirst
  | .eolLead, .digit => .goto .eolFirst
  | .eolFirst, .digit => .goto .eolFirst
  | .eolFirst, .blank => .goto .eolGap
  | .eolGap, .blank => .goto .eolGap
  | .eolGap, .sign => .goto .eolSecond
  | .eolGap, .digit => .goto .eolSecond
  | .eolSecond, .digit => .goto .eolSecond
  | .line, .endOfLine => .emit
  | .line, _ => .goto .line
  | .text, .endOfLine => .emit
  | .text, .blank => if legacy then .emit else .goto .text
  | .text, _ => .goto .text
  | _, _ => .emit

end Galley.Token
