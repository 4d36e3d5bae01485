import Galley.Colour.Basic
import Galley.Control.Basic
import Galley.Warning
/-! Operands read with a value in any case, together with what was wrong with them. -/
namespace Galley.Interpreter

abbrev Problems := List Warning.Kind

/-- Reads a device number; 0 stands in for one that is missing or malformed. -/
def readInt (s : List Char) : Int × Problems :=
  match Number.coordinate? (Text.trim s) with
  | some n => (n, [])
  | none => (0, [.invalidNumber (String.ofList s)])

/-- Reads a finite number; 0 stands in for any other. -/
def readFloat (s : List Char) : Float × Problems :=
  match (Number.float? (Text.trim s)).filter Float.isFinite with
  | some x => (x, [])
  | none => (0, [.invalidNumber (String.ofList s)])

def readAll {α : Type} (read : List Char → α × Problems) (ws : List (List Char)) :
    List α × Problems :=
  (ws.map fun w => (read w).1, ws.flatMap fun w => (read w).2)

def readColour (s : List Char) : Option Colour × Problems :=
  let s := Text.trimStart s
  let scheme := String.ofList (s.take 1)
  let (args, problems) := readAll readFloat (Text.words (s.drop 1))
  match Colour.ofScheme? scheme args with
  | some c => (some c, problems)
  | none => (none, problems ++ [.unknownColourScheme scheme])

end Galley.Interpreter
