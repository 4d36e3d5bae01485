import Galley.Control.Escape
/-! Device control: a word of which only the first letter counts, and its arguments. -/
namespace Galley

inductive Control where
  | device (name : String)
  | resolution (r : Resolution)
  | init
  | mountFont (index : Int) (name : String)
  | sourceFile (name : String)
  /-- The height of characters; 0 is the type size. -/
  | charHeight (n : Int)
  /-- The slant of characters in degrees. -/
  | slant (n : Int)
  | escape (e : Escape)
  | pause | stop | trailer
  | other (text : String)

namespace Control

/-- A word as a device number; a missing or malformed one is 0. -/
def numberAt (ws : List (List Char)) (i : Nat) : Int :=
  (ws[i]?.bind Number.coordinate?).getD 0

def parse (operand : String) : Control :=
  let s := Text.trim operand.toList
  let (command, args) := Escape.headWord s
  let ws := Text.words args
  match command.head? with
  | some 'T' => .device (String.ofList args)
  | some 'r' => .resolution ⟨numberAt ws 0, numberAt ws 1, numberAt ws 2⟩
  | some 'i' => .init
  | some 'f' => .mountFont (numberAt ws 0) (String.ofList (ws[1]?.getD []))
  | some 'F' => .sourceFile (String.ofList args)
  | some 'H' => .charHeight (numberAt ws 0)
  | some 'S' => .slant (numberAt ws 0)
  | some 'X' => .escape (Escape.parse args)
  | some 'p' => .pause
  | some 's' => .stop
  | some 't' => .trailer
  | _ => .other (String.ofList s)

end Control

end Galley
