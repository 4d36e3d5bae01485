import Galley.Number.Notation
import Galley.Text.Quoted
/-! Data in JSON, written over lines with an indent of two blanks. -/
namespace Galley

inductive Json where
  | null
  | bool (b : Bool)
  | int (n : Int)
  | float (x : Float)
  | string (s : String)
  | array (elements : List Json)
  | object (fields : List (String × Json))

namespace Json

def sorted (fields : List (String × Json)) : Json :=
  .object (fields.mergeSort fun a b => a.1 ≤ b.1)

def escapeChar (c : Char) : List Char :=
  if c = '\x22' ∨ c = '\\' then ['\\', c]
  else if c = '\n' then ['\\', 'n']
  else if c = '\r' then ['\\', 'r']
  else if c = '\t' then ['\\', 't']
  else if c = '\x08' then ['\\', 'b']
  else if c = '\x0c' then ['\\', 'f']
  else if c.toNat < 0x20 then
    let ds := Text.hex c.toNat
    ['\\', 'u'] ++ List.replicate (4 - ds.length) '0' ++ ds
  else [c]

def quote (s : String) : String :=
  String.ofList ('\x22' :: s.toList.flatMap escapeChar ++ ['\x22'])

/-- Items in brackets, each on a line of its own one step further in. -/
def block (depth : Nat) (opening closing : String) (items : List String) : String :=
  let line (d : Nat) := "\n" ++ String.ofList (List.replicate (2 * d) ' ')
  if items.isEmpty then opening ++ closing
  else opening ++ line (depth + 1) ++ ("," ++ line (depth + 1)).intercalate items ++ line depth ++
    closing

mutual

def textAt (depth : Nat) : Json → String
  | .null => "null"
  | .bool b => if b then "true" else "false"
  | .int n => toString n
  | .float x => (Number.compact? x).getD "null"
  | .string s => quote s
  | .array es => block depth "[" "]" (elementTexts (depth + 1) es)
  | .object fs => block depth "\x7b" "\x7d" (fieldTexts (depth + 1) fs)

def elementTexts (depth : Nat) : List Json → List String
  | [] => []
  | x :: r => textAt depth x :: elementTexts depth r

def fieldTexts (depth : Nat) : List (String × Json) → List String
  | [] => []
  | (k, x) :: r => (quote k ++ ": " ++ textAt depth x) :: fieldTexts depth r

end

def text (x : Json) : String := x.textAt 0

end Json

end Galley
