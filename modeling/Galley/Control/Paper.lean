import Galley.Control.Resolution
/-! Paper sizes, given by name or by width and height. -/
namespace Galley.Paper

/-- Names of paper and its width and height in inches. -/
def sizes : List (String × Float × Float) := [
  ("letter", 8.5, 11),
  ("legal", 8.5, 14),
  ("tabloid", 11, 17),
  ("ledger", 17, 11),
  ("statement", 5.5, 8.5),
  ("executive", 7.25, 10.5),
  ("com10", 4.125, 9.5),
  ("monarch", 3.875, 7.5),
  ("dl", 110 / 25.4, 220 / 25.4),
  ("a3", 297 / 25.4, 420 / 25.4),
  ("a4", 210 / 25.4, 297 / 25.4),
  ("a5", 148 / 25.4, 210 / 25.4),
  ("b5", 176 / 25.4, 250 / 25.4),
  ("c5", 162 / 25.4, 229 / 25.4)]

def size? (name : String) : Option (Length × Length) :=
  (sizes.lookup name).map fun (w, h) => (.inches w, .inches h)

/-- A named size, or that size on its side if an `l` follows the name. -/
def named? (name : List Char) : Option (Length × Length) :=
  match size? (String.ofList name) with
  | some s => some s
  | none =>
    ("l".toList.isSuffixOf? name).bind fun upright =>
      (size? (String.ofList upright)).map Prod.swap

def parse? (s : List Char) : Option (Length × Length) :=
  match Text.cut (· == ',') s with
  | some (w, h) =>
    match Length.parse? w, Length.parse? h with
    | some w, some h => some (w, h)
    | _, _ => none
  | none => named? ((Text.trim s).map Char.toLower)

end Galley.Paper
