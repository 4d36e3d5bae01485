import Galley.Control.Resolution
import Galley.Pdf.Parse
/-! The start of a link: where it leads, and the size and look of its area. -/
namespace Galley

inductive Target where
  | uri (s : String)
  | destination (s : String)
  deriving DecidableEq

structure Link where
  /-- The distance of the top of the area above the baseline. -/
  rise : Int
  /-- The distance of the bottom of the area below the baseline. -/
  drop : Int
  leading : Int
  target : Option Target
  border : List Float
  colour : List Float
  raw : String

def Target.describe (quote : String → String) : Option Target → String
  | none => "None"
  | some (.uri s) => "Some(Uri(" ++ quote s ++ "))"
  | some (.destination s) => "Some(Destination(" ++ quote s ++ "))"

namespace Link

/-- A web address goes before a destination. -/
def targetOf (entries : Pdf.Entries) : Option Target :=
  let text (key : String) := (entries.value? key).bind Pdf.Object.text?
  match text "URI" with
  | some s => some (.uri s)
  | none =>
    match entries.value? "Dest" with
    | some d => d.text?.map .destination
    | none => (text "D").map .destination

def numbersOf (entries : Pdf.Entries) (key : String) : List Float :=
  ((entries.value? key).bind Pdf.Object.numbers?).getD []

/-- A word as a distance; a missing or malformed one is 0. -/
def distance (ws : List (List Char)) (i : Nat) : Int :=
  ((ws[i]?.bind Number.float?).map Number.ofFloat).getD 0

def parse (raw : List Char) : Link :=
  let ws := Text.words raw
  let source := String.ofList raw
  let entries := Pdf.parseEntries source
  { rise := distance ws 0
    drop := distance ws 1
    leading := distance ws 2
    target := targetOf entries
    border := numbersOf entries "Border"
    colour := numbersOf entries "Color"
    raw := source }

end Link

end Galley
