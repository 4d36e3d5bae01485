import Galley.Number.Integer
import Galley.Text.Encoding
import Galley.Text.Space
/-!
The small markup language of terminal pages turned into escape sequences. Bold, underlined and
coloured text are elements; markup that is not known stays as it is.
-/
namespace Galley.Terminal

def sgrSequence (codes : String) : String := "\x1b[" ++ codes ++ "m"

def colourIn? (element : String) (tag : List Char) : Option Nat :=
  ((element ++ " data-sgr=\"").toList.isPrefixOf? tag).bind fun r =>
    ("\"".toList.isSuffixOf? r).bind (Number.below? 10 256)

/-- The sequence for a tag that carries a colour. A bold element remembers that it has one. -/
def colourTag? (tag : List Char) (bold : List Bool) : Option (String × List Bool) :=
  match colourIn? "b" tag with
  | some n => some (sgrSequence s!"1;38;5;{n}", true :: bold)
  | none => (colourIn? "span" tag).map fun n => (sgrSequence s!"38;5;{n}", bold)

/-- The sequence for a tag, given for each open bold element whether it set a colour. Closing a
bold element that set one also goes back to the default colour. -/
def tag? (tag : List Char) (bold : List Bool) : Option (String × List Bool) :=
  match String.ofList tag with
  | "b" => some (sgrSequence "1", false :: bold)
  | "u" => some (sgrSequence "4", bold)
  | "/b" =>
    match bold with
    | true :: r => some (sgrSequence "22" ++ sgrSequence "39", r)
    | _ => some (sgrSequence "22", bold.drop 1)
  | "/u" => some (sgrSequence "24", bold)
  | "/span" => some (sgrSequence "39", bold)
  | _ => colourTag? tag bold

/-- The character of a number sign and digits, in base 16 after an `x`. -/
def reference? : List Char → Option Char
  | '#' :: 'x' :: s => (Number.natural? 16 s).bind Text.char?
  | '#' :: 'X' :: s => (Number.natural? 16 s).bind Text.char?
  | '#' :: s => (Number.natural? 10 s).bind Text.char?
  | _ => none

def entity? (name : List Char) : Option Char :=
  match String.ofList name with
  | "lt" => some '<'
  | "gt" => some '>'
  | "amp" => some '&'
  | _ => reference? name

/-- Markup as text with escape sequences, given the open bold elements. -/
def ansiFrom (bold : List Bool) (s : List Char) : List Char :=
  match s with
  | [] => []
  | c :: r =>
    if c = '<' then
      match h : Text.cut (· == '>') r with
      | none => c :: ansiFrom bold r
      | some (name, rest) =>
        have : rest.length < r.length := Text.cut_length h
        match tag? name bold with
        | none => c :: ansiFrom bold r
        | some (sequence, still) => sequence.toList ++ ansiFrom still rest
    else if c = '&' then
      match h : Text.cut (· == ';') r with
      | none => c :: ansiFrom bold r
      | some (name, rest) =>
        have : rest.length < r.length := Text.cut_length h
        match entity? name with
        | none => c :: ansiFrom bold r
        | some x => x :: ansiFrom bold rest
    else c :: ansiFrom bold r
termination_by s.length
decreasing_by all_goals simp <;> omega

def ansiOfMarkup (markup : String) : String := String.ofList (ansiFrom [] markup.toList)

end Galley.Terminal
