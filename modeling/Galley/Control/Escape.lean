import Galley.Control.Link
import Galley.Control.Paper
/-! Device escapes: text that a document passes through to the device. -/
namespace Galley

/-- What a piece of page description code says that matters here. -/
structure Setting where
  rotate : Option Float
  lineCap : Option Int
  lineJoin : Option Int

namespace Setting

def unset : Setting := ⟨none, none, none⟩

def take (s : Setting) (operand operator : List Char) : Setting :=
  match Number.float? operand with
  | none => s
  | some n =>
    match String.ofList operator with
    | "rotate" => { s with rotate := some n }
    | "setlinecap" => { s with lineCap := some (Number.truncate n) }
    | "setlinejoin" => { s with lineJoin := some (Number.truncate n) }
    | _ => s

/-- Takes in every two neighbouring words; the last of several settings counts. -/
def ofWords (s : Setting) : List (List Char) → Setting
  | a :: b :: r => ofWords (s.take a b) (b :: r)
  | _ => s

def parse (code : List Char) : Setting := ofWords unset (Text.words code)

end Setting

inductive Escape where
  | invisible
  | endInvisible
  /-- Code for the page, kept because it may hold marks. -/
  | exec (setting : Setting) (code : String)
  | markStart (link : Link)
  | markEnd | markSuspend | markRestart
  | reverse
  | paperSize (width height : Length)
  | sgr (enabled : Bool)
  | other (text : String)

namespace Escape

def headWord (s : List Char) : List Char × List Char :=
  match Text.cut Text.isSpace s with
  | some (w, r) => (w, Text.trim r)
  | none => (s, [])

def tagged? (tag keyword : String) (args : List Char) : Option Escape :=
  match tag, keyword with
  | "ps", "invis" => some .invisible
  | "ps", "endinvis" => some .endInvisible
  | "ps", "exec" => some (.exec (Setting.parse args) (String.ofList args))
  | "pdf", "markstart" => some (.markStart (Link.parse args))
  | "pdf", "markend" => some .markEnd
  | "pdf", "marksuspend" => some .markSuspend
  | "pdf", "markrestart" => some .markRestart
  | "pdf", "xrev" => some .reverse
  | "tty", "sgr" => some (.sgr (((Number.coordinate? args).map (· != 0)).getD true))
  | _, _ => none

def known? (s : List Char) : Option Escape :=
  match "papersize=".toList.isPrefixOf? s with
  | some value => (Paper.parse? value).map fun (w, h) => .paperSize w h
  | none =>
    (Text.cut (· == ':') s).bind fun (tag, rest) =>
      let (keyword, args) := headWord (Text.trimStart rest)
      tagged? (String.ofList tag) (String.ofList keyword) args

def parse (s : List Char) : Escape :=
  let s := Text.trim s
  (known? s).getD (.other (String.ofList s))

end Escape

end Galley
