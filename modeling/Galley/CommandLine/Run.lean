import Galley.CommandLine.Arguments
import Galley.CommandLine.Listing
/-! What the program prints for its arguments and its input. -/
namespace Galley.CommandLine

structure Outcome where
  code : Nat
  stdout : String
  error : Option String
  deriving DecidableEq

namespace Outcome

def ok (stdout : String) : Outcome := ⟨0, stdout, none⟩

def failure (message : String) : Outcome := ⟨1, "", some ("Error: " ++ message)⟩

def usage : Outcome := ⟨2, "", none⟩

end Outcome

def name : String := "ditrofftools"

def versionText : String := name ++ " 0.1\n"

def helpText : String :=
  "Usage: " ++ name ++ " [-q] COMMAND [OPTIONS] PATH\n\n" ++
  "Commands: anchors, check, draw, outline, tokens, trace, tty\n"

def lines (ls : List String) : String := String.join (ls.map (· ++ "\n"))

def jsonLine (x : Json) : String := x.text ++ "\n"

def interpret (ts : List Token) : Interpreter := (Interpreter.initial.runAll ts).1

def anchorsText (json : Bool) (anchors : Anchors) : String :=
  if json then jsonLine (.object (anchors.toList.map fun (k, a) => (k, a.json)))
  else lines (anchors.toList.map fun (k, a) => k ++ " " ++ toString a.page ++ " " ++ toString a.v)

def checkOutcome (warnings : Nat) : Outcome :=
  match warnings with
  | 0 => .ok ""
  | 1 => .failure "check failure: 1 warning"
  | n => .failure ("check failure: " ++ toString n ++ " warnings")

def drawOutcome (page : Nat) (json : Bool) (ts : List Token) : Outcome :=
  match (Canvas.Document.ofTokens {} ts).renderPage Canvas.halfEm page with
  | .error e => .failure e.message
  | .ok (calls, hotspots) =>
    if json then
      .ok (jsonLine (.object [
        ("calls", .array (calls.map Canvas.Call.json)),
        ("hotspots", .array (hotspots.map Canvas.Hotspot.json))]))
    else .ok (lines (calls.map Canvas.Call.display ++ hotspots.map Canvas.Hotspot.display))

def ttyOutcome (format : Terminal.Format) (trim sgr : Bool) (ts : List Token) : Outcome :=
  let d := Terminal.Document.ofTokens { trim := trim, format := format, sgr := sgr } ts
  match d.failure with
  | some e => .failure e.message
  | none => .ok d.render

def Command.run (c : Command) (ts : List Token) : Outcome :=
  match c with
  | .anchors json => .ok (anchorsText json (interpret ts).anchors)
  | .check => checkOutcome (interpret ts).warnings.length
  | .draw page json => drawOutcome page json ts
  | .outline json =>
    let o := (interpret ts).outline
    .ok (if json then jsonLine o.json else o.display)
  | .tokens json =>
    .ok (if json then jsonLine (.array (ts.map Token.json)) else lines (ts.map Token.display))
  | .trace => .ok (lines ((Interpreter.initial.runAll ts).2.map Device.Call.describe))
  | .tty format trim sgr => ttyOutcome format trim sgr ts

def standardInput : String := "-"

def unreadable (path reason : String) : Outcome :=
  if path = standardInput then .failure ("failed to read standard input: " ++ reason)
  else .failure ("failed to read `" ++ path ++ "`: " ++ reason)

def runOn (c : Command) (legacy : Bool) (path : String) : Except String String → Outcome
  | .ok source => c.run (Token.tokenize legacy source)
  | .error reason => unreadable path reason

/-- Does what is asked for, given what can be read from each path. -/
def run (legacy : Bool) (read : String → Except String String) (args : List String) : Outcome :=
  match parse args with
  | none => .usage
  | some .help => .ok helpText
  | some .version => .ok versionText
  | some (.run _ c path) => runOn c legacy path (read path)

end Galley.CommandLine
