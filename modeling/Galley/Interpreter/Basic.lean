import Std.Data.TreeMap
import Galley.Device.Call
import Galley.Font.Symbols
import Galley.Glyph.Resolve
import Galley.Interpreter.Reading
import Galley.Pdf.Mark
import Galley.Token.Tokenizer
/-!
The interpreter: what each command does to its state and which calls it makes on the device.
Text, and the moves and word spaces after it, are held back and printed together as a run.
-/
namespace Galley
open Device

/-- The place of a named destination: a page counted from 1, and a vertical position. -/
structure Anchor where
  page : Nat
  v : Int
  deriving DecidableEq

abbrev Anchors := Std.TreeMap String Anchor

structure Interpreter where
  /-- The fonts that were mounted and their positions, latest first. -/
  mounts : List (Int × String)
  /-- The position of the selected font. -/
  font : Int
  symbolMap : Option Font.SymbolMap
  resolution : Resolution
  /-- The number of pages begun. -/
  page : Nat
  inPage : Bool
  v : Int
  /-- The run that is held back. -/
  pending : List RunPiece
  anchors : Anchors
  entries : List Outline.Entry
  warnings : List Warning

namespace Interpreter

/-- A run is printed at the latest when it has so many pieces. -/
def runCapacity : Nat := 64

def initial : Interpreter where
  mounts := []
  font := 0
  symbolMap := none
  resolution := .initial
  page := 0
  inPage := false
  v := 0
  pending := []
  anchors := {}
  entries := []
  warnings := []

/-- What a command does: the state after it, its calls, and what was wrong with it. -/
structure Effect where
  state : Interpreter
  calls : List Call
  problems : Problems

def remap (st : Interpreter) (s : String) : String :=
  match st.symbolMap with
  | some m => m.remap s
  | none => s

def mounted? (st : Interpreter) (index : Int) : Option String := st.mounts.lookup index

def beginPage (st : Interpreter) (number : Int) : Interpreter × List Call :=
  ({ st with page := st.page + 1, inPage := true, v := 0 },
    if st.inPage then [.endPage, .beginPage number] else [.beginPage number])

def endPage (st : Interpreter) : Interpreter × List Call :=
  if st.inPage then ({ st with inPage := false }, [.endPage]) else (st, [])

def takeMark (st : Interpreter) (m : Pdf.Mark) : Interpreter :=
  let st := match m.destination? with
    | some name => { st with anchors := st.anchors.insert name ⟨st.page, st.v⟩ }
    | none => st
  { st with entries := st.entries ++ m.entry?.toList }

def takeMarks (st : Interpreter) (text : String) : Interpreter :=
  (Pdf.marks text).foldl takeMark st

def selectFont (st : Interpreter) (s : List Char) : Effect :=
  let (index, problems) := readInt s
  let name := st.mounted? index
  { state := { st with font := index, symbolMap := name.bind Font.SymbolMap.ofFont? }
    calls := [.setFont index name]
    problems := if name.isNone then problems ++ [.unmountedFont index] else problems }

def mountFont (st : Interpreter) (index : Int) (name : String) : Interpreter :=
  { st with
    mounts := (index, name) :: st.mounts
    symbolMap := if index = st.font then Font.SymbolMap.ofFont? name else st.symbolMap }

/-- Prints the glyph of a name. A name of one character is that character in the selected font. -/
def namedGlyph (st : Interpreter) (name : String) : Effect :=
  match Glyph.resolve name with
  | some s => ⟨st, [.printGlyph (if name.length = 1 then st.remap s else s)], []⟩
  | none => ⟨st, [], [.unknownGlyph name]⟩

def indexed? (index : Int) : Option Char := if 0 ≤ index then Text.char? index.toNat else none

def indexedGlyph (st : Interpreter) (s : List Char) : Effect :=
  let (index, problems) := readInt s
  match indexed? index with
  | some c => ⟨st, [.printGlyph (st.remap (String.singleton c))], problems⟩
  | none => ⟨st, [], problems ++ [.invalidGlyphIndex index]⟩

def movePrint (st : Interpreter) (s : List Char) : Effect :=
  let (dh, problems) := readInt (s.takeWhile Number.isDigit)
  let glyph := st.remap (String.ofList (s.dropWhile Number.isDigit))
  ⟨st, [.moveByH dh, .printGlyph glyph], problems⟩

def endOfLine (st : Interpreter) (s : List Char) : Effect :=
  let ws := Text.words s
  let (before, p) := readInt (ws[0]?.getD [])
  let (after, q) := readInt (ws[1]?.getD [])
  ⟨st, [.endOfLine before after], p ++ q⟩

def trackedText (st : Interpreter) (s : List Char) : Effect :=
  let (number, text) := (Text.cut Text.isSpace s).getD (s, [])
  let (tracking, problems) := readInt number
  ⟨st, [.printText (st.remap (String.ofList (Text.trimStart text))) tracking], problems⟩

def drawShape (st : Interpreter) (letter : Char) (s : List Char) : Effect :=
  let (args, problems) := readAll readInt (Text.words s)
  match Drawing.ofLetter? letter args with
  | some d => ⟨{ st with v := Number.add st.v d.advance.2 }, [.draw d], problems⟩
  | none => ⟨st, [], problems ++ [.unknownDrawing (String.singleton letter)]⟩

def drawing (st : Interpreter) : List Char → Effect
  | [] => ⟨st, [], [.unknownDrawing ""]⟩
  | 'f' :: s =>
    let (shade, problems) := readFloat ((Text.words s)[0]?.getD [])
    ⟨st, [.fillColour (.ofShade shade)], problems⟩
  | 'F' :: s =>
    let (colour, problems) := readColour s
    ⟨st, (colour.map Call.fillColour).toList, problems⟩
  | letter :: s => drawShape st letter s

def escape (st : Interpreter) : Escape → Interpreter × List Call
  | .invisible => (st, [.visible false])
  | .endInvisible => (st, [.visible true])
  | .exec s code =>
    (st.takeMarks code, (s.rotate.map Call.rotate).toList ++
      (s.lineCap.map Call.lineCap).toList ++ (s.lineJoin.map Call.lineJoin).toList)
  | .markStart link => (st, [.markStart link])
  | .markEnd => (st, [.markEnd])
  | .markSuspend => (st, [.markSuspend])
  | .markRestart => (st, [.markRestart])
  | .reverse => (st, [.reverse])
  | .paperSize w h =>
    let units := st.resolution.unitsPerInch
    (st, [.paperSize (w.toUnits units) (h.toUnits units)])
  | .sgr on => (st, [.sgr on])
  | .other text => (st.takeMarks text, [.deviceEscape text])

def control (st : Interpreter) : Control → Interpreter × List Call
  | .device name => (st, [.device name])
  | .resolution r => ({ st with resolution := r }, [.resolution r])
  | .init => (st, [])
  | .mountFont index name => (st.mountFont index name, [.mountFont index name])
  | .sourceFile name => (st, [.sourceFile name])
  | .charHeight n => (st, [.charHeight n])
  | .slant n => (st, [.slant n])
  | .escape e => st.escape e
  | .pause => (st, [])
  | .stop => st.endPage
  | .trailer => (st, [])
  | .other text => (st, [.deviceControl text])

def Effect.ofPair (p : Interpreter × List Call) (problems : Problems) : Effect :=
  ⟨p.1, p.2, problems⟩

/-- What a command does by itself, without regard to runs. -/
def perform (st : Interpreter) (t : Token) : Effect :=
  let s := t.operand.toList
  match t.kind with
  | .beginPage => let (n, problems) := readInt s; .ofPair (st.beginPage n) problems
  | .comment => ⟨st, [], []⟩
  | .setSize => let (n, problems) := readInt s; ⟨st, [.setSize n], problems⟩
  | .setFont => st.selectFont s
  | .charLiteral => ⟨st, if s.isEmpty then [] else [.printGlyph (st.remap t.operand)], []⟩
  | .charNamed => st.namedGlyph t.operand
  | .charIndexed => st.indexedGlyph s
  | .moveAbsH => let (n, problems) := readInt s; ⟨st, [.moveToH n], problems⟩
  | .moveRelH => let (n, problems) := readInt s; ⟨st, [.moveByH n], problems⟩
  | .moveAbsV => let (n, problems) := readInt s; ⟨{ st with v := n }, [.moveToV n], problems⟩
  | .moveRelV =>
    let (n, problems) := readInt s
    ⟨{ st with v := Number.add st.v n }, [.moveByV n], problems⟩
  | .movePrint => st.movePrint s
  | .informEol => st.endOfLine s
  | .wordSpace => ⟨st, [.wordSpace], []⟩
  | .drawing => st.drawing s
  | .setColour =>
    let (colour, problems) := readColour s
    ⟨st, (colour.map Call.strokeColour).toList, problems⟩
  | .textNormal => ⟨st, [.printText (st.remap t.operand) 0], []⟩
  | .textTracked => st.trackedText s
  | .deviceControl => .ofPair (st.control (Control.parse t.operand)) []

/-- The piece of a run that a command is. Moves and word spaces only go on with a run. -/
def piece? (st : Interpreter) (t : Token) : Option (RunPiece × Problems) :=
  let s := t.operand.toList
  if t.kind = .textNormal then some (.text (st.remap t.operand), [])
  else if st.pending.isEmpty then none
  else match t.kind with
    | .moveAbsH => let (n, problems) := readInt s; some (.moveTo n, problems)
    | .moveRelH => let (n, problems) := readInt s; some (.moveBy n, problems)
    | .wordSpace => some (.wordSpace, [])
    | _ => none

def warn (st : Interpreter) (t : Token) (problems : Problems) : Interpreter :=
  if problems.isEmpty then st
  else { st with warnings := st.warnings ++ problems.map fun k => ⟨t.span, k⟩ }

def flush (st : Interpreter) : Interpreter × List Call :=
  if st.pending.isEmpty then (st, []) else ({ st with pending := [] }, [.textRun st.pending])

/-- Holds a piece back, unless the run is then full. -/
def hold (st : Interpreter) (p : RunPiece) : Interpreter × List Call :=
  let st := { st with pending := st.pending ++ [p] }
  if runCapacity ≤ st.pending.length then st.flush else (st, [])

def exec (st : Interpreter) (t : Token) : Interpreter × List Call :=
  match st.piece? t with
  | some (p, problems) => (st.warn t problems).hold p
  | none =>
    let (st, before) := st.flush
    let e := st.perform t
    (e.state.warn t e.problems, before ++ e.calls)

def finish (st : Interpreter) : Interpreter × List Call :=
  let (st, before) := st.flush
  let (st, calls) := st.endPage
  (st, before ++ calls)

def execAll (st : Interpreter) : List Token → Interpreter × List Call
  | [] => (st, [])
  | t :: ts =>
    let (st, calls) := st.exec t
    let (st, more) := st.execAll ts
    (st, calls ++ more)

theorem execAll_append (st : Interpreter) (ts us : List Token) :
    st.execAll (ts ++ us) =
      (((st.execAll ts).1.execAll us).1, (st.execAll ts).2 ++ ((st.execAll ts).1.execAll us).2) := by
  induction ts generalizing st with
  | nil => rfl
  | cons t ts ih => simp [execAll, ih]

def runAll (st : Interpreter) (ts : List Token) : Interpreter × List Call :=
  let (st, calls) := st.execAll ts
  let (st, last) := st.finish
  (st, calls ++ last)

def outline (st : Interpreter) : Outline := Outline.build st.entries

end Interpreter

end Galley
