import Galley.Colour.Basic
import Galley.Control.Basic
import Galley.Drawing
import Galley.Number.Notation
import Galley.Text.Quoted
/-! The calls that an interpreted document makes on an output device. -/
namespace Galley.Device

/-- A piece of text that is printed together with the moves in it. -/
inductive RunPiece where
  | text (s : String)
  | moveTo (h : Int)
  | moveBy (dh : Int)
  | wordSpace
  deriving DecidableEq

inductive Call where
  | resolution (r : Resolution)
  | device (name : String)
  | sourceFile (name : String)
  | mountFont (index : Int) (name : String)
  | beginPage (number : Int)
  | endPage
  | setSize (size : Int)
  /-- Selects a font; nothing may be mounted at its position. -/
  | setFont (index : Int) (name : Option String)
  | moveToH (h : Int)
  | moveByH (dh : Int)
  | moveToV (v : Int)
  | moveByV (dv : Int)
  /-- Prints without moving. -/
  | printGlyph (s : String)
  /-- Prints and moves on after each character by its width and the tracking. -/
  | printText (s : String) (tracking : Int)
  | textRun (run : List RunPiece)
  | endOfLine (before after : Int)
  | wordSpace
  /-- Draws at the current position, which the device then moves by the advance. -/
  | draw (d : Drawing)
  | strokeColour (c : Colour)
  | fillColour (c : Colour)
  | charHeight (n : Int)
  | slant (degrees : Int)
  | visible (on : Bool)
  | rotate (degrees : Float)
  | lineCap (code : Int)
  | lineJoin (code : Int)
  | markStart (link : Link)
  | markEnd | markSuspend | markRestart
  | reverse
  | paperSize (width height : Int)
  | sgr (on : Bool)
  | deviceEscape (s : String)
  | deviceControl (s : String)

def RunPiece.call : RunPiece → Call
  | .text s => .printText s 0
  | .moveTo h => .moveToH h
  | .moveBy dh => .moveByH dh
  | .wordSpace => .wordSpace

def Call.expand : Call → List Call
  | .textRun run => run.map RunPiece.call
  | c => [c]

def RunPiece.describe : RunPiece → String
  | .text s => "Text(" ++ Text.quote s ++ ")"
  | .moveTo h => s!"MoveTo({h})"
  | .moveBy dh => s!"MoveBy({dh})"
  | .wordSpace => "WordSpace"

def Call.describe : Call → String
  | .resolution r => s!"resolution {r.unitsPerInch} {r.horizontal} {r.vertical}"
  | .device name => s!"device {name}"
  | .sourceFile name => s!"source_file {name}"
  | .mountFont index name => s!"mount_font {index} {name}"
  | .beginPage number => s!"begin_page {number}"
  | .endPage => "end_page"
  | .setSize size => s!"set_size {size}"
  | .setFont index name => s!"set_font {index} " ++ name.getD "-"
  | .moveToH h => s!"move_to_h {h}"
  | .moveByH dh => s!"move_by_h {dh}"
  | .moveToV v => s!"move_to_v {v}"
  | .moveByV dv => s!"move_by_v {dv}"
  | .printGlyph s => s!"print_glyph {s}"
  | .printText s tracking => "print_text " ++ Text.quote s ++ s!" {tracking}"
  | .textRun run => "text_run [" ++ ", ".intercalate (run.map RunPiece.describe) ++ "]"
  | .endOfLine before after => s!"end_of_line {before} {after}"
  | .wordSpace => "word_space"
  | .draw d => "draw " ++ d.describe
  | .strokeColour c => "stroke " ++ c.describe
  | .fillColour c => "fill " ++ c.describe
  | .charHeight n => s!"char_height {n}"
  | .slant degrees => s!"slant {degrees}"
  | .visible on => s!"visible {on}"
  | .rotate degrees => "rotate " ++ Number.plain degrees
  | .lineCap code => s!"line_cap {code}"
  | .lineJoin code => s!"line_join {code}"
  | .markStart link => "mark_start " ++ Target.describe Text.quote link.target
  | .markEnd => "mark_end"
  | .markSuspend => "mark_suspend"
  | .markRestart => "mark_restart"
  | .reverse => "mirror"
  | .paperSize width height => s!"paper_size {width} {height}"
  | .sgr on => s!"sgr {on}"
  | .deviceEscape s => s!"device_escape {s}"
  | .deviceControl s => s!"device_control {s}"

end Galley.Device
