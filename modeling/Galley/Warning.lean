import Galley.Token.Basic
/-!
Warnings about commands that are not well formed. Reading a document never fails; each problem is
noted and something is done instead.
-/
namespace Galley

inductive Warning.Kind where
  | unknownGlyph (name : String)
  | invalidGlyphIndex (index : Int)
  | invalidNumber (text : String)
  | unknownColourScheme (scheme : String)
  | unknownDrawing (command : String)
  | unmountedFont (index : Int)
  deriving DecidableEq

structure Warning where
  span : Span
  kind : Warning.Kind
  deriving DecidableEq

namespace Warning

def Kind.message : Kind → String
  | .unknownGlyph name => s!"unknown glyph name `{name}`"
  | .invalidGlyphIndex index => s!"glyph index {index} is not a valid character"
  | .invalidNumber text =>
    if text.isEmpty then "missing number" else s!"invalid number `{text}`"
  | .unknownColourScheme scheme => s!"unknown colour scheme `{scheme}`"
  | .unknownDrawing command => s!"unknown drawing command `D{command}`"
  | .unmountedFont index => s!"no font is mounted at position {index}"

def Kind.action : Kind → String
  | .unknownGlyph _ => "nothing is printed"
  | .invalidGlyphIndex _ => "nothing is printed"
  | .invalidNumber _ => "the value 0 is used"
  | .unknownColourScheme _ => "the colour is not changed"
  | .unknownDrawing _ => "nothing is drawn"
  | .unmountedFont _ => "the font is selected without a name"

def display (w : Warning) : String :=
  w.kind.message ++ " (byte " ++ toString w.span.start ++ "); " ++ w.kind.action

end Warning

end Galley
