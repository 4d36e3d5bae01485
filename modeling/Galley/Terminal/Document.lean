import Galley.Terminal.Ansi
import Galley.Terminal.Markup
import Galley.Terminal.Screen
/-! Documents shown on a terminal. -/
namespace Galley.Terminal

inductive Format where
  | html | ansi | text
  deriving DecidableEq

structure Options where
  resolution : Resolution := ⟨240, 24, 40⟩
  /-- Whether blank cells and rows at the end are left out. -/
  trim : Bool := true
  format : Format := .html
  /-- Whether colours are shown. The document can turn them off and on. -/
  sgr : Bool := true

structure Document where
  options : Options
  screen : Screen
  warnings : List Warning
  /-- Why not all of the document is shown. -/
  failure : Option TooFine

namespace Document

def blank (options : Options) : Document :=
  ⟨options, .initial options.resolution options.sgr, [], none⟩

def ofTokens (options : Options) (ts : List Token) : Document :=
  let (s, failure) := Device.Session.run Terminal.screen
    ⟨.initial, .initial options.resolution options.sgr⟩ ts
  ⟨options, s.device, s.interpreter.warnings, failure⟩

def ofSource (options : Options) (legacy : Bool) (source : String) : Document :=
  ofTokens options (Token.tokenize legacy source)

def pages (d : Document) : List Grid := d.screen.pages.reverse

def joinPages (d : Document) (f : Grid → String) : String := "\n".intercalate (d.pages.map f)

def toHtml (d : Document) : String := d.joinPages (pageMarkup d.options.trim d.screen.sgr)

def toAnsi (d : Document) : String := ansiOfMarkup d.toHtml

def toText (d : Document) : String := d.joinPages (pageText d.options.trim)

def render (d : Document) : String :=
  match d.options.format with
  | .html => d.toHtml
  | .ansi => d.toAnsi
  | .text => d.toText

end Document

end Galley.Terminal
