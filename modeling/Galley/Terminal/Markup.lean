import Galley.Terminal.Grid
/-!
Pages as a small markup language: bold and underlined elements, and elements and bold elements that
carry a colour number.
-/
namespace Galley.Terminal

def markupChar : Char → List Char
  | '<' => "&lt;".toList
  | '>' => "&gt;".toList
  | '&' => "&amp;".toList
  | c => [c]

def colourTags (style : Cell) (sgr : Bool) : String × String :=
  let coloured := sgr && 0 ≤ style.colour
  match style.face.isBold, coloured with
  | true, true => (s!"<b data-sgr=\"{style.colour}\">", "</b>")
  | true, false => ("<b>", "</b>")
  | false, true => (s!"<span data-sgr=\"{style.colour}\">", "</span>")
  | false, false => ("", "")

def underlineTags (style : Cell) : String × String :=
  if style.face.isItalic then ("<u>", "</u>") else ("", "")

def runMarkup (sgr : Bool) (cells : List Cell) : String :=
  let style := cells.headD .blank
  let (colour, colourEnd) := colourTags style sgr
  let (line, lineEnd) := underlineTags style
  colour ++ line ++ String.ofList (cells.flatMap fun c => markupChar c.ch) ++ lineEnd ++ colourEnd

def rowMarkup (sgr : Bool) (row : List Cell) : String :=
  String.join ((row.splitBy Cell.sameStyle).map (runMarkup sgr))

def pageMarkup (trim sgr : Bool) (g : Grid) : String :=
  String.join ((g.outputRows trim).map fun row => rowMarkup sgr row ++ "\n")

def pageText (trim : Bool) (g : Grid) : String :=
  String.join ((g.outputRows trim).map fun row => String.ofList (row.map Cell.ch) ++ "\n")

end Galley.Terminal
