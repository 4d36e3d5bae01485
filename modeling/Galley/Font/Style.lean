/-! The look of the fonts that typesetters name, and a guess for the other names. -/
namespace Galley.Font

inductive Weight where
  | normal | bold
  deriving DecidableEq

inductive Slant where
  | roman | italic | oblique
  deriving DecidableEq

structure Style where
  family : String
  weight : Weight
  slant : Slant
  deriving DecidableEq

def Weight.css : Weight → String
  | .normal => "normal"
  | .bold => "bold"

def Weight.name : Weight → String
  | .normal => "Normal"
  | .bold => "Bold"

def Slant.css : Slant → String
  | .roman => "normal"
  | .italic => "italic"
  | .oblique => "oblique"

def Slant.name : Slant → String
  | .roman => "Roman"
  | .italic => "Italic"
  | .oblique => "Oblique"

def family (family stem : String) (slant : Slant) : List (String × Style) := [
  (stem ++ "R", ⟨family, .normal, .roman⟩),
  (stem ++ "B", ⟨family, .bold, .roman⟩),
  (stem ++ "I", ⟨family, .normal, slant⟩),
  (stem ++ "BI", ⟨family, .bold, slant⟩)]

def styles : List (String × Style) :=
  family "Avant Garde" "A" .oblique ++
  family "Bookman" "BM" .italic ++
  family "Courier" "C" .oblique ++
  family "Helvetica" "H" .oblique ++
  family "Helvetica Narrow" "HN" .oblique ++
  family "New Century Schoolbook" "N" .italic ++
  family "Palatino" "P" .italic ++
  family "Times" "T" .italic ++
  family "monospace" "" .italic ++
  family "Computer Modern" "CM" .italic ++ [
    ("ZCMI", ⟨"Zapf Chancery", .normal, .italic⟩),
    ("ZD", ⟨"Zapf Dingbats", .normal, .roman⟩),
    ("S", ⟨"Symbol", .normal, .roman⟩),
    ("SS", ⟨"Symbol", .normal, .oblique⟩)]

def style? (name : String) : Option Style := styles.lookup name

/-- What the end of a font's name says about its weight and slant. -/
inductive Face where
  | regular | bold | italic | boldItalic
  deriving DecidableEq, Inhabited

def Face.ofName (name : String) : Face :=
  let ends (s : String) := s.toList.isSuffixOf name.toList
  if ends "BI" then .boldItalic
  else if ends "B" then .bold
  else if ends "I" then .italic
  else .regular

def Face.isBold (f : Face) : Bool := f = .bold ∨ f = .boldItalic

def Face.isItalic (f : Face) : Bool := f = .italic ∨ f = .boldItalic

def Face.code : Face → String
  | .regular => "R"
  | .bold => "B"
  | .italic => "I"
  | .boldItalic => "BI"

def styleOrGuess (name : String) : Style :=
  match style? name with
  | some s => s
  | none =>
    let face := Face.ofName name
    ⟨"serif", if face.isBold then .bold else .normal, if face.isItalic then .italic else .roman⟩

end Galley.Font
