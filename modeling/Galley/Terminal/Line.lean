import Std.Data.HashMap
import Galley.Number.Integer
import Galley.Terminal.Arms
import Galley.Terminal.Grid
/-!
Lines of box drawing characters. The arms of a cell come from the direction of the line and from
the cells around it, so that lines that meet form corners, tees and crosses. They are kept beside
the grid, because the end of a line has one arm but looks like a whole line.
-/
namespace Galley.Terminal

/-- The arms of the line cells of a page. -/
abbrev Strokes := Std.HashMap (Int × Int) Arms

structure Plot where
  grid : Grid
  strokes : Strokes

namespace Plot

def empty : Plot := ⟨.empty, {}⟩

/-- The arms of a cell. If it was written over since, they are those of its character. -/
def armsAt (p : Plot) (row col : Int) : Arms :=
  let ch := (p.grid.get row col).ch
  match p.strokes[(row, col)]? with
  | some a => if a.char = ch then a else .ofChar ch
  | none => .ofChar ch

def merge (p : Plot) (style : Cell) (row col : Int) (a : Arms) : Plot :=
  if row < 0 ∨ col < 0 then p
  else
    let merged := a.union (p.armsAt row col)
    ⟨p.grid.set row col { style with ch := merged.char }, p.strokes.insert (row, col) merged⟩

/-- The arms that the cells around a cell stretch out to it. -/
def around (p : Plot) (row col : Int) : Arms where
  up := (p.armsAt (Number.add row (-1)) col).down
  down := (p.armsAt (Number.add row 1) col).up
  left := (p.armsAt row (Number.add col (-1))).right
  right := (p.armsAt row (Number.add col 1)).left

def visible (first last : Int) : List Int :=
  let first := max first 0
  (List.range (last + 1 - first).toNat).map fun i : Nat => first + i

def levelCell (style : Cell) (row first last : Int) (p : Plot) (col : Int) : Plot :=
  let a := (p.around row col).union ⟨false, false, first < col, col < last⟩
  p.merge style row col (if a = .none then ⟨false, false, true, true⟩ else a)

def uprightCell (style : Cell) (col first last : Int) (p : Plot) (row : Int) : Plot :=
  p.merge style row col ((p.around row col).union ⟨first < row, row < last, false, false⟩)

def rising : Char := '╱'

def falling : Char := '╲'

def crossed : Char := '╳'

def slantedCell (style : Cell) (ch opposite : Char) (p : Plot) (place : Int × Int) : Plot :=
  let (row, col) := place
  let existing := (p.grid.get row col).ch
  let ch := if existing = opposite ∨ existing = crossed then crossed else ch
  ⟨p.grid.set row col { style with ch := ch }, p.strokes.erase place⟩

/-- The first step at which a coordinate that moves in a direction is not negative. -/
def firstVisible? (start step : Int) : Option Int :=
  if 0 ≤ start then some 0 else if 0 < step then some (-start) else none

def slantedPlaces (r c dr dc steps : Int) : List (Int × Int) :=
  match firstVisible? r dr, firstVisible? c dc with
  | some i, some j =>
    ((visible (max i j) steps).map fun k => (r + k * dr, c + k * dc)).takeWhile fun (row, col) =>
      0 ≤ row && 0 ≤ col
  | _, _ => []

/-- Draws a line between two cells in a style. Lines that are neither level nor upright nor at 45
degrees cannot be drawn. -/
def line? (p : Plot) (start stop : Int × Int) (style : Cell) : Option Plot :=
  let (r, c) := start
  let (s, d) := stop
  if r = s then
    let (first, last) := (min c d, max c d)
    some (if r < 0 then p else (visible first last).foldl (levelCell style r first last) p)
  else if c = d then
    let (first, last) := (min r s, max r s)
    some (if c < 0 then p else (visible first last).foldl (uprightCell style c first last) p)
  else if (r - s).natAbs = (c - d).natAbs then
    let (dr, dc) := ((s - r).sign, (d - c).sign)
    let (ch, opposite) := if dr = dc then (falling, rising) else (rising, falling)
    some ((slantedPlaces r c dr dc (r - s).natAbs).foldl (slantedCell style ch opposite) p)
  else none

end Plot

end Galley.Terminal
