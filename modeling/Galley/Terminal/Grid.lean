import Galley.Font.Style
/-! Pages of character cells, which grow where they are written to. -/
namespace Galley.Terminal

structure Cell where
  ch : Char
  face : Font.Face
  /-- An index in the palette, or -1 for the default colour. -/
  colour : Int
  deriving DecidableEq, Inhabited

namespace Cell

def blank : Cell := ⟨' ', .regular, -1⟩

def sameStyle (a b : Cell) : Bool := a.face = b.face ∧ a.colour = b.colour

end Cell

/-- Rows of cells, which may differ in length. -/
structure Grid where
  rows : Array (Array Cell)
  deriving DecidableEq

namespace Grid

def empty : Grid := ⟨#[]⟩

/-- The cell at a position. What is outside the rows is blank. -/
def get (g : Grid) (row col : Int) : Cell :=
  if row < 0 ∨ col < 0 then .blank
  else (g.rows[row.toNat]?.bind (·[col.toNat]?)).getD .blank

def grow {α : Type} (a : Array α) (n : Nat) (x : α) : Array α :=
  a ++ Array.replicate (n - a.size) x

theorem getElem?_grow {α : Type} (a : Array α) (n : Nat) (x : α) (i : Nat) :
    (grow a n x)[i]? = if i < a.size then a[i]? else if i < n then some x else none := by
  by_cases h : i < a.size
  · rw [if_pos h, grow, Array.getElem?_append_left h]
  · rw [if_neg h, grow, Array.getElem?_append_right (Nat.le_of_not_lt h), Array.getElem?_replicate]
    by_cases hn : i < n
    · rw [if_pos (by omega), if_pos hn]
    · rw [if_neg (by omega), if_neg hn]

theorem getD_getElem?_grow {α : Type} (a : Array α) (n : Nat) (x : α) (i : Nat) :
    (grow a n x)[i]?.getD x = a[i]?.getD x := by
  rw [getElem?_grow]
  split
  · rfl
  · next h =>
    rw [Array.getElem?_eq_none (Nat.le_of_not_lt h)]
    split <;> rfl

theorem size_grow {α : Type} (a : Array α) (n : Nat) (x : α) : (grow a n x).size = max a.size n := by
  simp [grow]; omega

def write (g : Grid) (row col : Nat) (cell : Cell) : Grid where
  rows := (grow g.rows (row + 1) #[]).modify row fun r =>
    (grow r (col + 1) .blank).setIfInBounds col cell

/-- Writes a cell; one at a negative position is dropped. -/
def set (g : Grid) (row col : Int) (cell : Cell) : Grid :=
  if row < 0 ∨ col < 0 then g else g.write row.toNat col.toNat cell

theorem get_natCast (g : Grid) (row col : Nat) :
    g.get row col = ((g.rows[row]?.getD #[])[col]?).getD .blank := by
  rw [get, if_neg (by omega), Int.toNat_natCast, Int.toNat_natCast]
  cases g.rows[row]? <;> rfl

theorem get_write (g : Grid) (row col i j : Nat) (cell : Cell) :
    (g.write row col cell).get i j = if i = row ∧ j = col then cell else g.get i j := by
  have hrow : row < (grow g.rows (row + 1) #[]).size := by rw [size_grow]; omega
  rw [get_natCast, get_natCast]
  by_cases hi : i = row
  · subst hi
    have hr : ((g.write i col cell).rows[i]?).getD #[] =
        (grow ((g.rows[i]?).getD #[]) (col + 1) .blank).setIfInBounds col cell := by
      rw [write, Array.getElem?_modify, if_pos rfl]
      rw [← getD_getElem?_grow g.rows (i + 1) #[] i, Array.getElem?_eq_getElem hrow,
        Option.map_some, Option.getD_some, Option.getD_some]
    rw [hr, Array.getElem?_setIfInBounds]
    by_cases hj : j = col
    · subst hj
      have : j < (grow ((g.rows[i]?).getD #[]) (j + 1) Cell.blank).size := by rw [size_grow]; omega
      simp [this]
    · rw [if_neg (Ne.symm hj), getD_getElem?_grow]
      simp [hj]
  · have hr : ((g.write row col cell).rows[i]?).getD #[] = (g.rows[i]?).getD #[] := by
      rw [write, Array.getElem?_modify, if_neg (Ne.symm hi), getD_getElem?_grow]
    rw [hr]
    simp [hi]

theorem get_set (g : Grid) (row col i j : Int) (cell : Cell) :
    (g.set row col cell).get i j =
      if 0 ≤ row ∧ 0 ≤ col ∧ i = row ∧ j = col then cell else g.get i j := by
  by_cases hn : row < 0 ∨ col < 0
  · rw [set, if_pos hn, if_neg (by omega)]
  · rw [set, if_neg hn]
    by_cases hm : i < 0 ∨ j < 0
    · rw [get, if_pos hm, get, if_pos hm, if_neg (by omega)]
    · obtain ⟨r, rfl⟩ := Int.eq_ofNat_of_zero_le (show 0 ≤ row by omega)
      obtain ⟨c, rfl⟩ := Int.eq_ofNat_of_zero_le (show 0 ≤ col by omega)
      obtain ⟨a, rfl⟩ := Int.eq_ofNat_of_zero_le (show 0 ≤ i by omega)
      obtain ⟨b, rfl⟩ := Int.eq_ofNat_of_zero_le (show 0 ≤ j by omega)
      rw [Int.toNat_natCast, Int.toNat_natCast, get_write]
      by_cases h : a = r ∧ b = c
      · rw [if_pos h, if_pos (by omega)]
      · rw [if_neg h, if_neg (by omega)]

def height (g : Grid) : Nat := g.rows.size

def width (g : Grid) : Nat := g.rows.foldl (fun n r => max n r.size) 0

def dropEnd {α : Type} (p : α → Bool) (l : List α) : List α := (l.reverse.dropWhile p).reverse

/-- The rows that are shown, if desired without blank cells at their ends and without empty rows
at the end. -/
def outputRows (g : Grid) (trim : Bool) : List (List Cell) :=
  let rows := g.rows.toList.map Array.toList
  if trim then dropEnd List.isEmpty (rows.map (dropEnd (· = .blank))) else rows

def rowText (g : Grid) (row : Nat) : String :=
  String.ofList ((g.rows[row]?.getD #[]).toList.map Cell.ch)

end Grid

end Galley.Terminal
