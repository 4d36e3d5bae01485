import Mathlib.Data.List.Induction
import Galley.Terminal.Grid
/-!
A grid as a map from positions to cells. What is read at a position was written there last, and
there are as many rows, and as many cells in each, as the writes that are not dropped need.
-/
namespace Galley.Terminal

structure Write where
  row : Int
  col : Int
  cell : Cell
  deriving DecidableEq

namespace Write

/-- The cell of the last write at a position. -/
def last? (ws : List Write) (row col : Int) : Option Cell :=
  (ws.reverse.find? fun w => w.row = row ∧ w.col = col).map Write.cell

theorem last?_concat (ws : List Write) (w : Write) (row col : Int) :
    last? (ws ++ [w]) row col =
      if w.row = row ∧ w.col = col then some w.cell else last? ws row col := by
  rw [last?, List.reverse_concat, List.find?_cons]
  by_cases h : w.row = row ∧ w.col = col
  · simp [h]
  · simp only [h, decide_false, if_false]
    rfl

/-- The place of a write; one at a negative position has none. -/
def place? (w : Write) : Option (Nat × Nat) :=
  if w.row < 0 ∨ w.col < 0 then none else some (w.row.toNat, w.col.toNat)

def places (ws : List Write) : List (Nat × Nat) := ws.filterMap place?

theorem places_concat (ws : List Write) (w : Write) :
    places (ws ++ [w]) = places ws ++ w.place?.toList := by
  rw [places, List.filterMap_append]
  cases h : w.place? <;> simp [places, h]

def rows (ws : List Write) : List Nat := (places ws).map Prod.fst

def columns (ws : List Write) (row : Nat) : List Nat :=
  ((places ws).filter (·.1 = row)).map Prod.snd

end Write

/-- One more than the largest number, or 0 if there is none. -/
def beyond (ns : List Nat) : Nat := (ns.max?.map (· + 1)).getD 0

theorem beyond_concat (ns : List Nat) (n : Nat) : beyond (ns ++ [n]) = max (beyond ns) (n + 1) := by
  cases ns with
  | nil => simp [beyond]
  | cons m ns =>
    rw [beyond, beyond, List.cons_append, List.max?_cons', List.max?_cons', List.foldl_append]
    simp only [List.foldl_cons, List.foldl_nil, Option.map_some, Option.getD_some]
    omega

namespace Grid

/-! What one write does to the size of a grid. -/

def rowLength (g : Grid) (row : Nat) : Nat := (g.rows[row]?.getD #[]).size

theorem height_write (g : Grid) (row col : Nat) (cell : Cell) :
    (g.write row col cell).height = max g.height (row + 1) := by
  rw [height, write, Array.size_modify, size_grow]
  rfl

theorem rowLength_write (g : Grid) (row col : Nat) (cell : Cell) (i : Nat) :
    (g.write row col cell).rowLength i =
      if i = row then max (g.rowLength row) (col + 1) else g.rowLength i := by
  rw [rowLength, write, Array.getElem?_modify]
  by_cases hi : row = i
  · subst hi
    have hrow : row < (grow g.rows (row + 1) #[]).size := by rw [size_grow]; omega
    have hlast := getD_getElem?_grow g.rows (row + 1) #[] row
    rw [Array.getElem?_eq_getElem hrow, Option.getD_some] at hlast
    rw [if_pos rfl, if_pos rfl, Array.getElem?_eq_getElem hrow, Option.map_some, Option.getD_some,
      Array.size_setIfInBounds, size_grow, hlast]
    rfl
  · rw [if_neg hi, if_neg (Ne.symm hi), getD_getElem?_grow]
    rfl

theorem eq_of_get {g g' : Grid} (hheight : g.height = g'.height)
    (hlength : ∀ row, g.rowLength row = g'.rowLength row)
    (hget : ∀ row col : Int, g.get row col = g'.get row col) : g = g' := by
  obtain ⟨rows⟩ := g
  obtain ⟨rows'⟩ := g'
  rw [mk.injEq]
  refine Array.ext hheight fun i hi hi' => Array.ext ?_ fun j hj hj' => ?_
  · have hsize := hlength i
    simpa [rowLength, hi, hi'] using hsize
  · have hcell := hget i j
    rw [get_natCast, get_natCast] at hcell
    simpa [hi, hi', hj, hj'] using hcell

theorem set_eq (g : Grid) (w : Write) :
    g.set w.row w.col w.cell =
      match w.place? with
      | some (row, col) => g.write row col w.cell
      | none => g := by
  rw [set, Write.place?]
  split <;> rfl

/-- A grid no larger than the places that were written to need. -/
structure Sized (g : Grid) (ps : List (Nat × Nat)) : Prop where
  height : g.height = beyond (ps.map Prod.fst)
  rowLength : ∀ row, g.rowLength row = beyond ((ps.filter (·.1 = row)).map Prod.snd)

theorem sized_empty : empty.Sized [] where
  height := rfl
  rowLength := fun row => by simp [Grid.rowLength, empty, beyond]

theorem Sized.write {g : Grid} {ps : List (Nat × Nat)} (h : g.Sized ps) (row col : Nat)
    (cell : Cell) : (g.write row col cell).Sized (ps ++ [(row, col)]) where
  height := by rw [height_write, List.map_append, List.map_singleton, beyond_concat, h.height]
  rowLength := by
    intro i
    rw [rowLength_write, List.filter_append, List.map_append]
    by_cases hi : i = row
    · subst hi
      have hlast : ([(i, col)].filter (·.1 = i)).map Prod.snd = [col] := by simp
      rw [if_pos rfl, hlast, beyond_concat, h.rowLength]
    · have hnone : ([(row, col)].filter (·.1 = i)).map Prod.snd = [] := by simp [Ne.symm hi]
      rw [if_neg hi, hnone, List.append_nil, h.rowLength]

/-! Many writes. -/

theorem get_empty (row col : Int) : empty.get row col = .blank := by
  rw [get]
  split <;> rfl

def writeAll (g : Grid) (ws : List Write) : Grid := ws.foldl (fun g w => g.set w.row w.col w.cell) g

theorem writeAll_concat (g : Grid) (ws : List Write) (w : Write) :
    g.writeAll (ws ++ [w]) = (g.writeAll ws).set w.row w.col w.cell := List.foldl_append

theorem get_writeAll (ws : List Write) (row col : Int) :
    (empty.writeAll ws).get row col =
      if 0 ≤ row ∧ 0 ≤ col then (Write.last? ws row col).getD .blank else .blank := by
  induction ws using List.reverseRecOn with
  | nil => simp [writeAll, empty, get, Write.last?]
  | append_singleton ws w ih =>
    rw [writeAll_concat, get_set, ih, Write.last?_concat]
    by_cases hw : w.row = row ∧ w.col = col
    · obtain ⟨rfl, rfl⟩ := hw
      by_cases hplace : 0 ≤ w.row ∧ 0 ≤ w.col <;> simp [hplace]
    · rw [if_neg hw, if_neg (by omega)]

theorem sized_writeAll (ws : List Write) : (empty.writeAll ws).Sized (Write.places ws) := by
  induction ws using List.reverseRecOn with
  | nil => exact sized_empty
  | append_singleton ws w ih =>
    rw [writeAll_concat, set_eq, Write.places_concat]
    cases w.place? with
    | none => simpa using ih
    | some p => exact ih.write p.1 p.2 w.cell

end Grid

/-- After any writes a position shows the cell that was written there last, or else a blank, and a
write at a negative position does nothing. There is one row more than the last that was written to,
and one cell more in each than its last column. -/
theorem grid_of_writes (ws : List Write) :
    let g := Grid.empty.writeAll ws
    (∀ row col, g.get row col =
      if 0 ≤ row ∧ 0 ≤ col then (Write.last? ws row col).getD .blank else .blank) ∧
    (∀ row col cell, row < 0 ∨ col < 0 → g.set row col cell = g) ∧
    g.height = beyond (Write.rows ws) ∧
    ∀ row, g.rowLength row = beyond (Write.columns ws row) := by
  intro g
  have hsized : g.Sized (Write.places ws) := Grid.sized_writeAll ws
  exact ⟨Grid.get_writeAll ws, fun row col cell hn => if_pos hn, hsized.height, hsized.rowLength⟩

end Galley.Terminal
