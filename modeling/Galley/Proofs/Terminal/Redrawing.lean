import Mathlib.Tactic.LinearCombination
import Galley.Proofs.Terminal.Lines
import Galley.Proofs.Terminal.Writes
/-!
Lines drawn backwards, and lines drawn once more. What a line makes of a cell depends on that cell
and on the cells beside it that are not on the line, but not on which of its own cells are drawn
already. So it can begin at either end, and drawing it again finds every cell as it would leave it.
-/
namespace Galley.Terminal

namespace Segment

def reverse (l : Segment) : Segment := ⟨l.stop, l.start, l.style⟩

/-- Both ends are before the last row and column that a device number can name. -/
structure Below (l : Segment) : Prop where
  start : l.start.1 < Number.greatest ∧ l.start.2 < Number.greatest
  stop : l.stop.1 < Number.greatest ∧ l.stop.2 < Number.greatest

def slants (l : Segment) : Char × Char :=
  if l.slope.1 = l.slope.2 then (Plot.falling, Plot.rising) else (Plot.rising, Plot.falling)

theorem Below.lt {l : Segment} (hl : l.Below) {x : Int × Int} (hx : l.covers x = true) :
    x.1 < Number.greatest ∧ x.2 < Number.greatest := by
  have hstart := hl.start
  have hstop := hl.stop
  simp only [covers, Bool.and_eq_true, decide_eq_true_eq] at hx
  omega

theorem ends_reverse (l : Segment) : l.reverse.ends = l.ends := Sym2.eq_swap

theorem aligned_reverse (l : Segment) : l.reverse.Aligned ↔ l.Aligned :=
  or_congr eq_comm eq_comm

theorem drawable_reverse (l : Segment) : l.reverse.Drawable ↔ l.Drawable := by
  have hflip : ∀ a b : Int, (a - b).natAbs = (b - a).natAbs := by omega
  simp only [Drawable, reverse, eq_comm, hflip l.stop.1, hflip l.stop.2]

theorem passes_reverse (l : Segment) (x : Int × Int) : l.reverse.Passes x ↔ l.Passes x := by
  rw [Passes, Passes, covers_of_ends l.ends_reverse]
  refine and_congr_right fun _ => ?_
  dsimp only [reverse]
  constructor
  · intro h
    linear_combination -h
  · intro h
    linear_combination -h

theorem slants_reverse (l : Segment) : l.reverse.slants = l.slants := by
  have hsign : ∀ a b : Int, (a - b).sign = -(b - a).sign := by
    intro a b
    rw [← Int.sign_neg, Int.neg_sub]
  have hslope : l.reverse.slope.1 = l.reverse.slope.2 ↔ l.slope.1 = l.slope.2 := by
    simp only [slope, reverse]
    rw [hsign l.start.1, hsign l.start.2, neg_inj]
  simp only [slants, hslope]

theorem arms_reverse (l : Segment) : arms [l.reverse] = arms [l] :=
  arms_of_ends (by simp [ends_reverse])

end Segment

open Segment

namespace Plot

/-! Plots in which some cells have changed. -/

/-- Some cells have become what was meant for them, with the arms that go with it. The others are
as they were, and the grid has grown just as far as these cells need. -/
structure Paints (p q : Plot) (paint : Int × Int → Cell × Option Arms) (cells : List (Int × Int)) :
    Prop where
  cell : ∀ x, q.grid.get x.1 x.2 = if x ∈ cells then (paint x).1 else p.grid.get x.1 x.2
  strokes : ∀ x, q.strokes[x]? = if x ∈ cells then (paint x).2 else p.strokes[x]?
  height : ∀ n : Nat, n < q.grid.height ↔ n < p.grid.height ∨ ∃ x ∈ cells, (n : Int) ≤ x.1
  rowLength : ∀ row n : Nat, n < q.grid.rowLength row ↔
    n < p.grid.rowLength row ∨ ∃ x ∈ cells, x.1 = row ∧ (n : Int) ≤ x.2

variable {p q r : Plot} {paint : Int × Int → Cell × Option Arms} {cells done : List (Int × Int)}

theorem paints_nil (p : Plot) (paint : Int × Int → Cell × Option Arms) : p.Paints p paint [] where
  cell := by simp
  strokes := by simp
  height := by simp
  rowLength := by simp

/-- Neither the order of the cells nor how often each is painted makes a difference. -/
theorem Paints.eq (hq : p.Paints q paint cells) (hr : p.Paints r paint done)
    (h : ∀ x, x ∈ cells ↔ x ∈ done) : q.grid = r.grid ∧ q.strokes.Equiv r.strokes := by
  constructor
  · refine Grid.eq_of_get ?_ (fun row => ?_) fun row col => ?_
    · refine eq_of_forall_lt_iff fun n => ?_
      simp only [hq.height, hr.height, h]
    · refine eq_of_forall_lt_iff fun n => ?_
      simp only [hq.rowLength, hr.rowLength, h]
    · have hcell := hq.cell (row, col)
      simp only [h] at hcell
      exact hcell.trans (hr.cell (row, col)).symm
  · refine Std.HashMap.Equiv.of_forall_getElem?_eq fun x => ?_
    simp only [hq.strokes, hr.strokes, h]

theorem Paints.set (h : p.Paints q paint done) {x : Int × Int} (hrow : 0 ≤ x.1) (hcol : 0 ≤ x.2)
    {strokes : Strokes}
    (hstrokes : ∀ y, strokes[y]? = if y = x then (paint x).2 else q.strokes[y]?) :
    p.Paints ⟨q.grid.set x.1 x.2 (paint x).1, strokes⟩ paint (done ++ [x]) := by
  have hset : q.grid.set x.1 x.2 (paint x).1 =
      q.grid.write x.1.toNat x.2.toNat (paint x).1 := if_neg (by omega)
  constructor
  case cell =>
    intro y
    have hplace : (0 ≤ x.1 ∧ 0 ≤ x.2 ∧ y.1 = x.1 ∧ y.2 = x.2) ↔ y = x := by
      rw [Prod.ext_iff]
      exact ⟨fun hy => hy.2.2, fun hy => ⟨hrow, hcol, hy⟩⟩
    simp only [Grid.get_set, hplace, h.cell, List.mem_append, List.mem_singleton]
    by_cases hy : y = x <;> simp [hy]
  case strokes =>
    intro y
    simp only [hstrokes, h.strokes, List.mem_append, List.mem_singleton]
    by_cases hy : y = x <;> simp [hy]
  case height =>
    intro n
    rw [hset, Grid.height_write, lt_max_iff, h.height]
    simp only [List.mem_append, List.mem_singleton, or_and_right, exists_or, exists_eq_left,
      or_assoc]
    have hlast : n < x.1.toNat + 1 ↔ (n : Int) ≤ x.1 := by omega
    rw [hlast]
  case rowLength =>
    intro row n
    rw [hset, Grid.rowLength_write]
    simp only [List.mem_append, List.mem_singleton, or_and_right, exists_or, exists_eq_left,
      ← or_assoc, ← h.rowLength]
    split
    case isTrue heq =>
      subst heq
      rw [lt_max_iff]
      refine or_congr Iff.rfl ?_
      omega
    case isFalse hne =>
      rw [or_iff_left]
      omega

theorem Paints.foldl {f : Plot → Int × Int → Plot}
    (hf : ∀ {q : Plot} {done : List (Int × Int)} {x : Int × Int}, p.Paints q paint done →
      (∀ y ∈ done, y ∈ cells) → x ∈ cells → p.Paints (f q x) paint (done ++ [x]))
    {xs : List (Int × Int)} (h : p.Paints q paint done) (hdone : ∀ y ∈ done, y ∈ cells)
    (hxs : ∀ x ∈ xs, x ∈ cells) : p.Paints (xs.foldl f q) paint (done ++ xs) := by
  induction xs generalizing q done with
  | nil => simpa using h
  | cons x xs ih =>
    obtain ⟨hx, hxs⟩ := List.forall_mem_cons.mp hxs
    have hstep := hf h hdone hx
    have hrest := ih hstep (List.forall_mem_append.mpr ⟨hdone, by simpa using hx⟩) hxs
    rwa [List.append_assoc] at hrest

/-! Level and upright lines. -/

theorem armsAt_congr {x : Int × Int} (hcell : q.grid.get x.1 x.2 = p.grid.get x.1 x.2)
    (hstrokes : q.strokes[x]? = p.strokes[x]?) : q.armsAt x.1 x.2 = p.armsAt x.1 x.2 := by
  simp only [armsAt, hcell, hstrokes]

theorem armsAt_of_drawn {x : Int × Int} {a : Arms} (hstrokes : q.strokes[x]? = some a)
    (hcell : (q.grid.get x.1 x.2).ch = a.char) : q.armsAt x.1 x.2 = a := by
  simp only [armsAt, hcell, hstrokes, if_true]

def alignedPaint (l : Segment) (p : Plot) (x : Int × Int) : Cell × Option Arms :=
  let a := (given l p x).union (p.armsAt x.1 x.2)
  ({ l.style with ch := a.char }, some a)

/-- Towards its own cells a line has arms anyway, so that only the other ones around count. -/
theorem given_congr {l : Segment} {x : Int × Int} (hx : l.covers x = true)
    (hrow : 0 ≤ x.1 ∧ x.1 < Number.greatest) (hcol : 0 ≤ x.2 ∧ x.2 < Number.greatest)
    (h : ∀ y : Int × Int, l.covers y = false → q.armsAt y.1 y.2 = p.armsAt y.1 y.2) :
    given l q x = given l p x := by
  have hside : ∀ (y : Int × Int) (arm : Arms → Bool),
      (arm (q.armsAt y.1 y.2) || (l.covers x && l.covers y)) =
        (arm (p.armsAt y.1 y.2) || (l.covers x && l.covers y)) := by
    intro y arm
    cases hy : l.covers y with
    | true => simp [hx]
    | false => rw [h y hy]
  have hunion : (q.around x.1 x.2).union (arms [l] x) = (p.around x.1 x.2).union (arms [l] x) := by
    rw [q.around_eq hrow hcol, p.around_eq hrow hcol]
    simp only [facing, arms, Arms.union, List.any_cons, List.any_nil, Bool.or_false, Arms.mk.injEq]
    exact ⟨hside (x.1 - 1, x.2) Arms.down, hside (x.1 + 1, x.2) Arms.up,
      hside (x.1, x.2 - 1) Arms.right, hside (x.1, x.2 + 1) Arms.left⟩
  rw [given, given, hunion]

theorem Paints.armsAt {l : Segment} (h : p.Paints q (alignedPaint l p) done) (x : Int × Int) :
    q.armsAt x.1 x.2 =
      if x ∈ done then (given l p x).union (p.armsAt x.1 x.2) else p.armsAt x.1 x.2 := by
  have hcell := h.cell x
  have hstrokes := h.strokes x
  split
  case isTrue hx =>
    rw [if_pos hx] at hcell hstrokes
    exact armsAt_of_drawn hstrokes (congrArg Cell.ch hcell)
  case isFalse hx =>
    rw [if_neg hx] at hcell hstrokes
    exact armsAt_congr hcell hstrokes

theorem Paints.alignedCell {l : Segment} (haligned : l.Aligned) (hl : l.Below)
    (h : p.Paints q (alignedPaint l p) done) (hdone : ∀ y ∈ done, y ∈ lineCells l) {x : Int × Int}
    (hx : x ∈ lineCells l) :
    p.Paints (alignedCell l q x) (alignedPaint l p) (done ++ [x]) := by
  obtain ⟨hrow, hcol, hcovers⟩ := (mem_lineCells_of_aligned haligned).mp hx
  have hgiven : given l q x = given l p x := by
    refine given_congr hcovers ⟨hrow, (hl.lt hcovers).1⟩ ⟨hcol, (hl.lt hcovers).2⟩
      fun y hy => ?_
    have hnot : y ∉ done := by
      intro hmem
      have hon := ((mem_lineCells_of_aligned haligned).mp (hdone y hmem)).2.2
      rw [hy] at hon
      cases hon
    rw [h.armsAt, if_neg hnot]
  have hmerged : (given l q x).union (q.armsAt x.1 x.2) =
      (given l p x).union (p.armsAt x.1 x.2) := by
    rw [hgiven, h.armsAt]
    split
    · rw [← Arms.union_assoc, Arms.union_self]
    · rfl
  have hcell : Plot.alignedCell l q x =
      ⟨q.grid.set x.1 x.2 (alignedPaint l p x).1,
        q.strokes.insert x ((given l p x).union (p.armsAt x.1 x.2))⟩ := by
    rw [Plot.alignedCell, merge, if_neg (by omega)]
    dsimp only
    rw [hmerged]
    rfl
  rw [hcell]
  refine h.set hrow hcol fun y => ?_
  simp only [Std.HashMap.getElem?_insert, beq_iff_eq, eq_comm (a := x)]
  rfl

/-! Slanted lines. -/

def strokeOver (l : Segment) (existing : Char) : Char :=
  if existing = l.slants.2 ∨ existing = crossed then crossed else l.slants.1

def slantedPaint (l : Segment) (p : Plot) (x : Int × Int) : Cell × Option Arms :=
  ({ l.style with ch := strokeOver l (p.grid.get x.1 x.2).ch }, none)

theorem strokeOver_strokeOver (l : Segment) (c : Char) :
    strokeOver l (strokeOver l c) = strokeOver l c := by
  have hslants : l.slants.1 ≠ l.slants.2 ∧ l.slants.1 ≠ crossed := by
    rw [slants]
    split <;> decide
  simp only [strokeOver]
  split
  · rw [if_pos (.inr rfl)]
  · rw [if_neg (not_or.mpr hslants)]

theorem Paints.slantedCell {l : Segment} (h : p.Paints q (slantedPaint l p) done) {x : Int × Int}
    (hrow : 0 ≤ x.1) (hcol : 0 ≤ x.2) :
    p.Paints (slantedCell l.style l.slants.1 l.slants.2 q x) (slantedPaint l p) (done ++ [x]) := by
  have hstroke : strokeOver l (q.grid.get x.1 x.2).ch = strokeOver l (p.grid.get x.1 x.2).ch := by
    rw [h.cell]
    split
    · exact strokeOver_strokeOver l _
    · rfl
  have hcell : Plot.slantedCell l.style l.slants.1 l.slants.2 q x =
      ⟨q.grid.set x.1 x.2 { l.style with ch := strokeOver l (q.grid.get x.1 x.2).ch },
        q.strokes.erase x⟩ := rfl
  rw [hcell, hstroke]
  refine h.set hrow hcol fun y => ?_
  simp only [Std.HashMap.getElem?_erase, beq_iff_eq, eq_comm (a := x)]
  rfl

/-! Lines of any kind. -/

def inkCell (l : Segment) (p : Plot) (x : Int × Int) : Plot :=
  if l.Aligned then alignedCell l p x else slantedCell l.style l.slants.1 l.slants.2 p x

def linePaint (l : Segment) (p : Plot) (x : Int × Int) : Cell × Option Arms :=
  if l.Aligned then alignedPaint l p x else slantedPaint l p x

theorem linePaint_reverse (l : Segment) : linePaint l.reverse = linePaint l := by
  funext p x
  simp only [linePaint, aligned_reverse, alignedPaint, given, arms_reverse, slantedPaint,
    strokeOver, slants_reverse]
  rfl

theorem mem_inkedCells_reverse {l : Segment} (h : l.Drawable) (x : Int × Int) :
    x ∈ inkedCells l.reverse ↔ x ∈ inkedCells l := by
  rw [mem_inkedCells h, mem_inkedCells (l.drawable_reverse.mpr h), passes_reverse]

theorem Paints.inkCell {l : Segment} (hdrawable : l.Drawable) (hl : l.Below)
    (h : p.Paints q (linePaint l p) done) (hdone : ∀ y ∈ done, y ∈ inkedCells l) {x : Int × Int}
    (hx : x ∈ inkedCells l) : p.Paints (inkCell l q x) (linePaint l p) (done ++ [x]) := by
  by_cases ha : l.Aligned
  · have hpaint : linePaint l p = alignedPaint l p := funext fun y => if_pos ha
    have hcells : inkedCells l = lineCells l := if_pos ha
    rw [hcells] at hdone hx
    rw [hpaint] at h ⊢
    rw [Plot.inkCell, if_pos ha]
    exact h.alignedCell ha hl hdone hx
  · have hpaint : linePaint l p = slantedPaint l p := funext fun y => if_neg ha
    obtain ⟨hrow, hcol, -⟩ := (mem_inkedCells hdrawable).mp hx
    rw [hpaint] at h ⊢
    rw [Plot.inkCell, if_neg ha]
    exact h.slantedCell hrow hcol

theorem line?_eq_inkCells {l : Segment} (h : l.Drawable) (p : Plot) :
    p.line? l.start l.stop l.style = some ((inkedCells l).foldl (inkCell l) p) := by
  by_cases ha : l.Aligned
  · have hcells : inkedCells l = lineCells l := if_pos ha
    have hcell : inkCell l = alignedCell l := by
      funext q x
      exact if_pos ha
    rw [hcells, hcell]
    exact line?_of_aligned ha p
  · have hcells : inkedCells l =
        slantedPlaces l.start.1 l.start.2 l.slope.1 l.slope.2 l.steps := if_neg ha
    have hcell : inkCell l = slantedCell l.style l.slants.1 l.slants.2 := by
      funext q x
      exact if_neg ha
    obtain ⟨hrow, hcol⟩ := not_or.mp ha
    rw [hcells, hcell]
    simp only [line?, if_neg hrow, if_neg hcol,
      if_pos ((h.resolve_left hrow).resolve_left hcol)]
    rfl

theorem Paints.draw {l : Segment} (hdrawable : l.Drawable) (hl : l.Below)
    (h : p.Paints q (linePaint l p) done) (hdone : ∀ y ∈ done, y ∈ inkedCells l) :
    p.Paints (q.draw l) (linePaint l p) (done ++ inkedCells l) := by
  rw [Plot.draw, line?_eq_inkCells hdrawable, Option.getD_some]
  exact Paints.foldl (fun hpaints hdone hx => hpaints.inkCell hdrawable hl hdone hx) h hdone
    fun _ hx => hx

theorem draw_of_not_drawable {l : Segment} (h : ¬ l.Drawable) (p : Plot) : p.draw l = p := by
  rw [draw, line?_of_not_drawable h]
  rfl

end Plot

theorem Segment.Below.reverse {l : Segment} (h : l.Below) : l.reverse.Below := ⟨h.stop, h.start⟩

/-- A line gives the same grid and the same arms from either end, and drawing it a second time
changes neither, whatever the plot shows and whichever arms are recorded for it. It can be drawn
from one end just if it can from the other. -/
theorem line_backwards_and_again (p : Plot) (l : Segment) (hl : l.Below) :
    ((p.line? l.stop l.start l.style).isSome ↔ (p.line? l.start l.stop l.style).isSome) ∧
    ((p.draw l.reverse).grid = (p.draw l).grid ∧
      (p.draw l.reverse).strokes.Equiv (p.draw l).strokes) ∧
    ((p.draw l).draw l).grid = (p.draw l).grid ∧
      ((p.draw l).draw l).strokes.Equiv (p.draw l).strokes := by
  have hsome := (Plot.isSome_line?_iff l.reverse p).trans
    (l.drawable_reverse.trans (Plot.isSome_line?_iff l p).symm)
  refine ⟨hsome, ?_⟩
  by_cases h : l.Drawable
  · have honce := (p.paints_nil (Plot.linePaint l p)).draw h hl (by simp)
    have htwice := honce.draw h hl (by simp)
    have hback := (p.paints_nil (Plot.linePaint l.reverse p)).draw
      (l.drawable_reverse.mpr h) hl.reverse (by simp)
    rw [Plot.linePaint_reverse] at hback
    exact ⟨hback.eq honce (by simp [Plot.mem_inkedCells_reverse h]), htwice.eq honce (by simp)⟩
  · rw [Plot.draw_of_not_drawable (mt l.drawable_reverse.mp h), Plot.draw_of_not_drawable h,
      Plot.draw_of_not_drawable h]
    exact ⟨⟨rfl, .rfl⟩, rfl, .rfl⟩

/-- A line from off the page crosses another one and ends on a letter. -/
theorem line_backwards_and_again_crossing :
    let p : Plot := ⟨(Plot.empty.draw ⟨(0, 0), (2, 2), .blank⟩).grid.set 0 2 ⟨'x', .bold, 3⟩, {}⟩
    let l : Segment := ⟨(3, -1), (0, 2), .blank⟩
    l.Below ∧ (p.draw l.reverse).grid = (p.draw l).grid ∧
      ((p.draw l).draw l).grid = (p.draw l).grid ∧
      ((p.draw l).grid.get 1 1).ch = Plot.crossed ∧ ((p.draw l).grid.get 0 2).ch = Plot.rising := by
  intro p l
  have hl : l.Below := ⟨⟨by decide, by decide⟩, ⟨by decide, by decide⟩⟩
  obtain ⟨-, hback, hagain⟩ := line_backwards_and_again p l hl
  exact ⟨hl, hback.1, hagain.1, by decide +kernel, by decide +kernel⟩

end Galley.Terminal
