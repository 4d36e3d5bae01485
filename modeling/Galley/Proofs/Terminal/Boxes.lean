import Mathlib.Data.List.Basic
import Mathlib.Data.Sym.Sym2
import Galley.Terminal.Line
/-!
What level and upright lines look like together. A cell that a line reaches takes on the arms that
its neighbours stretch out to it, but those are arms that some line gives it anyway. So the cells
show the union of the lines, whatever their order.
-/
namespace Galley.Terminal

namespace Arms

attribute [ext] Arms

def Within (a b : Arms) : Prop := a.union b = b

theorem union_comm (a b : Arms) : a.union b = b.union a := by
  simp [union, Bool.or_comm]

theorem union_assoc (a b c : Arms) : (a.union b).union c = a.union (b.union c) := by
  simp [union, Bool.or_assoc]

@[simp] theorem union_self (a : Arms) : a.union a = a := by
  simp [union]

@[simp] theorem none_union (a : Arms) : none.union a = a := by
  simp [union, none]

@[simp] theorem union_none (a : Arms) : a.union none = a := by
  rw [union_comm, none_union]

theorem union_eq_none_iff {a b : Arms} : a.union b = none ↔ a = none ∧ b = none := by
  simp only [Arms.ext_iff, union, none, Bool.or_eq_false_iff]
  tauto

theorem Within.refl (a : Arms) : a.Within a := union_self a

theorem within_none (a : Arms) : none.Within a := none_union a

theorem within_union_left (a b : Arms) : a.Within (a.union b) := by
  rw [Within, ← union_assoc, union_self]

theorem within_iff {a b : Arms} : a.Within b ↔
    (a.up → b.up) ∧ (a.down → b.down) ∧ (a.left → b.left) ∧ (a.right → b.right) := by
  simp [Within, Arms.ext_iff, Arms.union]

end Arms

structure Segment where
  start : Int × Int
  stop : Int × Int
  style : Cell

namespace Segment

def ends (l : Segment) : Sym2 (Int × Int) := s(l.start, l.stop)

def covers (l : Segment) (x : Int × Int) : Bool :=
  min l.start.1 l.stop.1 ≤ x.1 && x.1 ≤ max l.start.1 l.stop.1 &&
    min l.start.2 l.stop.2 ≤ x.2 && x.2 ≤ max l.start.2 l.stop.2

def Aligned (l : Segment) : Prop := l.start.1 = l.stop.1 ∨ l.start.2 = l.stop.2
  deriving Decidable

/-- Lines that are level or upright, have two cells or more, and do not reach the last row or
column that a device number can name. -/
structure Straight (l : Segment) : Prop where
  aligned : l.start.1 = l.stop.1 ∨ l.start.2 = l.stop.2
  long : l.start ≠ l.stop
  start_lt : l.start.1 < Number.greatest ∧ l.start.2 < Number.greatest
  stop_lt : l.stop.1 < Number.greatest ∧ l.stop.2 < Number.greatest

/-- The directions in which one of some lines goes on from a cell to the next of its cells. -/
def arms (ls : List Segment) (x : Int × Int) : Arms where
  up := ls.any fun l => l.covers x && l.covers (x.1 - 1, x.2)
  down := ls.any fun l => l.covers x && l.covers (x.1 + 1, x.2)
  left := ls.any fun l => l.covers x && l.covers (x.1, x.2 - 1)
  right := ls.any fun l => l.covers x && l.covers (x.1, x.2 + 1)

theorem arms_append (ls ms : List Segment) (x : Int × Int) :
    arms (ls ++ ms) x = (arms ls x).union (arms ms x) := by
  simp [arms, Arms.union]

theorem arms_eq_none {ls : List Segment} {x : Int × Int} (h : ∀ l ∈ ls, l.covers x = false) :
    arms ls x = .none := by
  have hany : ∀ y, (ls.any fun l => l.covers x && l.covers y) = false := by
    intro y
    rw [List.any_eq_false]
    intro l hl
    simp [h l hl]
  simp only [arms, hany, Arms.none]

theorem arms_of_not_covers {l : Segment} {x : Int × Int} (h : l.covers x = false) :
    arms [l] x = .none := arms_eq_none (by simpa using h)

theorem arms_level {l : Segment} (h : l.start.1 = l.stop.1) {col : Int}
    (hfirst : min l.start.2 l.stop.2 ≤ col) (hlast : col ≤ max l.start.2 l.stop.2) :
    arms [l] (l.start.1, col) =
      ⟨false, false, min l.start.2 l.stop.2 < col, col < max l.start.2 l.stop.2⟩ := by
  simp only [arms, covers, List.any_cons, List.any_nil, Bool.or_false, Arms.mk.injEq,
    ← Bool.decide_and, decide_eq_decide, decide_eq_false_iff_not]
  omega

theorem arms_upright {l : Segment} (h : l.start.2 = l.stop.2) {row : Int}
    (hfirst : min l.start.1 l.stop.1 ≤ row) (hlast : row ≤ max l.start.1 l.stop.1) :
    arms [l] (row, l.start.2) =
      ⟨min l.start.1 l.stop.1 < row, row < max l.start.1 l.stop.1, false, false⟩ := by
  simp only [arms, covers, List.any_cons, List.any_nil, Bool.or_false, Arms.mk.injEq,
    ← Bool.decide_and, decide_eq_decide, decide_eq_false_iff_not]
  omega

theorem arms_singleton_ne_none {l : Segment} (h : l.Straight) {x : Int × Int}
    (hx : l.covers x = true) : arms [l] x ≠ .none := by
  obtain ⟨row, col⟩ := x
  have hlong := h.long
  simp only [covers, Bool.and_eq_true, decide_eq_true_eq] at hx
  simp only [ne_eq, Prod.ext_iff] at hlong
  obtain hlevel | hupright := h.aligned
  · obtain rfl : row = l.start.1 := by omega
    rw [arms_level hlevel (by omega) (by omega)]
    simp only [ne_eq, Arms.none, Arms.mk.injEq, decide_eq_false_iff_not]
    omega
  · obtain rfl : col = l.start.2 := by omega
    rw [arms_upright hupright (by omega) (by omega)]
    simp only [ne_eq, Arms.none, Arms.mk.injEq, decide_eq_false_iff_not]
    omega

theorem arms_ne_none {ls : List Segment} {l : Segment} (hl : l ∈ ls) (h : l.Straight)
    {x : Int × Int} (hx : l.covers x = true) : arms ls x ≠ .none := by
  obtain ⟨before, after, rfl⟩ := List.append_of_mem hl
  rw [arms_append, ← List.singleton_append, arms_append]
  intro hn
  exact arms_singleton_ne_none h hx (Arms.union_eq_none_iff.mp (Arms.union_eq_none_iff.mp hn).2).1

end Segment

open Segment

/-! Neighbours. -/

/-- The arms that the neighbours of a cell stretch out to it. -/
def facing (a : Int × Int → Arms) (x : Int × Int) : Arms where
  up := (a (x.1 - 1, x.2)).down
  down := (a (x.1 + 1, x.2)).up
  left := (a (x.1, x.2 - 1)).right
  right := (a (x.1, x.2 + 1)).left

theorem facing_arms (ls : List Segment) (x : Int × Int) : facing (arms ls) x = arms ls x := by
  simp [facing, arms, Bool.and_comm]

theorem facing_within {a b : Int × Int → Arms} (h : ∀ x, (a x).Within (b x)) (x : Int × Int) :
    (facing a x).Within (facing b x) := by
  simp only [Arms.within_iff] at h ⊢
  exact ⟨(h _).2.1, (h _).1, (h _).2.2.2, (h _).2.2.1⟩

/-- Cells at negative positions have no arms. -/
def onPage (a : Int × Int → Arms) (x : Int × Int) : Arms :=
  if 0 ≤ x.1 ∧ 0 ≤ x.2 then a x else .none

theorem onPage_within (a : Int × Int → Arms) (x : Int × Int) : (onPage a x).Within (a x) := by
  rw [onPage]
  split
  · exact Arms.Within.refl _
  · exact Arms.within_none _

/-- The arms of the cells while further lines are drawn: only some cells have theirs already. -/
def partly (old new : List Segment) (done : List (Int × Int)) (x : Int × Int) : Arms :=
  onPage (arms (if x ∈ done then old ++ new else old)) x

theorem partly_nil (old new : List Segment) : partly old new [] = onPage (arms old) := by
  funext x
  simp [partly]

theorem partly_within (old new : List Segment) (done : List (Int × Int)) (x : Int × Int) :
    (partly old new done x).Within (arms (old ++ new) x) := by
  rw [partly]
  split
  · exact onPage_within _ x
  · have hold : (arms old x).Within (arms (old ++ new) x) := by
      rw [arms_append]
      exact Arms.within_union_left _ _
    rw [onPage]
    split
    · exact hold
    · exact Arms.within_none _

theorem partly_complete (old new : List Segment) (done : List (Int × Int)) {x : Int × Int}
    (hrow : 0 ≤ x.1) (hcol : 0 ≤ x.2) :
    ((facing (partly old new done) x).union (arms new x)).union (partly old new done x) =
      arms (old ++ new) x := by
  -- Of the neighbours some are drawn and some are not yet. What they stretch out is at most what
  -- the cell is to have, and what is missing there the new lines bring themselves.
  have hfacing : (facing (partly old new done) x).Within (arms (old ++ new) x) := by
    have h := facing_within (partly_within old new done) x
    rwa [facing_arms] at h
  have hown : (arms new x).union (partly old new done x) = arms (old ++ new) x := by
    rw [partly, onPage, if_pos ⟨hrow, hcol⟩, arms_append]
    split
    · rw [arms_append, Arms.union_comm, Arms.union_assoc, Arms.union_self]
    · rw [Arms.union_comm]
  rw [Arms.union_assoc, hown]
  exact hfacing

namespace Plot

/-! What a plot shows. -/

structure Shows (p : Plot) (a : Int × Int → Arms) : Prop where
  blank : ∀ x, a x = .none → p.strokes[x]? = none ∧ p.grid.get x.1 x.2 = .blank
  drawn : ∀ x, a x ≠ .none → p.strokes[x]? = some (a x) ∧ (p.grid.get x.1 x.2).ch = (a x).char

theorem shows_empty : Shows .empty fun _ => .none where
  blank := by
    intro x _
    simp [empty, Grid.empty, Grid.get]
  drawn := fun _ h => absurd rfl h

theorem Shows.armsAt_eq {p : Plot} {a : Int × Int → Arms} (h : p.Shows a) (row col : Int) :
    p.armsAt row col = a (row, col) := by
  by_cases ha : a (row, col) = .none
  · obtain ⟨hs, hg⟩ := h.blank _ ha
    simp only [armsAt, hs, hg, ha]
    rfl
  · obtain ⟨hs, hg⟩ := h.drawn _ ha
    simp only [armsAt, hs, hg, if_true]

theorem around_eq (p : Plot) {x : Int × Int} (hrow : 0 ≤ x.1 ∧ x.1 < Number.greatest)
    (hcol : 0 ≤ x.2 ∧ x.2 < Number.greatest) :
    p.around x.1 x.2 = facing (fun y => p.armsAt y.1 y.2) x := by
  have hadd : ∀ n : Int, 0 ≤ n ∧ n < Number.greatest →
      Number.add n 1 = n + 1 ∧ Number.add n (-1) = n - 1 := by
    intro n hn
    have hl : Number.least ≤ -1 := by decide
    exact ⟨Number.saturate_of_mem (by omega) (by omega),
      Number.saturate_of_mem (by omega) (by omega)⟩
  simp only [around, facing, hadd _ hrow, hadd _ hcol]

theorem Shows.around_eq {p : Plot} {a : Int × Int → Arms} (h : p.Shows a) {x : Int × Int}
    (hrow : 0 ≤ x.1 ∧ x.1 < Number.greatest) (hcol : 0 ≤ x.2 ∧ x.2 < Number.greatest) :
    p.around x.1 x.2 = facing a x := by
  rw [p.around_eq hrow hcol]
  simp only [h.armsAt_eq]

theorem Shows.merge {p : Plot} {a : Int × Int → Arms} (h : p.Shows a) (style : Cell)
    {x : Int × Int} (hrow : 0 ≤ x.1) (hcol : 0 ≤ x.2) {b : Arms} (hb : b.union (a x) ≠ .none) :
    (p.merge style x.1 x.2 b).Shows (Function.update a x (b.union (a x))) := by
  have hmerge : p.merge style x.1 x.2 b =
      ⟨p.grid.set x.1 x.2 { style with ch := (b.union (a x)).char },
        p.strokes.insert x (b.union (a x))⟩ := by
    rw [Plot.merge, if_neg (by omega), h.armsAt_eq]
  have hother : ∀ y, y ≠ x → ¬ (0 ≤ x.1 ∧ 0 ≤ x.2 ∧ y.1 = x.1 ∧ y.2 = x.2) := by
    intro y hy hc
    exact hy (Prod.ext hc.2.2.1 hc.2.2.2)
  rw [hmerge]
  constructor
  case blank =>
    intro y hy
    by_cases hyx : y = x
    · rw [hyx, Function.update_self] at hy
      exact absurd hy hb
    · rw [Function.update_of_ne hyx] at hy
      simpa [Grid.get_set, hother y hyx, Std.HashMap.getElem?_insert, Ne.symm hyx] using
        h.blank y hy
  case drawn =>
    intro y hy
    by_cases hyx : y = x
    · rw [hyx, Function.update_self]
      simp [Grid.get_set, hrow, hcol]
    · rw [Function.update_of_ne hyx] at hy ⊢
      simpa [Grid.get_set, hother y hyx, Std.HashMap.getElem?_insert, Ne.symm hyx] using
        h.drawn y hy

/-! Lines cell by cell. -/

def drawCell (l : Segment) (p : Plot) (x : Int × Int) : Plot :=
  p.merge l.style x.1 x.2 ((p.around x.1 x.2).union (arms [l] x))

def lineCells (l : Segment) : List (Int × Int) :=
  if l.start.1 = l.stop.1 then
    if l.start.1 < 0 then []
    else (visible (min l.start.2 l.stop.2) (max l.start.2 l.stop.2)).map (l.start.1, ·)
  else if l.start.2 < 0 then []
  else (visible (min l.start.1 l.stop.1) (max l.start.1 l.stop.1)).map (·, l.start.2)

theorem mem_visible {first last k : Int} :
    k ∈ visible first last ↔ 0 ≤ k ∧ first ≤ k ∧ k ≤ last := by
  simp only [visible, List.mem_map, List.mem_range]
  constructor
  · rintro ⟨i, hi, rfl⟩
    omega
  · intro hk
    exact ⟨(k - max first 0).toNat, by omega, by omega⟩

theorem mem_lineCells_of_aligned {l : Segment}
    (haligned : l.start.1 = l.stop.1 ∨ l.start.2 = l.stop.2) {x : Int × Int} :
    x ∈ lineCells l ↔ 0 ≤ x.1 ∧ 0 ≤ x.2 ∧ l.covers x = true := by
  obtain ⟨row, col⟩ := x
  simp only [lineCells, covers, Bool.and_eq_true, decide_eq_true_eq]
  split
  · split
    · simp only [List.not_mem_nil, false_iff]
      omega
    · simp only [List.mem_map, mem_visible, Prod.mk.injEq, exists_eq_right_right]
      omega
  · split
    · simp only [List.not_mem_nil, false_iff]
      omega
    · simp only [List.mem_map, mem_visible, Prod.mk.injEq]
      constructor
      · rintro ⟨k, hk, rfl, rfl⟩
        omega
      · intro hk
        exact ⟨row, by omega, rfl, by omega⟩

theorem mem_lineCells {l : Segment} (h : l.Straight) {x : Int × Int} :
    x ∈ lineCells l ↔ 0 ≤ x.1 ∧ 0 ≤ x.2 ∧ l.covers x = true := mem_lineCells_of_aligned h.aligned

/-- The arms that a line gives a cell: its own there and those that the cells around stretch out to
it. A cell without any gets both level ones. -/
def given (l : Segment) (p : Plot) (x : Int × Int) : Arms :=
  let a := (p.around x.1 x.2).union (arms [l] x)
  if a = .none then ⟨false, false, true, true⟩ else a

def alignedCell (l : Segment) (p : Plot) (x : Int × Int) : Plot :=
  p.merge l.style x.1 x.2 (given l p x)

theorem levelCell_eq {l : Segment} (hlevel : l.start.1 = l.stop.1) (p : Plot) {col : Int}
    (hcol : col ∈ visible (min l.start.2 l.stop.2) (max l.start.2 l.stop.2)) :
    levelCell l.style l.start.1 (min l.start.2 l.stop.2) (max l.start.2 l.stop.2) p col =
      alignedCell l p (l.start.1, col) := by
  obtain ⟨-, hfirst, hlast⟩ := mem_visible.mp hcol
  rw [levelCell, alignedCell, given, arms_level hlevel hfirst hlast]

theorem uprightCell_eq {l : Segment} (hupright : l.start.2 = l.stop.2)
    (hlong : l.start.1 ≠ l.stop.1) (p : Plot) {row : Int}
    (hrow : row ∈ visible (min l.start.1 l.stop.1) (max l.start.1 l.stop.1)) :
    uprightCell l.style l.start.2 (min l.start.1 l.stop.1) (max l.start.1 l.stop.1) p row =
      alignedCell l p (row, l.start.2) := by
  obtain ⟨-, hfirst, hlast⟩ := mem_visible.mp hrow
  -- An upright line has two cells or more, so that each has an arm of its own.
  have hsome : arms [l] (row, l.start.2) ≠ .none := by
    rw [arms_upright hupright hfirst hlast]
    simp only [ne_eq, Arms.none, Arms.mk.injEq, decide_eq_false_iff_not]
    omega
  rw [uprightCell, alignedCell, given, ← arms_upright hupright hfirst hlast,
    if_neg fun hn => hsome (Arms.union_eq_none_iff.mp hn).2]

theorem line?_of_aligned {l : Segment} (h : l.Aligned) (p : Plot) :
    p.line? l.start l.stop l.style = some ((lineCells l).foldl (alignedCell l) p) := by
  by_cases hlevel : l.start.1 = l.stop.1
  · simp only [line?, lineCells, if_pos hlevel]
    split
    · rfl
    · rw [List.foldl_map]
      exact congrArg some (List.foldl_ext _ _ _ fun q col hcol => levelCell_eq hlevel q hcol)
  · have hupright : l.start.2 = l.stop.2 := h.resolve_left hlevel
    simp only [line?, lineCells, if_neg hlevel, if_pos hupright]
    split
    · rfl
    · rw [List.foldl_map]
      exact congrArg some
        (List.foldl_ext _ _ _ fun q row hrow => uprightCell_eq hupright hlevel q hrow)

theorem alignedCell_eq {l : Segment} (h : l.Straight) (p : Plot) {x : Int × Int}
    (hx : x ∈ lineCells l) : alignedCell l p x = drawCell l p x := by
  have hsome : (p.around x.1 x.2).union (arms [l] x) ≠ .none := fun hn =>
    arms_singleton_ne_none h ((mem_lineCells h).mp hx).2.2 (Arms.union_eq_none_iff.mp hn).2
  rw [alignedCell, given, drawCell, if_neg hsome]

theorem line?_eq {l : Segment} (h : l.Straight) (p : Plot) :
    p.line? l.start l.stop l.style = some ((lineCells l).foldl (drawCell l) p) := by
  rw [line?_of_aligned h.aligned]
  exact congrArg some (List.foldl_ext _ _ _ fun q x hx => alignedCell_eq h q hx)

/-! What a line adds. -/

theorem Shows.drawCell {p : Plot} {done : List (Int × Int)} {seen : List Segment} {l : Segment}
    (h : p.Shows (partly seen [l] done)) (hl : l.Straight) {x : Int × Int} (hx : x ∈ lineCells l) :
    (p.drawCell l x).Shows (partly seen [l] (done ++ [x])) := by
  obtain ⟨hrow, hcol, hcovers⟩ := (mem_lineCells hl).mp hx
  have hbound : x.1 < Number.greatest ∧ x.2 < Number.greatest := by
    have hstart := hl.start_lt
    have hstop := hl.stop_lt
    simp only [covers, Bool.and_eq_true, decide_eq_true_eq] at hcovers
    omega
  have hfull := partly_complete seen [l] done hrow hcol
  have hsome : arms (seen ++ [l]) x ≠ .none := by
    rw [arms_append]
    exact fun hn => arms_singleton_ne_none hl hcovers (Arms.union_eq_none_iff.mp hn).2
  have hnext : Function.update (partly seen [l] done) x (arms (seen ++ [l]) x) =
      partly seen [l] (done ++ [x]) := by
    funext y
    by_cases hyx : y = x
    · subst hyx
      simp [partly, onPage, hrow, hcol]
    · simp [partly, hyx]
  rw [← hfull] at hsome
  have hmerge := h.merge l.style hrow hcol hsome
  rw [hfull, hnext] at hmerge
  rwa [Plot.drawCell, h.around_eq ⟨hrow, hbound.1⟩ ⟨hcol, hbound.2⟩]

theorem Shows.foldl_drawCell {p : Plot} {done cells : List (Int × Int)} {seen : List Segment}
    {l : Segment} (h : p.Shows (partly seen [l] done)) (hl : l.Straight)
    (hcells : ∀ x ∈ cells, x ∈ lineCells l) :
    (cells.foldl (Plot.drawCell l) p).Shows (partly seen [l] (done ++ cells)) := by
  induction cells generalizing p done with
  | nil => simpa using h
  | cons x cells ih =>
    have hstep := h.drawCell hl (hcells x List.mem_cons_self)
    have hrest := ih hstep fun y hy => hcells y (List.mem_cons_of_mem x hy)
    rwa [List.append_assoc] at hrest

theorem partly_lineCells (seen : List Segment) {l : Segment} (hl : l.Straight) :
    partly seen [l] (lineCells l) = onPage (arms (seen ++ [l])) := by
  funext x
  rw [partly]
  split
  case isTrue => rfl
  case isFalse hx =>
    rw [onPage, onPage]
    split
    case isTrue hpage =>
      have hnot : l.covers x = false := by
        rw [← Bool.not_eq_true]
        exact fun hc => hx ((mem_lineCells hl).mpr ⟨hpage.1, hpage.2, hc⟩)
      rw [arms_append, arms_of_not_covers hnot, Arms.union_none]
    case isFalse => rfl

theorem Shows.line {p : Plot} {seen : List Segment} {l : Segment}
    (h : p.Shows (onPage (arms seen))) (hl : l.Straight) :
    ((lineCells l).foldl (Plot.drawCell l) p).Shows (onPage (arms (seen ++ [l]))) := by
  rw [← partly_nil seen [l]] at h
  have hline := h.foldl_drawCell hl fun x hx => hx
  rwa [List.nil_append, partly_lineCells seen hl] at hline

def drawAll? (p : Plot) (ls : List Segment) : Option Plot :=
  ls.foldlM (fun p l => p.line? l.start l.stop l.style) p

theorem Shows.drawAll {p : Plot} {seen ls : List Segment} (h : p.Shows (onPage (arms seen)))
    (hls : ∀ l ∈ ls, l.Straight) :
    ∃ q, p.drawAll? ls = some q ∧ q.Shows (onPage (arms (seen ++ ls))) := by
  induction ls generalizing p seen with
  | nil => exact ⟨p, rfl, by simpa using h⟩
  | cons l ls ih =>
    have hl := hls l List.mem_cons_self
    obtain ⟨q, hq, hshows⟩ := ih (h.line hl) fun m hm => hls m (List.mem_cons_of_mem l hm)
    refine ⟨q, ?_, by simpa using hshows⟩
    rw [drawAll?, List.foldlM_cons, line?_eq hl]
    exact hq

theorem shows_drawAll {ls : List Segment} (hls : ∀ l ∈ ls, l.Straight) :
    ∃ p, empty.drawAll? ls = some p ∧ p.Shows (onPage (arms ls)) := by
  have hempty : empty.Shows (onPage (arms [])) := by
    have h : onPage (arms []) = fun _ => Arms.none := by
      funext x
      simp [onPage, arms, Arms.none]
    rw [h]
    exact shows_empty
  exact hempty.drawAll hls

end Plot

/-! Lines with the same ends. -/

theorem Segment.covers_of_ends {l m : Segment} (h : l.ends = m.ends) : l.covers = m.covers := by
  funext x
  obtain ⟨h1, h2⟩ | ⟨h1, h2⟩ := Sym2.eq_iff.mp h
  · simp only [covers, h1, h2]
  · simp only [covers, h1, h2, min_comm, max_comm]

theorem Segment.Straight.of_ends {l m : Segment} (hm : m.Straight) (h : l.ends = m.ends) :
    l.Straight := by
  obtain ⟨h1, h2⟩ | ⟨h1, h2⟩ := Sym2.eq_iff.mp h
  · exact ⟨h1 ▸ h2 ▸ hm.aligned, h1 ▸ h2 ▸ hm.long, h1 ▸ hm.start_lt, h2 ▸ hm.stop_lt⟩
  · exact ⟨by rw [h1, h2]; exact hm.aligned.imp Eq.symm Eq.symm, by rw [h1, h2]; exact hm.long.symm,
      h1 ▸ hm.stop_lt, h2 ▸ hm.start_lt⟩

theorem Segment.exists_of_ends {ls ms : List Segment}
    (h : (ms.map Segment.ends).Perm (ls.map Segment.ends)) {m : Segment} (hm : m ∈ ms) :
    ∃ l ∈ ls, m.ends = l.ends := by
  have hmem := h.subset (List.mem_map_of_mem hm)
  obtain ⟨l, hl, he⟩ := List.mem_map.mp hmem
  exact ⟨l, hl, he.symm⟩

theorem Segment.arms_within_of_ends {ls ms : List Segment}
    (h : (ms.map Segment.ends).Perm (ls.map Segment.ends)) (x : Int × Int) :
    (arms ms x).Within (arms ls x) := by
  have hany : ∀ y, (ms.any fun m => m.covers x && m.covers y) →
      ls.any fun l => l.covers x && l.covers y := by
    intro y hy
    obtain ⟨m, hm, hc⟩ := List.any_eq_true.mp hy
    obtain ⟨l, hl, he⟩ := exists_of_ends h hm
    rw [covers_of_ends he] at hc
    exact List.any_eq_true.mpr ⟨l, hl, hc⟩
  exact Arms.within_iff.mpr ⟨hany _, hany _, hany _, hany _⟩

theorem Segment.arms_of_ends {ls ms : List Segment}
    (h : (ms.map Segment.ends).Perm (ls.map Segment.ends)) : arms ms = arms ls := by
  funext x
  have hle := arms_within_of_ends h x
  have hge := arms_within_of_ends h.symm x
  calc
    arms ms x = (arms ls x).union (arms ms x) := hge.symm
    _ = (arms ms x).union (arms ls x) := Arms.union_comm _ _
    _ = arms ls x := hle

/-- Level and upright lines drawn on an empty page show their union: a cell on the page that some
line covers shows the directions in which lines go on from it, and all the other cells are blank.
So neither the order of the lines nor that of their ends changes a character. -/
theorem lines_show_union (ls : List Segment) (hls : ∀ l ∈ ls, l.Straight) :
    ∃ p, Plot.empty.drawAll? ls = some p ∧
      (∀ row col, 0 ≤ row → 0 ≤ col → (∃ l ∈ ls, l.covers (row, col)) →
        (p.grid.get row col).ch = (arms ls (row, col)).char) ∧
      (∀ row col, ¬ (0 ≤ row ∧ 0 ≤ col ∧ ∃ l ∈ ls, l.covers (row, col)) →
        p.grid.get row col = .blank) ∧
      ∀ ms, (ms.map Segment.ends).Perm (ls.map Segment.ends) →
        ∃ q, Plot.empty.drawAll? ms = some q ∧
          ∀ row col, (q.grid.get row col).ch = (p.grid.get row col).ch := by
  obtain ⟨p, hp, hshows⟩ := Plot.shows_drawAll hls
  refine ⟨p, hp, ?_, ?_, ?_⟩
  · rintro row col hrow hcol ⟨l, hl, hx⟩
    have hpage : onPage (arms ls) (row, col) = arms ls (row, col) := if_pos ⟨hrow, hcol⟩
    have hsome := arms_ne_none hl (hls l hl) hx
    have hdrawn := (hshows.drawn (row, col) (by rwa [hpage])).2
    rwa [hpage] at hdrawn
  · intro row col hx
    refine (hshows.blank (row, col) ?_).2
    rw [onPage]
    split
    case isTrue hpage =>
      apply arms_eq_none
      intro l hl
      rw [← Bool.not_eq_true]
      exact fun hc => hx ⟨hpage.1, hpage.2, l, hl, hc⟩
    case isFalse => rfl
  · intro ms hms
    have hstraight : ∀ m ∈ ms, m.Straight := by
      intro m hm
      obtain ⟨l, hl, he⟩ := Segment.exists_of_ends hms hm
      exact (hls l hl).of_ends he
    obtain ⟨q, hq, hsame⟩ := Plot.shows_drawAll hstraight
    rw [Segment.arms_of_ends hms] at hsame
    refine ⟨q, hq, ?_⟩
    intro row col
    by_cases hn : onPage (arms ls) (row, col) = .none
    · rw [(hsame.blank _ hn).2, (hshows.blank _ hn).2]
    · rw [(hsame.drawn _ hn).2, (hshows.drawn _ hn).2]

/-- A level line that begins left of the page meets the end of an upright line in a corner. -/
theorem lines_show_union_at_corner :
    (∀ l ∈ [(⟨(0, -2), (0, 3), .blank⟩ : Segment), ⟨(2, 3), (0, 3), .blank⟩], l.Straight) ∧
    ∃ p, Plot.empty.drawAll? [⟨(0, -2), (0, 3), .blank⟩, ⟨(2, 3), (0, 3), .blank⟩] = some p ∧
      (p.grid.get 0 0).ch = '─' ∧ (p.grid.get 0 3).ch = '┐' ∧ (p.grid.get 2 3).ch = '│' ∧
      p.grid.get 1 0 = .blank := by
  have hls : ∀ l ∈ [(⟨(0, -2), (0, 3), .blank⟩ : Segment), ⟨(2, 3), (0, 3), .blank⟩],
      l.Straight := by
    intro l hl
    obtain rfl | rfl : l = ⟨(0, -2), (0, 3), .blank⟩ ∨ l = ⟨(2, 3), (0, 3), .blank⟩ := by
      simpa using hl
    · exact ⟨by decide, by decide, by decide, by decide⟩
    · exact ⟨by decide, by decide, by decide, by decide⟩
  obtain ⟨p, hp, hchar, hblank, -⟩ := lines_show_union _ hls
  exact ⟨hls, p, hp, hchar 0 0 (by decide) (by decide) (by decide),
    hchar 0 3 (by decide) (by decide) (by decide), hchar 2 3 (by decide) (by decide) (by decide),
    hblank 1 0 (by decide)⟩

end Galley.Terminal
