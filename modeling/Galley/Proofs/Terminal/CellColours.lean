import Mathlib.Data.List.Basic
import Mathlib.Data.List.GetD
import Galley.Proofs.Colour.Nearest
import Galley.Proofs.Device.Comments
import Galley.Proofs.Terminal.Colours
import Galley.Proofs.Terminal.Faces
import Galley.Proofs.Terminal.Lines
import Galley.Proofs.Terminal.Refusal
/-!
The colours of cells. A cell keeps the colour of the last text or line that was visible on it, and
that is the palette entry nearest to the stroke colour in force then.
-/
namespace Galley
open Device

/-! Commands that set the colour of strokes. -/

def Device.Call.stroke? : Call → Option Colour
  | .strokeColour c => some c
  | _ => none

namespace Token

def stroke? (t : Token) : Option Colour :=
  if t.kind = .setColour then (Interpreter.readColour t.operand.toList).1 else none

def strokeColour (ts : List Token) : Colour := (ts.filterMap stroke?).getLast?.getD .default

theorem strokeColour_concat (ts : List Token) (t : Token) :
    strokeColour (ts ++ [t]) = t.stroke?.getD (strokeColour ts) := by
  rw [strokeColour, getLast?_filterMap_concat, Option.getD_or]
  rfl

end Token

namespace Interpreter

theorem stroke_exec_of_ne {t : Token} (h : t.kind ≠ .setColour) (st : Interpreter) :
    (st.exec t).2.filterMap Call.stroke? = [] := by
  refine filterMap_exec_eq_nil (fun _ => rfl) (fun x hx => ?_) st
  cases x
  case strokeColour c => exact absurd (List.mem_singleton.mp hx) h
  all_goals rfl

theorem calls_exec_of_setColour {t : Token} (h : t.kind = .setColour) (st : Interpreter) :
    (st.exec t).2 = st.flush.2 ++ (t.stroke?.map Call.strokeColour).toList := by
  have hp : st.piece? t = none := by simp [piece?, h]
  have hcalls : (st.forget.execDirect t).2 = (t.stroke?.map Call.strokeColour).toList := by
    rw [execDirect, perform, Token.stroke?, if_pos h, h]
  rw [exec_of_none hp, hcalls]

end Interpreter

namespace Terminal

/-! Cells of many pages. -/

/-- A place on a page. Pages are counted from 0. -/
structure Spot where
  page : Nat
  row : Int
  col : Int
  deriving DecidableEq

namespace Spot

/-- The page that is written to, the latest one or the first. -/
def latest (pages : List Grid) : Nat := pages.length - 1

def on (pages : List Grid) (x : Int × Int) : Spot := ⟨latest pages, x.1, x.2⟩

theorem mem_map_on {pages : List Grid} {cells : List (Int × Int)} {x : Spot} :
    x ∈ cells.map (on pages) ↔ x.page = latest pages ∧ (x.row, x.col) ∈ cells := by
  rw [List.mem_map]
  constructor
  · rintro ⟨y, hy, rfl⟩
    exact ⟨rfl, hy⟩
  · rintro ⟨hpage, hcell⟩
    exact ⟨_, hcell, by rw [on, ← hpage]⟩

end Spot

open Spot

/-- The cell at a place, of pages with the latest first. A page that has not begun is blank. -/
def cellAt (pages : List Grid) (x : Spot) : Cell :=
  (pages.reverse.getD x.page .empty).get x.row x.col

theorem cellAt_eq (pages : List Grid) (x : Spot) :
    cellAt pages x = if x.page = latest pages then (pages.headD .empty).get x.row x.col
      else cellAt pages.tail x := by
  cases pages with
  | nil => simp [cellAt]
  | cons g gs =>
    have hlatest : latest (g :: gs) = gs.reverse.length := by simp [latest]
    rw [cellAt, cellAt, hlatest, List.reverse_cons, List.headD_cons, List.tail_cons]
    obtain hlt | heq | hgt := lt_trichotomy x.page gs.reverse.length
    · rw [if_neg hlt.ne, List.getD_append _ _ _ _ hlt]
    · rw [if_pos heq, heq, List.getD_append_right _ _ _ _ le_rfl, Nat.sub_self]
      rfl
    · have hlength : (gs.reverse ++ [g]).length ≤ x.page := by
        rw [List.length_append]
        exact hgt
      rw [if_neg hgt.ne', List.getD_eq_default _ _ hlength, List.getD_eq_default _ _ hgt.le]

/-- Places of pages were written to in a colour. -/
def Recolours (colour : Int) (spots : List Spot) (pages pages' : List Grid) : Prop :=
  ∀ x : Spot, 0 ≤ x.row → 0 ≤ x.col →
    (cellAt pages' x).colour = if x ∈ spots then colour else (cellAt pages x).colour

namespace Recolours

variable {colour : Int} {xs ys : List Spot} {p q r : List Grid}

theorem nil (colour : Int) (p : List Grid) : Recolours colour [] p p := fun _ _ _ => rfl

theorem append (h : Recolours colour xs p q) (k : Recolours colour ys q r) :
    Recolours colour (xs ++ ys) p r := by
  intro x hrow hcol
  rw [k x hrow hcol, h x hrow hcol]
  by_cases hy : x ∈ ys <;> simp [hy]

end Recolours

theorem latest_cons_tail (g : Grid) (pages : List Grid) : latest (g :: pages.tail) = latest pages := by
  rw [latest, latest, List.length_cons, List.length_tail, Nat.add_sub_cancel]

theorem recolours_latest {colour : Int} {cells : List (Int × Int)} {pages : List Grid} {g : Grid}
    (h : ∀ row col : Int, 0 ≤ row → 0 ≤ col → (g.get row col).colour =
      if (row, col) ∈ cells then colour else ((pages.headD .empty).get row col).colour) :
    Recolours colour (cells.map (on pages)) pages (g :: pages.tail) := by
  intro x hrow hcol
  rw [cellAt_eq, cellAt_eq pages, latest_cons_tail, List.headD_cons, List.tail_cons]
  simp only [mem_map_on]
  by_cases hpage : x.page = latest pages
  · simp only [hpage, if_true, true_and]
    exact h x.row x.col hrow hcol
  · simp only [hpage, if_false, false_and]

/-! Places that calls write to. -/

theorem onPage_eq (f : Grid → Grid) (pages : List Grid) :
    Screen.onPage f pages = f (pages.headD .empty) :: pages.tail := by
  cases pages <;> rfl

theorem recolours_write (pages : List Grid) (w : Write) :
    Recolours w.cell.colour [on pages (w.row, w.col)] pages
      (Screen.onPage (·.set w.row w.col w.cell) pages) := by
  rw [onPage_eq]
  show Recolours w.cell.colour ([(w.row, w.col)].map (on pages)) pages _
  refine recolours_latest fun row col hrow hcol => ?_
  simp only [Grid.get_set, List.mem_singleton, Prod.mk.injEq]
  by_cases h : row = w.row ∧ col = w.col
  · rw [if_pos h, if_pos (by omega)]
  · rw [if_neg h, if_neg (by omega)]

theorem recolours_stamp {colour : Int} {ws : List Write} (h : ∀ w ∈ ws, w.cell.colour = colour)
    (pages : List Grid) :
    Recolours colour (ws.map fun w => on pages (w.row, w.col)) pages (Screen.stamp pages ws) := by
  induction ws generalizing pages with
  | nil => exact .nil colour pages
  | cons w ws ih =>
    obtain ⟨rfl, hws⟩ := List.forall_mem_cons.mp h
    have hrest := ih hws (Screen.onPage (·.set w.row w.col w.cell) pages)
    have hlatest : on (Screen.onPage (·.set w.row w.col w.cell) pages) = on pages := by
      rw [onPage_eq]
      funext x
      rw [on, on, latest_cons_tail]
    rw [hlatest] at hrest
    exact (recolours_write pages w).append hrest

namespace Screen

def lineSpots (s : Screen) (start stop : Int × Int) : List Spot :=
  let l : Segment := ⟨start, stop, s.cell ' '⟩
  if l.Drawable then (Plot.inkedCells l).map (on s.pages) else []

def spotsTo (s : Screen) (h v : Int) : List Spot :=
  if s.visible then s.lineSpots (s.place s.h s.v) (s.place h v) else []

def spotsAlong (s : Screen) : List (Int × Int) → List Spot
  | [] => []
  | d :: offsets =>
    s.spotsTo (Number.add s.h d.1) (Number.add s.v d.2) ++ (s.lineBy d).spotsAlong offsets

/-- The places that a call that is not a run writes to, in the order of the writes. -/
def spotsFor (s : Screen) : Call → List Spot
  | .draw (.line dh dv) => s.spotsAlong [(dh, dv)]
  | .draw (.polygon offsets _) =>
    s.spotsAlong offsets ++ (offsets.foldl lineBy s).spotsTo s.h s.v
  | c => (s.writesFor c).map fun w => on s.pages (w.row, w.col)

theorem recolours_plot (s : Screen) (start stop : Int × Int) :
    Recolours s.colour (s.lineSpots start stop) s.pages (s.plot start stop).pages := by
  let l : Segment := ⟨start, stop, s.cell ' '⟩
  let p : Plot := ⟨s.pages.headD .empty, s.strokes⟩
  have hplot : (s.plot start stop).pages = (p.draw l).grid :: s.pages.tail :=
    congrArg Screen.pages (s.plot_eq start stop)
  rw [hplot, lineSpots]
  by_cases hdrawable : l.Drawable
  · rw [if_pos hdrawable]
    have hinks := Plot.draw_inks hdrawable p
    refine recolours_latest fun row col _ _ => ?_
    split
    case isTrue hmem => exact (hinks.drawn (row, col) hmem).colour
    case isFalse hmem => rw [hinks.kept (row, col) hmem]
  · rw [if_neg hdrawable, Plot.draw, Plot.line?_of_not_drawable hdrawable]
    show Recolours s.colour (([] : List (Int × Int)).map (on s.pages)) s.pages _
    exact recolours_latest fun row col _ _ => by simp [p]

theorem recolours_lineTo (s : Screen) (h v : Int) :
    Recolours s.colour (s.spotsTo h v) s.pages (s.lineTo h v).pages := by
  rw [spotsTo, lineTo]
  split
  · exact s.recolours_plot _ _
  · exact .nil s.colour s.pages

theorem colour_lineTo (s : Screen) (h v : Int) : (s.lineTo h v).colour = s.colour :=
  congrArg Cursor.colour (s.cursor_lineTo h v)

theorem recolours_lines (s : Screen) (offsets : List (Int × Int)) :
    Recolours s.colour (s.spotsAlong offsets) s.pages (offsets.foldl lineBy s).pages ∧
      (offsets.foldl lineBy s).colour = s.colour := by
  induction offsets generalizing s with
  | nil => exact ⟨.nil s.colour s.pages, rfl⟩
  | cons d offsets ih =>
    have hcolour : (s.lineBy d).colour = s.colour := s.colour_lineTo _ _
    obtain ⟨hrest, hlast⟩ := ih (s.lineBy d)
    rw [hcolour] at hrest hlast
    exact ⟨(s.recolours_lineTo _ _).append hrest, hlast⟩

theorem recolours_draw (s : Screen) (d : Drawing) :
    Recolours s.colour (s.spotsFor (.draw d)) s.pages (s.draw d).pages := by
  cases d
  case line dh dv => exact (s.recolours_lines [(dh, dv)]).1
  case polygon offsets filled =>
    obtain ⟨hsides, hcolour⟩ := s.recolours_lines offsets
    have hclosing := (offsets.foldl lineBy s).recolours_lineTo s.h s.v
    rw [hcolour] at hclosing
    exact hsides.append hclosing
  all_goals exact .nil s.colour s.pages

theorem recolours_beginPage (colour : Int) (pages : List Grid) :
    Recolours colour [] pages (.empty :: pages) := by
  intro x _ _
  rw [cellAt_eq]
  split
  case isTrue hpage =>
    -- The page that begins has not been there, so it was blank.
    have hlength : pages.reverse.length ≤ x.page := by
      rw [hpage, latest, List.length_cons, List.length_reverse, Nat.add_sub_cancel]
    rw [cellAt, List.getD_eq_default _ _ hlength]
    rfl
  case isFalse => rfl

theorem recolours_step (s : Screen) (c : Call) :
    Recolours s.colour (s.spotsFor c) s.pages (s.step c).pages := by
  by_cases hdraw : ∃ d, c = .draw d
  · obtain ⟨d, rfl⟩ := hdraw
    exact s.recolours_draw d
  by_cases hbegin : ∃ n, c = .beginPage n
  · obtain ⟨n, rfl⟩ := hbegin
    exact recolours_beginPage s.colour s.pages
  have hspots : s.spotsFor c = (s.writesFor c).map fun w => on s.pages (w.row, w.col) := by
    cases c
    case draw d => exact absurd ⟨d, rfl⟩ hdraw
    all_goals rfl
  rw [pages_step s c (not_exists.mp hdraw) (not_exists.mp hbegin), hspots]
  refine recolours_stamp (fun w hw => ?_) s.pages
  obtain ⟨ch, -, hcell⟩ := s.cell_writesFor c w hw
  rw [hcell]
  rfl

theorem colour_step (s : Screen) (c : Call) :
    (s.step c).colour = (c.stroke?.map Palette.index).getD s.colour := by
  refine (congrArg Cursor.colour (s.cursor_step c)).trans ?_
  cases c
  case resolution r =>
    rw [Cursor.step]
    split <;> rfl
  all_goals rfl

/-! Many calls. -/

def spotsForAll (s : Screen) : List Call → List Spot
  | [] => []
  | c :: cs => s.spotsFor c ++ (s.step c).spotsForAll cs

def spots (s : Screen) (cs : List Call) : List Spot := s.spotsForAll (cs.flatMap Call.expand)

theorem spotsForAll_append (s : Screen) (cs ds : List Call) :
    s.spotsForAll (cs ++ ds) = s.spotsForAll cs ++ (cs.foldl step s).spotsForAll ds := by
  induction cs generalizing s with
  | nil => rfl
  | cons c cs ih => simp only [List.cons_append, spotsForAll, ih, List.append_assoc, List.foldl_cons]

theorem recolours_spotsForAll {cs : List Call} (h : ∀ c ∈ cs, c.stroke? = none) (s : Screen) :
    Recolours s.colour (s.spotsForAll cs) s.pages (cs.foldl step s).pages ∧
      (cs.foldl step s).colour = s.colour := by
  induction cs generalizing s with
  | nil => exact ⟨.nil s.colour s.pages, rfl⟩
  | cons c cs ih =>
    obtain ⟨hc, hcs⟩ := List.forall_mem_cons.mp h
    obtain ⟨hwrites, hcolour⟩ := ih hcs (s.step c)
    have hstep := s.colour_step c
    rw [hc] at hstep
    rw [hstep] at hwrites hcolour
    exact ⟨(s.recolours_step c).append hwrites, hcolour⟩

theorem recolours_spots {cs : List Call} (h : cs.filterMap Call.stroke? = []) (s : Screen) :
    Recolours s.colour (s.spots cs) s.pages (screen.receiveAll s cs).pages ∧
      (screen.receiveAll s cs).colour = s.colour := by
  have hexpand : (cs.flatMap Call.expand).filterMap Call.stroke? = [] := by
    rwa [Interpreter.filterMap_expand (fun _ => rfl) (fun p => by cases p <;> rfl)]
  rw [receiveAll_eq]
  exact recolours_spotsForAll (List.filterMap_eq_nil_iff.mp hexpand) s

theorem recolours_spots_concat {cs : List Call} (h : cs.filterMap Call.stroke? = []) (s : Screen)
    (c : Colour) :
    Recolours s.colour (s.spots (cs ++ [.strokeColour c])) s.pages
      (screen.receiveAll s (cs ++ [.strokeColour c])).pages ∧
        (screen.receiveAll s (cs ++ [.strokeColour c])).colour = Palette.index c := by
  have hspots : s.spots (cs ++ [.strokeColour c]) = s.spots cs := by
    rw [spots, List.flatMap_append, spotsForAll_append]
    exact List.append_nil _
  rw [hspots, Sink.receiveAll_append]
  exact ⟨(recolours_spots h s).1, rfl⟩

theorem recolours_exec (s : Screen) (st : Interpreter) (t : Token) :
    Recolours s.colour (s.spots (st.exec t).2) s.pages (screen.receiveAll s (st.exec t).2).pages ∧
      (screen.receiveAll s (st.exec t).2).colour =
        (t.stroke?.map Palette.index).getD s.colour := by
  by_cases ht : t.kind = .setColour
  · have hflush := st.filterMap_flush (f := Call.stroke?) fun _ => rfl
    rw [Interpreter.calls_exec_of_setColour ht]
    cases t.stroke? with
    | none =>
      rw [Option.map_none, Option.toList_none, List.append_nil]
      exact recolours_spots hflush s
    | some c => exact recolours_spots_concat hflush s c
  · rw [Token.stroke?, if_neg ht]
    exact recolours_spots (Interpreter.stroke_exec_of_ne ht st) s

end Screen

/-! The last writes of a whole document. -/

/-- The places that commands write to, each with the commands executed before. -/
def inkLog (st : Interpreter) (s : Screen) (seen : List Token) :
    List Token → List (Spot × List Token)
  | [] => (s.spots st.finish.2).map (·, seen)
  | t :: ts =>
    (s.spots (st.exec t).2).map (·, seen) ++
      inkLog (st.exec t).1 (screen.receiveAll s (st.exec t).2) (seen ++ [t]) ts

/-- The stroke colour in force when a place was last written to. -/
def strokeAt? (log : List (Spot × List Token)) (x : Spot) : Option Colour :=
  (log.reverse.lookup x).map Token.strokeColour

theorem strokeAt?_append (log : List (Spot × List Token)) (xs : List Spot) (seen : List Token)
    (x : Spot) :
    strokeAt? (log ++ xs.map (·, seen)) x =
      if x ∈ xs then some (Token.strokeColour seen) else strokeAt? log x := by
  rw [strokeAt?, List.reverse_append, List.lookup_append, ← List.map_reverse]
  split
  case isTrue h => rw [List.lookup_graph (fun _ => seen) (List.mem_reverse.mpr h)]; rfl
  case isFalse h =>
    have hnone : (xs.reverse.map (·, seen)).lookup x = none := by
      rw [List.lookup_eq_none_iff]
      exact List.forall_mem_map.mpr fun y hy =>
        bne_iff_ne.mpr fun heq => h (heq ▸ List.mem_reverse.mp hy)
    rw [hnone]
    rfl

structure Inked (s : Screen) (seen : List Token) (log : List (Spot × List Token)) : Prop where
  colour : s.colour = Palette.index (Token.strokeColour seen)
  cells : ∀ x : Spot, 0 ≤ x.row → 0 ≤ x.col →
    (cellAt s.pages x).colour = Palette.index ((strokeAt? log x).getD .default)

namespace Inked

variable {s : Screen} {seen : List Token} {log : List (Spot × List Token)}

theorem cells_append (h : Inked s seen log) {xs : List Spot} {pages : List Grid}
    (hwrites : Recolours s.colour xs s.pages pages) :
    ∀ x : Spot, 0 ≤ x.row → 0 ≤ x.col → (cellAt pages x).colour =
      Palette.index ((strokeAt? (log ++ xs.map (·, seen)) x).getD .default) := by
  intro x hrow hcol
  rw [hwrites x hrow hcol, strokeAt?_append, h.colour, h.cells x hrow hcol]
  split <;> rfl

theorem exec (h : Inked s seen log) (st : Interpreter) (t : Token) :
    Inked (screen.receiveAll s (st.exec t).2) (seen ++ [t])
      (log ++ (s.spots (st.exec t).2).map (·, seen)) where
  colour := by
    rw [(s.recolours_exec st t).2, Token.strokeColour_concat, h.colour]
    cases t.stroke? <;> rfl
  cells := h.cells_append (s.recolours_exec st t).1

theorem runAll (h : Inked s seen log) (st : Interpreter) (ts : List Token) :
    ∀ x : Spot, 0 ≤ x.row → 0 ≤ x.col →
      (cellAt (screen.receiveAll s (st.runAll ts).2).pages x).colour =
        Palette.index ((strokeAt? (log ++ inkLog st s seen ts) x).getD .default) := by
  induction ts generalizing s seen log st with
  | nil =>
    have hfinish := st.filterMap_finish (f := Call.stroke?) (fun _ => rfl) rfl
    exact h.cells_append (Screen.recolours_spots hfinish s).1
  | cons t ts ih =>
    have hrest := ih (h.exec st t) (st.exec t).1
    rw [List.append_assoc] at hrest
    rw [Interpreter.runAll_cons, Sink.receiveAll_append]
    exact hrest

end Inked

theorem inked_initial (r : Resolution) (sgr : Bool) : Inked (.initial r sgr) [] [] where
  colour := rfl
  cells := by
    intro x _ _
    exact congrArg Cell.colour (Grid.get_empty x.row x.col)

/-- The places that a source writes to, each with the commands executed before. -/
def inkOfSource (options : Options) (legacy : Bool) (source : String) :
    List (Spot × List Token) :=
  inkLog .initial (.initial options.resolution options.sgr) []
    (executed (Token.tokenize legacy source))

theorem colour_cellAt_ofSource (options : Options) (legacy : Bool) (source : String) {x : Spot}
    (hrow : 0 ≤ x.row) (hcol : 0 ≤ x.col) :
    (cellAt (Document.ofSource options legacy source).screen.pages x).colour =
      Palette.index ((strokeAt? (inkOfSource options legacy source) x).getD .default) := by
  rw [Document.ofSource, Document.screen_ofTokens]
  exact (inked_initial options.resolution options.sgr).runAll .initial _ x hrow hcol

/-- Whether or not a source can be shown to its end, the colour of each cell is the default one or
one of those that are the same on every terminal. It is the default one just if the stroke colour
was when the cell was last written to, or it never was; and else the first of the entries nearest
to that stroke colour. -/
theorem cells_in_nearest_colours (options : Options) (legacy : Bool) (source : String) :
    let d := Document.ofSource options legacy source
    let ink := inkOfSource options legacy source
    ∀ (page : Nat) (g : Grid), d.pages[page]? = some g → ∀ row col : Nat,
      let colour := (g.get row col).colour
      let stroke := strokeAt? ink ⟨page, row, col⟩
      (colour = -1 ∨ 16 ≤ colour ∧ colour ≤ 255) ∧
      (colour = -1 ↔ stroke = none ∨ stroke = some .default) ∧
      ∀ c, stroke = some (.rgb c) → ∃ n : Nat, colour = n ∧ IsLeast (Palette.nearestTo c) n := by
  intro d ink page g hg row col colour stroke
  have hcell : cellAt d.screen.pages ⟨page, row, col⟩ = g.get row col := by
    rw [cellAt, List.getD_eq_getElem?_getD]
    exact congrArg (fun p => (p.getD Grid.empty).get row col) hg
  have hcolour : colour = Palette.index (stroke.getD .default) := by
    rw [← colour_cellAt_ofSource options legacy source (Int.natCast_nonneg row)
      (Int.natCast_nonneg col), hcell]
  rw [hcolour]
  cases stroke with
  | none => exact ⟨.inl rfl, by simp [Palette.index], by simp⟩
  | some stroke =>
    cases stroke with
    | default => exact ⟨.inl rfl, by simp [Palette.index], by simp⟩
    | rgb c =>
      have hleast := Palette.nearest_isLeast c
      have hmem : 16 ≤ Palette.nearest c ∧ Palette.nearest c ≤ 255 := hleast.1.1
      have hindex : Palette.index ((some (Colour.rgb c)).getD .default) = Palette.nearest c := rfl
      have hcoloured : ¬(some (Colour.rgb c) = none ∨ some (Colour.rgb c) = some .default) := by
        intro h
        obtain h | h := h <;> cases h
      rw [hindex]
      refine ⟨.inr (by omega), iff_of_false (by omega) hcoloured, fun c' hc => ?_⟩
      cases hc
      exact ⟨_, rfl, hleast⟩

theorem pages_colouredSource :
    ∃ c, (Document.ofSource {} false colouredSource).pages =
        [Grid.empty.set 0 0 ⟨'R', .regular, Palette.index (.rgb c)⟩] ∧
      strokeAt? (inkOfSource {} false colouredSource) ⟨0, 0, 0⟩ = some (.rgb c) := by
  have hexecuted : executed (Token.tokenize false colouredSource) =
      Token.tokenize false colouredSource := by
    rw [tokenize_colouredSource]
    decide +kernel
  rw [inkOfSource, hexecuted, Document.pages, Document.ofSource, Document.screen_ofTokens, hexecuted,
    tokenize_colouredSource]
  exact ⟨_, rfl, rfl⟩

theorem cells_in_nearest_colours_of_letter :
    ∃ (g : Grid) (c : Rgb) (n : Nat),
      (Document.ofSource {} false colouredSource).pages[0]? = some g ∧
      strokeAt? (inkOfSource {} false colouredSource) ⟨0, 0, 0⟩ = some (.rgb c) ∧
      (g.get 0 0).colour = n ∧ IsLeast (Palette.nearestTo c) n ∧
      (g.get 0 1).colour = -1 := by
  obtain ⟨c, hpages, hstroke⟩ := pages_colouredSource
  let g := Grid.empty.set 0 0 ⟨'R', .regular, Palette.index (.rgb c)⟩
  have hg : (Document.ofSource {} false colouredSource).pages[0]? = some g := by
    rw [hpages]
    rfl
  obtain ⟨-, -, hnearest⟩ := cells_in_nearest_colours {} false colouredSource 0 g hg 0 0
  obtain ⟨n, hcolour, hleast⟩ := hnearest c hstroke
  exact ⟨g, c, n, hg, hstroke, hcolour, hleast, by rw [Grid.get_set]; rfl⟩

end Terminal
end Galley
