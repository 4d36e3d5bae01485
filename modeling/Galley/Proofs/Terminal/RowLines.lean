import Galley.Proofs.Interpreter.Newlines
import Galley.Proofs.Terminal.Faces
import Galley.Proofs.Terminal.Lines
import Galley.Proofs.Terminal.Refusal
import Galley.Proofs.Terminal.Trimming
/-!
Rows as lines of text. A page is put out with a newline after each row, so its rows can be told
apart if no cell holds a newline. What cells hold was printed, is of a line or is blank, and
newlines are printed only by commands that give them by number.
-/
namespace Galley.Terminal
open Device

/-! What all cells of some pages have in common. -/

namespace Grid

def All (P : Cell → Prop) (g : Grid) : Prop := ∀ row col, P (g.get row col)

variable {P : Cell → Prop}

theorem all_empty (hblank : P .blank) : empty.All P := by
  intro row col
  rwa [get_empty]

theorem All.set {g : Grid} (h : g.All P) {c : Cell} (hc : P c) (row col : Int) :
    (g.set row col c).All P := by
  intro i j
  rw [get_set]
  split
  · exact hc
  · exact h i j

theorem All.outputRows {g : Grid} (h : g.All P) (trim : Bool) :
    ∀ row ∈ g.outputRows trim, ∀ c ∈ row, P c := by
  intro row hrow c hc
  obtain ⟨i, hi, rfl⟩ := List.mem_iff_getElem.mp hrow
  obtain ⟨j, hj, rfl⟩ := List.mem_iff_getElem.mp hc
  have hget := g.alike_ofRows_outputRows trim i j
  rw [get_ofRows, List.getD_eq_getElem _ _ hi, List.getD_eq_getElem _ _ hj] at hget
  rw [hget]
  exact h i j

end Grid

def AllCells (P : Cell → Prop) (pages : List Grid) : Prop := ∀ g ∈ pages, g.All P

variable {P : Cell → Prop}

theorem AllCells.headD {pages : List Grid} (h : AllCells P pages) (hblank : P .blank) :
    (pages.headD .empty).All P := by
  cases pages with
  | nil => exact Grid.all_empty hblank
  | cons g gs => exact h g List.mem_cons_self

theorem AllCells.tail {pages : List Grid} (h : AllCells P pages) : AllCells P pages.tail :=
  fun g hg => h g (List.mem_of_mem_tail hg)

theorem Plot.all_draw {p : Plot} (hp : p.grid.All P) {l : Segment}
    (hline : ∀ ch ∈ lineChars, P { l.style with ch := ch }) : (p.draw l).grid.All P := by
  by_cases hdrawable : l.Drawable
  · have hinks := draw_inks hdrawable p
    intro row col
    by_cases hx : (row, col) ∈ inkedCells l
    · obtain ⟨hface, hcolour, hch⟩ := hinks.drawn _ hx
      have hcell := hline _ hch
      dsimp only at hface hcolour hcell
      rwa [← hface, ← hcolour] at hcell
    · rw [hinks.kept _ hx]
      exact hp row col
  · rwa [draw, line?_of_not_drawable hdrawable]

namespace Screen

theorem allCells_stamp (hblank : P .blank) {pages : List Grid} (h : AllCells P pages)
    {ws : List Write} (hws : ∀ w ∈ ws, P w.cell) : AllCells P (stamp pages ws) := by
  induction ws generalizing pages with
  | nil => exact h
  | cons w ws ih =>
    obtain ⟨hw, hws⟩ := List.forall_mem_cons.mp hws
    refine ih ?_ hws
    cases pages with
    | nil => exact List.forall_mem_singleton.mpr ((Grid.all_empty hblank).set hw w.row w.col)
    | cons g gs =>
      obtain ⟨hg, hgs⟩ := List.forall_mem_cons.mp h
      exact List.forall_mem_cons.mpr ⟨hg.set hw w.row w.col, hgs⟩

theorem cell_plot (s : Screen) (start stop : Int × Int) : (s.plot start stop).cell = s.cell := by
  rw [plot_eq]
  rfl

theorem cell_lineTo (s : Screen) (h v : Int) : (s.lineTo h v).cell = s.cell := by
  rw [lineTo]
  split
  · exact s.cell_plot _ _
  · rfl

variable {s : Screen}

theorem allCells_lineTo (hblank : P .blank) (hs : AllCells P s.pages)
    (hline : ∀ ch ∈ lineChars, P (s.cell ch)) (h v : Int) : AllCells P (s.lineTo h v).pages := by
  rw [lineTo]
  split
  · rw [plot_eq]
    exact List.forall_mem_cons.mpr ⟨Plot.all_draw (hs.headD hblank) hline, hs.tail⟩
  · exact hs

theorem allCells_lines (hblank : P .blank) (hs : AllCells P s.pages)
    (hline : ∀ ch ∈ lineChars, P (s.cell ch)) (offsets : List (Int × Int)) :
    AllCells P (offsets.foldl lineBy s).pages ∧ (offsets.foldl lineBy s).cell = s.cell := by
  induction offsets generalizing s with
  | nil => exact ⟨hs, rfl⟩
  | cons d offsets ih =>
    have hcell : (s.lineBy d).cell = s.cell := s.cell_lineTo _ _
    obtain ⟨hpages, hrest⟩ :=
      ih (s := s.lineBy d) (allCells_lineTo hblank hs hline _ _) (by rwa [hcell])
    exact ⟨hpages, hrest.trans hcell⟩

theorem allCells_draw (hblank : P .blank) (hs : AllCells P s.pages)
    (hline : ∀ ch ∈ lineChars, P (s.cell ch)) (d : Drawing) : AllCells P (s.draw d).pages := by
  cases d
  case line dh dv => exact allCells_lineTo hblank hs hline _ _
  case polygon offsets filled =>
    obtain ⟨hpages, hcell⟩ := allCells_lines hblank hs hline offsets
    exact allCells_lineTo hblank hpages (by rwa [hcell]) s.h s.v
  all_goals exact hs

theorem allCells_step (hblank : P .blank) (hs : AllCells P s.pages)
    (hline : ∀ ch ∈ lineChars, P (s.cell ch)) {c : Call} (hc : ∀ ch ∈ c.printed, P (s.cell ch)) :
    AllCells P (s.step c).pages := by
  by_cases hdraw : ∃ d, c = .draw d
  · obtain ⟨d, rfl⟩ := hdraw
    exact allCells_draw hblank hs hline d
  by_cases hbegin : ∃ n, c = .beginPage n
  · obtain ⟨n, rfl⟩ := hbegin
    exact List.forall_mem_cons.mpr ⟨Grid.all_empty hblank, hs⟩
  rw [pages_step s c (not_exists.mp hdraw) (not_exists.mp hbegin)]
  refine allCells_stamp hblank hs fun w hw => ?_
  obtain ⟨ch, hch, hcell⟩ := s.cell_writesFor c w hw
  rw [hcell]
  exact hc ch hch

theorem allCells_receiveAll {x : Char} (hblank : x ≠ ' ') (hline : x ∉ lineChars)
    (hs : AllCells (·.ch ≠ x) s.pages) {cs : List Call} (hcs : ∀ c ∈ cs, x ∉ c.printed) :
    AllCells (·.ch ≠ x) (screen.receiveAll s cs).pages := by
  have hexpand : ∀ c ∈ cs.flatMap Call.expand, x ∉ c.printed := by
    intro c hc hx
    obtain ⟨d, hd, hcd⟩ := List.mem_flatMap.mp hc
    apply hcs d hd
    rw [← d.printed_expand]
    exact List.mem_flatMap.mpr ⟨c, hcd, hx⟩
  rw [receiveAll_eq]
  generalize cs.flatMap Call.expand = ds at hexpand
  induction ds generalizing s with
  | nil => exact hs
  | cons c ds ih =>
    obtain ⟨hc, hds⟩ := List.forall_mem_cons.mp hexpand
    refine ih (allCells_step (fun h => hblank h.symm) hs ?_ ?_) hds
    · exact fun ch hch h => hline (h ▸ hch)
    · exact fun ch hch h => hc (h ▸ hch)

end Screen

theorem allCells_ofSource (options : Options) {legacy : Bool} {source : String}
    (h : ∀ t ∈ executed (Token.tokenize legacy source), ¬ t.PrintsNewline) :
    AllCells (·.ch ≠ '\n') (Document.ofSource options legacy source).pages := by
  have hinitial : Interpreter.initial.HoldsLine := List.forall_mem_nil _
  have hcalls := hinitial.runAll fun t ht =>
    ⟨Token.newline_not_mem_operand legacy source t ((List.takeWhile_prefix _).subset ht), h t ht⟩
  have hscreen := Screen.allCells_receiveAll (s := .initial options.resolution options.sgr)
    (by decide) (by decide) (List.forall_mem_nil _) hcalls
  intro g hg
  rw [Document.pages, Document.ofSource, Document.screen_ofTokens, List.mem_reverse] at hg
  exact hscreen g hg

/-! Pages as lines of text. -/

def Grid.textRows (g : Grid) (trim : Bool) : List (List Char) :=
  (g.outputRows trim).map (·.map Cell.ch)

def linesOf (rows : List (List Char)) : List Char := rows.flatMap (· ++ ['\n'])

theorem toList_pageText (trim : Bool) (g : Grid) :
    (pageText trim g).toList = linesOf (g.textRows trim) := by
  rw [pageText, String.toList_join, linesOf, Grid.textRows, List.flatMap_map, List.flatMap_map]
  congr 1
  funext row
  rw [String.toList_append, String.toList_ofList]
  rfl

theorem count_newline_linesOf (rows : List (List Char)) :
    (linesOf rows).count '\n' = rows.length + rows.flatten.count '\n' := by
  rw [linesOf]
  induction rows with
  | nil => rfl
  | cons row rows ih =>
    rw [List.flatMap_cons, List.count_append, ih, List.count_append, List.flatten_cons,
      List.count_append, List.count_singleton_self, List.length_cons]
    omega

theorem splitOn_linesOf {rows : List (List Char)} (h : ∀ row ∈ rows, '\n' ∉ row) :
    (linesOf rows).splitOn '\n' = rows ++ [[]] := by
  have hlines : linesOf rows = ['\n'].intercalate (rows ++ [[]]) := by
    rw [linesOf]
    induction rows with
    | nil => rfl
    | cons row rows ih =>
      rw [List.flatMap_cons, ih (List.forall_mem_cons.mp h).2, List.cons_append,
        List.intercalate_cons_of_ne_nil (by simp)]
  rw [hlines]
  refine List.splitOn_intercalate _ ?_ (by simp)
  exact List.forall_mem_append.mpr ⟨h, List.forall_mem_singleton.mpr List.not_mem_nil⟩

theorem newline_not_mem_textRows {g : Grid} (h : g.All (·.ch ≠ '\n')) (trim : Bool) :
    ∀ row ∈ g.textRows trim, '\n' ∉ row := by
  rw [Grid.textRows]
  refine List.forall_mem_map.mpr fun row hrow hnewline => ?_
  obtain ⟨c, hc, hch⟩ := List.mem_map.mp hnewline
  exact h.outputRows trim row hrow c hc hch

/-- In the text of a page there is a newline for each row and for each cell that holds one. If no
command that is executed gives a newline by its number, then no cell holds one, and the lines of the
text are the rows. -/
theorem rows_are_lines (options : Options) (legacy : Bool) (source : String) :
    let d := Document.ofSource options legacy source
    d.toText = "\n".intercalate (d.pages.map (pageText options.trim)) ∧
    (∀ g ∈ d.pages, ∀ trim, (pageText trim g).toList.count '\n' =
      (g.outputRows trim).length + (g.textRows trim).flatten.count '\n') ∧
    ((∀ t ∈ executed (Token.tokenize legacy source), ¬ t.PrintsNewline) →
      ∀ g ∈ d.pages, (∀ row col, (g.get row col).ch ≠ '\n') ∧
        ∀ trim, (pageText trim g).toList.count '\n' = (g.outputRows trim).length ∧
          (pageText trim g).toList.splitOn '\n' = g.textRows trim ++ [[]]) := by
  intro d
  have hlength (g : Grid) (trim : Bool) : (g.textRows trim).length = (g.outputRows trim).length :=
    List.length_map _
  have hcount (g : Grid) (trim : Bool) : (pageText trim g).toList.count '\n' =
      (g.outputRows trim).length + (g.textRows trim).flatten.count '\n' := by
    rw [toList_pageText, count_newline_linesOf, hlength]
  refine ⟨rfl, fun g _ => hcount g, fun h g hg => ?_⟩
  have hcells : g.All (·.ch ≠ '\n') := allCells_ofSource options h g hg
  refine ⟨hcells, fun trim => ?_⟩
  have hrows := newline_not_mem_textRows hcells trim
  have hnone : (g.textRows trim).flatten.count '\n' = 0 := by
    rw [List.count_eq_zero, List.mem_flatten]
    rintro ⟨row, hrow, hnewline⟩
    exact hrows row hrow hnewline
  exact ⟨by rw [hcount, hnone, Nat.add_zero], by rw [toList_pageText, splitOn_linesOf hrows]⟩

/-- A source that prints the character with the number of a newline between two letters. -/
def newlineSource : String := "p1\nV0\nH0\nta\nN10\nh24\ntb\n"

/-- A cell can hold a newline, and then its row is put out as two lines. -/
theorem rows_not_always_lines :
    ¬ ∀ (options : Options) (legacy : Bool) (source : String),
      ∀ g ∈ (Document.ofSource options legacy source).pages, ∀ trim,
        (pageText trim g).toList.count '\n' = (g.outputRows trim).length := by
  intro hclaim
  let page : Grid := ⟨#[#[⟨'a', .regular, -1⟩, ⟨'\n', .regular, -1⟩, ⟨'b', .regular, -1⟩]]⟩
  have hpages : (Document.ofSource {} false newlineSource).pages = [page] := by decide +kernel
  have hmem : page ∈ (Document.ofSource {} false newlineSource).pages := by simp [hpages]
  have htwo : (pageText true page).toList.count '\n' = 2 ∧ (page.outputRows true).length = 1 := by
    decide
  have hone := hclaim {} false newlineSource page hmem true
  omega

/-- Characters given by name and by number, none of them a newline. -/
theorem rows_are_lines_of_named_characters :
    let source := "p1\nV0\nH0\nN13\nh24\nCem\nV40\ntb\n"
    let d := Document.ofSource {} false source
    (∀ t ∈ executed (Token.tokenize false source), ¬ t.PrintsNewline) ∧
    ∀ g ∈ d.pages, (∀ row col, (g.get row col).ch ≠ '\n') ∧
      ∀ trim, (pageText trim g).toList.count '\n' = (g.outputRows trim).length ∧
        (pageText trim g).toList.splitOn '\n' = g.textRows trim ++ [[]] := by
  intro source d
  have htokens : executed (Token.tokenize false source) =
      [⟨.beginPage, "1", 0⟩, ⟨.moveAbsV, "0", 3⟩, ⟨.moveAbsH, "0", 6⟩, ⟨.charIndexed, "13", 9⟩,
        ⟨.moveRelH, "24", 13⟩, ⟨.charNamed, "em", 17⟩, ⟨.moveAbsV, "40", 21⟩,
        ⟨.textNormal, "b", 25⟩] := by
    decide +kernel
  have hnumber : Token.value ⟨.charIndexed, "13", 9⟩ ≠ 10 := by decide
  have hname : ¬ Glyph.NamesNewline "em" := by
    rw [← Glyph.newline_mem_resolve_iff (by decide)]
    rintro ⟨s, hs, hnewline⟩
    have hdash : Glyph.resolve "em" = some "—" := by decide +kernel
    obtain rfl := Option.some.inj (hdash.symm.trans hs)
    revert hnewline
    decide
  have h : ∀ t ∈ executed (Token.tokenize false source), ¬ t.PrintsNewline := by
    rw [htokens]
    simp [Token.PrintsNewline, hnumber, hname]
  exact ⟨h, (rows_are_lines {} false source).2.2 h⟩

end Galley.Terminal
