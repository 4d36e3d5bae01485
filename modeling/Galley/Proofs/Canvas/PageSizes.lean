import Galley.Proofs.Canvas.Pages
import Galley.Proofs.Device.SelectedFont
import Galley.Proofs.Interpreter.Origins
import Galley.Proofs.Number.Rounding
/-!
The sizes of pages. A page is as large as the paper that the last escape up to its end sets, and
otherwise as large as the paper of the options is when the page begins.
-/
namespace Galley
open Device

namespace Token

def paper? (t : Token) : Option (Length × Length) :=
  if t.kind = .deviceControl then
    match Control.parse t.operand with
    | .escape (.paperSize w h) => some (w, h)
    | _ => none
  else none

theorem paper?_eq_some {t : Token} {paper : Length × Length} :
    t.paper? = some paper ↔
      t.kind = .deviceControl ∧ Control.parse t.operand = .escape (.paperSize paper.1 paper.2) := by
  rw [paper?]
  split
  case isTrue hk =>
    split
    case h_1 w h hc => simp [hk, hc, Prod.ext_iff]
    case h_2 hc => simpa [hk] using hc _ _
  case isFalse hk => simp [hk]

theorem paper?_of_resolution? {t : Token} {r : Resolution} (h : t.resolution? = some r) :
    t.paper? = none := by
  obtain ⟨hk, hc⟩ := resolution?_eq_some.mp h
  rw [paper?, if_pos hk, hc]

theorem resolution?_of_paper? {t : Token} {paper : Length × Length} (h : t.paper? = some paper) :
    t.resolution? = none := by
  obtain ⟨hk, hc⟩ := paper?_eq_some.mp h
  rw [resolution?, if_pos hk, hc]

/-- The units per inch in force after commands. -/
def unitsAfter (ts : List Token) : Int :=
  ((ts.filterMap resolution?).getLast?.getD .initial).unitsPerInch

/-- The width and height of the paper that the last escape among commands sets, and the units per
inch in force when it is executed. -/
def lastPaper? (ts : List Token) : Option (Length × Length × Int) :=
  match ts.reverse.dropWhile (·.paper?.isNone) with
  | [] => none
  | t :: before => t.paper?.map fun (w, h) => (w, h, unitsAfter before.reverse)

def paperAfter? (ts : List Token) : Option (Int × Int) :=
  (lastPaper? ts).map fun (w, h, units) => (w.toUnits units, h.toUnits units)

theorem unitsAfter_concat (ts : List Token) (t : Token) :
    unitsAfter (ts ++ [t]) = (t.resolution?.map Resolution.unitsPerInch).getD (unitsAfter ts) := by
  rw [unitsAfter, getLast?_filterMap_concat, Option.getD_or]
  cases t.resolution? <;> rfl

theorem unitsAfter_concat_of_none {t : Token} (h : t.resolution? = none) (ts : List Token) :
    unitsAfter (ts ++ [t]) = unitsAfter ts := by
  rw [unitsAfter_concat, h]
  rfl

theorem paperAfter?_concat_of_none {t : Token} (h : t.paper? = none) (ts : List Token) :
    paperAfter? (ts ++ [t]) = paperAfter? ts := by
  simp [paperAfter?, lastPaper?, h]

theorem paperAfter?_concat_of_some {t : Token} {w l : Length} (h : t.paper? = some (w, l))
    (ts : List Token) :
    paperAfter? (ts ++ [t]) =
      some (w.toUnits (unitsAfter ts), l.toUnits (unitsAfter ts)) := by
  simp [paperAfter?, lastPaper?, h]

end Token

theorem Length.toUnits_eq (units : Int) (l : Length) :
    l.toUnits units =
      match l with
      | .inches n => Double.rounded (n * Float.ofInt units)
      | .units n => Double.rounded n := by
  cases l <;> exact Double.ofFloat_eq_rounded _

/-! The calls of a command that sizes depend on. -/

def Device.Call.sizing? : Call → Option Call
  | .resolution r => some (.resolution r)
  | .beginPage n => some (.beginPage n)
  | .paperSize w h => some (.paperSize w h)
  | _ => none

namespace Interpreter

theorem sizing_exec_of_beginPage {t : Token} (h : t.kind = .beginPage) (st : Interpreter) :
    (st.exec t).2.filterMap Call.sizing? = [.beginPage t.value] := by
  have hp : st.piece? t = none := by simp [piece?, h]
  have hcalls : (st.forget.execDirect t).2 = (st.forget.beginPage t.value).2 := by
    rw [execDirect, perform, h]
    simp only [readInt_fst]
    rfl
  rw [exec_of_none hp, hcalls, List.filterMap_append, filterMap_flush fun _ => rfl, beginPage]
  split <;> rfl

theorem sizing_exec_of_resolution? {t : Token} {r : Resolution} (h : t.resolution? = some r)
    (st : Interpreter) : (st.exec t).2.filterMap Call.sizing? = [.resolution r] := by
  rw [exec_of_resolution? h, List.filterMap_append, filterMap_flush fun _ => rfl]
  rfl

theorem sizing_exec_of_paper? {t : Token} {w l : Length} (h : t.paper? = some (w, l))
    (st : Interpreter) :
    let units := st.resolution.unitsPerInch
    (st.exec t).2.filterMap Call.sizing? = [.paperSize (w.toUnits units) (l.toUnits units)] := by
  obtain ⟨hk, hc⟩ := Token.paper?_eq_some.mp h
  rw [filterMap_exec_of_control (fun _ => rfl) hk, hc]
  rfl

theorem sizing_exec_of_none {t : Token} (hk : t.kind ≠ .beginPage) (hr : t.resolution? = none)
    (hp : t.paper? = none) (st : Interpreter) : (st.exec t).2.filterMap Call.sizing? = [] := by
  by_cases hcontrol : t.kind = .deviceControl
  · rw [filterMap_exec_of_control (fun _ => rfl) hcontrol]
    rw [Token.resolution?, if_pos hcontrol] at hr
    rw [Token.paper?, if_pos hcontrol] at hp
    cases hc : Control.parse t.operand
    case resolution r => simp [hc] at hr
    case stop => exact filterMap_endPage rfl st
    case escape e =>
      cases e
      case paperSize w l => simp [hc] at hp
      case exec s code =>
        exact filterMap_escape_exec (fun _ => rfl) (fun _ => rfl) (fun _ => rfl) st s code
      all_goals rfl
    all_goals rfl
  · refine filterMap_exec_eq_nil (fun _ => rfl) (fun x hx => ?_) st
    cases x
    case resolution r => exact absurd (List.mem_singleton.mp hx) hcontrol
    case paperSize w l => exact absurd (List.mem_singleton.mp hx) hcontrol
    case beginPage n => exact absurd (List.mem_singleton.mp hx) hk
    all_goals rfl

/-! The resolution of the interpreter. -/

theorem resolution_takeMarks (st : Interpreter) (text : String) :
    (st.takeMarks text).resolution = st.resolution := by
  refine List.foldlRecOn (motive := fun u : Interpreter => u.resolution = st.resolution) _ _ rfl
    fun u hu m _ => ?_
  rw [← hu, takeMark]
  cases m.destination? <;> rfl

theorem resolution_control (st : Interpreter) (c : Control) :
    (st.control c).1.resolution =
      match c with
      | .resolution r => r
      | _ => st.resolution := by
  cases c
  case stop =>
    rw [control, endPage]
    split <;> rfl
  case escape e =>
    cases e
    case exec s code => exact resolution_takeMarks st code
    case other text => exact resolution_takeMarks st text
    all_goals rfl
  all_goals rfl

theorem resolution_perform (st : Interpreter) (t : Token) :
    (st.perform t).state.resolution = t.resolution?.getD st.resolution := by
  by_cases hk : t.kind = .deviceControl
  · have hstate : (st.perform t).state = (st.control (Control.parse t.operand)).1 := by
      rw [perform, hk]
      rfl
    rw [hstate, resolution_control, Token.resolution?, if_pos hk]
    cases Control.parse t.operand <;> rfl
  · obtain ⟨_, _, _, _, _, hstate⟩ := state_perform_of_ne hk st
    rw [hstate, Token.resolution?_of_ne hk]
    rfl

theorem resolution_exec (st : Interpreter) (t : Token) :
    (st.exec t).1.resolution = t.resolution?.getD st.resolution := by
  obtain ⟨pending, hexec⟩ := st.exec_eq_execDirect t
  rw [hexec, execDirect, warn_eq]
  exact resolution_perform st.forget t

end Interpreter

namespace Canvas
open Token

def Page.size (page : Page) : Int × Int := (page.width, page.height)

/-- Pages, latest first, that have the sizes that their commands give them. -/
inductive Sized (options : Options) : List Token → List Page → Prop
  | prologue (page : Page)
      (hsize : page.size =
        (paperAfter? page.tokens).getD (options.paper (unitsAfter page.tokens))) :
      Sized options page.tokens [page]
  | page {ts : List Token} {pages : List Page} (page : Page) (h : Sized options ts pages)
      (hsize : page.size =
        (paperAfter? (ts ++ page.tokens)).getD (options.paper (unitsAfter ts))) :
      Sized options (ts ++ page.tokens) (page :: pages)

theorem Sized.flatMap_reverse {options : Options} {ts : List Token} {pages : List Page}
    (h : Sized options ts pages) : pages.reverse.flatMap Page.tokens = ts := by
  induction h with
  | prologue page hsize => simp
  | page page h hsize ih => rw [List.reverse_cons, List.flatMap_append, ih]; simp

theorem Sized.of_append {options : Options} {ts : List Token} {xs pages : List Page}
    (h : Sized options ts (xs ++ pages)) (hne : pages ≠ []) : ∃ us, Sized options us pages := by
  induction xs generalizing ts with
  | nil => exact ⟨ts, h⟩
  | cons x xs ih =>
    rw [List.cons_append] at h
    generalize hrest : xs ++ pages = rest at h
    cases h with
    | prologue _ hsize => exact absurd (List.append_eq_nil_iff.mp hrest).2 hne
    | page _ h hsize => exact ih (hrest ▸ h)

theorem Sized.size_singleton {options : Options} {ts : List Token} {page : Page}
    (h : Sized options ts [page]) :
    page.size = (paperAfter? page.tokens).getD (options.paper (unitsAfter page.tokens)) := by
  cases h with
  | prologue _ hsize => exact hsize
  | page _ h hsize => cases h

theorem Sized.size_cons {options : Options} {ts : List Token} {page : Page} {pages : List Page}
    (h : Sized options ts (page :: pages)) (hne : pages ≠ []) :
    let earlier := pages.reverse.flatMap Page.tokens
    page.size =
      (paperAfter? (earlier ++ page.tokens)).getD (options.paper (unitsAfter earlier)) := by
  cases h with
  | prologue _ hsize => exact absurd rfl hne
  | page _ h hsize =>
    rw [h.flatMap_reverse]
    exact hsize

theorem Sized.of_reverse_eq {options : Options} {ts : List Token} {pages rest : List Page}
    {prologue : Page} (h : Sized options ts pages) (hpages : pages.reverse = prologue :: rest) :
    prologue.size =
        (paperAfter? prologue.tokens).getD (options.paper (unitsAfter prologue.tokens)) ∧
      ∀ before page after, rest = before ++ page :: after →
        let earlier := prologue.tokens ++ before.flatMap Page.tokens
        page.size =
          (paperAfter? (earlier ++ page.tokens)).getD (options.paper (unitsAfter earlier)) := by
  obtain rfl : pages = rest.reverse ++ [prologue] := by
    rw [← List.reverse_reverse pages, hpages, List.reverse_cons]
  -- The latest page is first, so what is after a page in the document is before it here.
  constructor
  · obtain ⟨us, hlast⟩ := h.of_append (by simp)
    exact hlast.size_singleton
  · rintro before page after rfl
    rw [List.reverse_append, List.reverse_cons, List.append_assoc, List.append_assoc] at h
    obtain ⟨us, hpage⟩ := h.of_append (by simp)
    simpa using hpage.size_cons (by simp)

theorem Sized.extend {options : Options} {ts : List Token} {t : Token} {page page' : Page}
    {pages : List Page} (h : Sized options ts (page :: pages))
    (htokens : page'.tokens = page.tokens ++ [t])
    (hfirst : pages = [] → page.size = (paperAfter? ts).getD (options.paper (unitsAfter ts)) →
      page'.size = (paperAfter? (ts ++ [t])).getD (options.paper (unitsAfter (ts ++ [t]))))
    (hlater : pages ≠ [] → ∀ units, page.size = (paperAfter? ts).getD (options.paper units) →
      page'.size = (paperAfter? (ts ++ [t])).getD (options.paper units)) :
    Sized options (ts ++ [t]) (page' :: pages) := by
  cases h with
  | prologue _ hsize =>
    have hnew := hfirst rfl hsize
    rw [← htokens] at hnew ⊢
    exact .prologue page' hnew
  | @page us _ _ h hsize =>
    have hne : pages ≠ [] := by
      rintro rfl
      cases h
    have hnew := hlater hne _ hsize
    rw [List.append_assoc, ← htokens] at hnew ⊢
    exact .page page' h hnew

namespace Pager
variable {o : Options} {p : Pager} {ts : List Token} {t : Token}

structure Agrees (p : Pager) (o : Options) (ts : List Token) : Prop where
  options : p.options = o
  units : p.unitsPerInch = unitsAfter ts
  paper : p.paper = paperAfter? ts
  sized : Sized o ts (close p.current :: p.done)

theorem agrees_initial (o : Options) : (initial o).Agrees o [] where
  options := rfl
  units := rfl
  paper := rfl
  sized := .prologue (newPage (o.paper Resolution.initial.unitsPerInch) 0) rfl

theorem tokens_close_keep (p : Pager) (t : Token) :
    (close (p.keep t).current).tokens = (close p.current).tokens ++ [t] := List.reverse_cons

theorem Agrees.size_eq (h : p.Agrees o ts) :
    p.size = (paperAfter? ts).getD (o.paper (unitsAfter ts)) := by
  rw [size, h.paper, h.options, h.units]

theorem Agrees.beginPage (h : p.Agrees o ts) (hk : t.kind = .beginPage) (n : Int) :
    ((p.beginPage n).keep t).Agrees o (ts ++ [t]) := by
  have hr : t.resolution? = none := resolution?_of_ne (by simp [hk])
  have hp : t.paper? = none := if_neg (by simp [hk])
  refine ⟨h.options, ?_, ?_, ?_⟩
  · rw [unitsAfter_concat_of_none hr]
    exact h.units
  · rw [paperAfter?_concat_of_none hp]
    exact h.paper
  · refine .page ⟨n, p.size.1, p.size.2, [t]⟩ h.sized ?_
    show p.size = _
    rw [h.size_eq, paperAfter?_concat_of_none hp]

theorem Agrees.keep (h : p.Agrees o ts) (hr : t.resolution? = none) (hp : t.paper? = none) :
    (p.keep t).Agrees o (ts ++ [t]) := by
  have hunits := unitsAfter_concat_of_none hr ts
  have hpaper := paperAfter?_concat_of_none hp ts
  refine ⟨h.options, h.units.trans hunits.symm, h.paper.trans hpaper.symm, ?_⟩
  refine h.sized.extend (p.tokens_close_keep t) (fun _ hsize => ?_) (fun _ units hsize => ?_)
  · rw [hpaper, hunits]
    exact hsize
  · rw [hpaper]
    exact hsize

theorem Agrees.setResolution (h : p.Agrees o ts) {r : Resolution} (hr : t.resolution? = some r) :
    ((p.setResolution r).keep t).Agrees o (ts ++ [t]) := by
  have hunits : unitsAfter (ts ++ [t]) = r.unitsPerInch := by
    rw [unitsAfter_concat, hr]
    rfl
  have hpaper := paperAfter?_concat_of_none (paper?_of_resolution? hr) ts
  rw [Pager.setResolution]
  dsimp only
  -- Only the prologue, and only while no paper is set, gets a size from a resolution.
  split
  case isTrue hfirst =>
    obtain ⟨hdone, hunset⟩ := hfirst
    have hnone : paperAfter? ts = none := by
      rw [← h.paper]
      exact Option.isNone_iff_eq_none.mp hunset
    refine ⟨h.options, hunits.symm, h.paper.trans hpaper.symm, ?_⟩
    refine h.sized.extend (p.tokens_close_keep t) (fun _ _ => ?_) fun hne => ?_
    · rw [hpaper, hnone, hunits, ← h.options]
      show p.paper.getD (p.options.paper r.unitsPerInch) = _
      rw [Option.isNone_iff_eq_none.mp hunset]
    · exact absurd (List.isEmpty_iff.mp hdone) hne
  case isFalse hother =>
    refine ⟨h.options, hunits.symm, h.paper.trans hpaper.symm, ?_⟩
    refine h.sized.extend (p.tokens_close_keep t) (fun hdone hsize => ?_) fun _ units hsize => ?_
    · cases hset : paperAfter? ts with
      | none => simp [hdone, h.paper, hset] at hother
      | some size =>
        rw [hset, Option.getD_some] at hsize
        rw [hpaper, hset, Option.getD_some]
        exact hsize
    · rw [hpaper]
      exact hsize

theorem Agrees.setPaper (h : p.Agrees o ts) {w l : Length} (hp : t.paper? = some (w, l)) :
    ((p.receive (.paperSize (w.toUnits (unitsAfter ts)) (l.toUnits (unitsAfter ts)))).keep
      t).Agrees o (ts ++ [t]) := by
  have hunits := unitsAfter_concat_of_none (resolution?_of_paper? hp) ts
  have hpaper := paperAfter?_concat_of_some hp ts
  refine ⟨h.options, h.units.trans hunits.symm, hpaper.symm, ?_⟩
  refine h.sized.extend (p.tokens_close_keep t) (fun _ _ => ?_) (fun _ _ _ => ?_) <;>
  · rw [hpaper]
    rfl

theorem receiveAll_sizing (p : Pager) (cs : List Device.Call) :
    p.receiveAll (cs.filterMap Call.sizing?) = p.receiveAll cs := by
  induction cs generalizing p with
  | nil => rfl
  | cons c cs ih => cases c <;> exact ih _

theorem Agrees.step (h : p.Agrees o ts) {st : Interpreter}
    (hst : st.resolution.unitsPerInch = unitsAfter ts) (t : Token) :
    ((p.receiveAll (st.exec t).2).keep t).Agrees o (ts ++ [t]) := by
  rw [← receiveAll_sizing]
  by_cases hk : t.kind = .beginPage
  · rw [st.sizing_exec_of_beginPage hk]
    exact h.beginPage hk t.value
  cases hr : t.resolution? with
  | some r =>
    rw [st.sizing_exec_of_resolution? hr]
    exact h.setResolution hr
  | none =>
    cases hp : t.paper? with
    | some paper =>
      rw [st.sizing_exec_of_paper? hp, hst]
      exact h.setPaper hp
    | none =>
      rw [st.sizing_exec_of_none hk hr hp]
      exact h.keep hr hp

end Pager

theorem agrees_paginate {o : Options} {p : Pager} {ts : List Token} (h : p.Agrees o ts)
    (st : Interpreter) (hst : st.resolution.unitsPerInch = unitsAfter ts) (us : List Token) :
    (paginate st p us).2.Agrees o (ts ++ us) := by
  induction us generalizing st p ts with
  | nil => rwa [List.append_nil]
  | cons u us ih =>
    rw [List.append_cons]
    have hexec : (st.exec u).1.resolution.unitsPerInch = unitsAfter (ts ++ [u]) := by
      rw [st.resolution_exec, unitsAfter_concat, ← hst]
      cases u.resolution? <;> rfl
    exact ih (h.step hst u) _ hexec

theorem sized_ofTokens (options : Options) (ts : List Token) :
    let d := Document.ofTokens options ts
    ∃ prologue pages, d.prologue = some prologue ∧ pages.reverse = prologue :: d.pages ∧
      Sized options ts pages := by
  have hagrees := agrees_paginate (Pager.agrees_initial options) .initial rfl ts
  have hfinish := Pager.receiveAll_sizing (paginate .initial (.initial options) ts).2
    (paginate .initial (.initial options) ts).1.finish.2
  rw [Interpreter.filterMap_finish (fun _ => rfl) rfl] at hfinish
  have hpages : ((paginate .initial (.initial options) ts).2.receiveAll
      (paginate .initial (.initial options) ts).1.finish.2).pages =
        (paginate .initial (.initial options) ts).2.pages := congrArg Pager.pages hfinish.symm
  rw [Document.ofTokens]
  dsimp only
  rw [hpages]
  cases hlist : (paginate .initial (.initial options) ts).2.pages with
  | nil => exact absurd hlist (by simp [Pager.pages])
  | cons prologue pages => exact ⟨prologue, _, rfl, hlist, hagrees.sized⟩

/-! The sizes of all the pages together. -/

theorem foldl_sizes (f : Int → Int → Int) (pages : List Page) (w h : Int) :
    pages.foldl (fun (w, h) p => (f w p.width, f h p.height)) (w, h) =
      ((pages.map Page.width).foldl f w, (pages.map Page.height).foldl f h) := by
  induction pages generalizing w h with
  | nil => rfl
  | cons page pages ih => exact ih _ _

theorem Document.sizeBy_of_cons {d : Document} {page : Page} {pages : List Page}
    (h : d.pages = page :: pages) (f : Int → Int → Int) :
    d.sizeBy f = ((pages.map Page.width).foldl f page.width,
      (pages.map Page.height).foldl f page.height) := by
  rw [sizeBy, h]
  exact foldl_sizes f pages _ _

theorem Options.paper_eq (options : Options) (units : Int) :
    options.paper units =
      (Double.rounded (options.paperWidth * Float.ofInt units),
        Double.rounded (options.paperHeight * Float.ofInt units)) := by
  rw [paper, Double.ofFloat_eq_rounded, Double.ofFloat_eq_rounded]

/-- The size of a page is that of the paper that the last escape up to the end of the page sets,
at the units per inch in force when the escape is executed. Without one it is that of the paper of
the options at the units per inch in force when the page begins or, for the prologue, when it ends.
The smallest and largest sizes are those over the pages, the prologue apart. -/
theorem sizes_of_source (options : Options) (legacy : Bool) (source : String) :
    let ts := Token.tokenize legacy source
    let d := Document.ofSource options legacy source
    let inUnits (units : Int) : Length → Int
      | .inches n => Double.rounded (n * Float.ofInt units)
      | .units n => Double.rounded n
    let sizeAfter (ts : List Token) (units : Int) : Int × Int :=
      match lastPaper? ts with
      | some (w, h, units) => (inUnits units w, inUnits units h)
      | none =>
        (Double.rounded (options.paperWidth * Float.ofInt units),
          Double.rounded (options.paperHeight * Float.ofInt units))
    ∃ prologue, d.prologue = some prologue ∧
      prologue.tokens ++ d.pages.flatMap Page.tokens = ts ∧
      prologue.size = sizeAfter prologue.tokens (unitsAfter prologue.tokens) ∧
      (∀ before page after, d.pages = before ++ page :: after →
        let earlier := prologue.tokens ++ before.flatMap Page.tokens
        page.size = sizeAfter (earlier ++ page.tokens) (unitsAfter earlier)) ∧
      (d.pages ≠ [] →
        (d.pages.map Page.width).min? = some d.minSize.1 ∧
        (d.pages.map Page.height).min? = some d.minSize.2 ∧
        (d.pages.map Page.width).max? = some d.maxSize.1 ∧
        (d.pages.map Page.height).max? = some d.maxSize.2) := by
  intro ts d inUnits sizeAfter
  have hsize (ts : List Token) (units : Int) :
      (paperAfter? ts).getD (options.paper units) = sizeAfter ts units := by
    simp only [paperAfter?, sizeAfter, Options.paper_eq]
    cases lastPaper? ts with
    | none => rfl
    | some paper => simp only [Option.map_some, Option.getD_some, Length.toUnits_eq, inUnits]
  obtain ⟨prologue, pages, hprologue, hreverse, hsized⟩ : ∃ (prologue : Page) (pages : List Page),
      d.prologue = some prologue ∧ pages.reverse = prologue :: d.pages ∧ Sized options ts pages :=
    sized_ofTokens options ts
  obtain ⟨hfirst, hpages⟩ := hsized.of_reverse_eq hreverse
  have htokens := hsized.flatMap_reverse
  rw [hreverse, List.flatMap_cons] at htokens
  refine ⟨prologue, hprologue, htokens, hfirst.trans (hsize _ _), fun before page after h => ?_,
    fun hne => ?_⟩
  · exact (hpages before page after h).trans (hsize _ _)
  · cases hd : d.pages with
    | nil => exact absurd hd hne
    | cons page rest =>
      rw [Document.minSize, Document.maxSize, Document.sizeBy_of_cons hd,
        Document.sizeBy_of_cons hd]
      exact ⟨rfl, rfl, rfl, rfl⟩

/-- The first page begins at 300 units per inch, and the paper of the second is set at 600. -/
def resizedSource : String := "x res 300 1 1\np1\nx res 600 1 1\np2\nx X papersize=2i,50\n"

theorem sizes_of_source_resized :
    let d := Document.ofSource {} false resizedSource
    d.prologue.map Page.size = some (2550, 3300) ∧
    d.pages.map Page.size = [(2550, 3300), (1200, 50)] ∧
    d.minSize = (1200, 50) ∧ d.maxSize = (2550, 3300) := by
  intro d
  let ts := tokenize false resizedSource
  have htokens : d.prologue.map Page.tokens = some (ts.take 1) ∧
      d.pages.map Page.tokens = [(ts.drop 1).take 2, ts.drop 3] := by
    decide +kernel
  obtain ⟨hfirsttokens, hrest⟩ := htokens
  obtain ⟨p, ps, hpages, hptokens, hrest⟩ := List.map_eq_cons_iff.mp hrest
  obtain ⟨q, rfl, hqtokens⟩ := List.map_eq_singleton_iff.mp hrest
  obtain ⟨prologue, hprologue, -, hfirst, hsize, hextremes⟩ :=
    sizes_of_source {} false resizedSource
  change d.prologue = some prologue at hprologue
  rw [hprologue] at hfirsttokens
  rw [Option.some.inj hfirsttokens] at hfirst hsize
  have hfirst : prologue.size = (2550, 3300) := hfirst.trans (by decide +kernel)
  have hp : p.size = (2550, 3300) := by
    refine (hsize [] p [q] hpages).trans ?_
    rw [hptokens]
    decide +kernel
  have hq : q.size = (1200, 50) := by
    refine (hsize [p] q [] hpages).trans ?_
    rw [List.flatMap_singleton, hptokens, hqtokens]
    decide +kernel
  have hsizes : d.pages.map Page.size = [(2550, 3300), (1200, 50)] := by
    rw [hpages, List.map_cons, List.map_singleton, hp, hq]
  have hwidths : d.pages.map Page.width = [2550, 1200] := by
    rw [hpages]
    exact congrArg₂ (fun m n : Int × Int => [m.1, n.1]) hp hq
  have hheights : d.pages.map Page.height = [3300, 50] := by
    rw [hpages]
    exact congrArg₂ (fun m n : Int × Int => [m.2, n.2]) hp hq
  obtain ⟨hminwidth, hminheight, hmaxwidth, hmaxheight⟩ := hextremes (hpages ▸ List.cons_ne_nil p _)
  rw [hwidths] at hminwidth hmaxwidth
  rw [hheights] at hminheight hmaxheight
  refine ⟨by rw [hprologue, Option.map_some, hfirst], hsizes, Prod.ext ?_ ?_, Prod.ext ?_ ?_⟩
  · exact (Option.some.inj hminwidth).symm
  · exact (Option.some.inj hminheight).symm
  · exact (Option.some.inj hmaxwidth).symm
  · exact (Option.some.inj hmaxheight).symm

end Canvas
end Galley
