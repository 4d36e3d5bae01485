import Galley.Canvas.Document
import Galley.Proofs.Interpreter.Places
/-!
The pages of a document. The commands before the first page and those of each page make up the
document in order, and a page is what a page command begins.
-/
namespace Galley.Canvas
open Device

/-! Commands in sections, the latest section first. -/

/-- The number and the commands of a page, or of what comes before the first page. -/
abbrev Section := Int × List Token

def extend (t : Token) : List Section → List Section
  | [] => []
  | (n, us) :: ss => (n, us ++ [t]) :: ss

def assign (ss : List Section) (t : Token) : List Section :=
  extend t (if t.kind = .beginPage then (t.value, []) :: ss else ss)

/-- Commands are divided before each page command. -/
inductive Divided : List Token → List Section → Prop
  | prologue {us : List Token} (hus : ∀ u ∈ us, u.kind ≠ .beginPage) : Divided us [(0, us)]
  | page {ts us : List Token} {ss : List Section} {t : Token} (ht : t.kind = .beginPage)
      (hus : ∀ u ∈ us, u.kind ≠ .beginPage) (h : Divided ts ss) :
      Divided (ts ++ t :: us) ((t.value, t :: us) :: ss)

theorem divided_nil : Divided [] [(0, [])] := .prologue (by simp)

theorem Divided.assign {ts : List Token} {ss : List Section} (h : Divided ts ss) (t : Token) :
    Divided (ts ++ [t]) (assign ss t) := by
  rw [Canvas.assign]
  split
  case isTrue ht => exact .page ht (by simp) h
  case isFalse ht =>
    have hlast : ∀ u ∈ [t], u.kind ≠ .beginPage := List.forall_mem_singleton.mpr ht
    cases h with
    | prologue hus => exact .prologue (List.forall_mem_append.mpr ⟨hus, hlast⟩)
    | page hp hus h =>
      rw [List.append_assoc]
      exact .page hp (List.forall_mem_append.mpr ⟨hus, hlast⟩) h

theorem Divided.foldl_assign {ts : List Token} {ss : List Section} (h : Divided ts ss)
    (us : List Token) : Divided (ts ++ us) (us.foldl Canvas.assign ss) := by
  induction us generalizing ts ss with
  | nil => rwa [List.append_nil]
  | cons u us ih =>
    rw [List.append_cons]
    exact ih (h.assign u)

theorem Divided.flatMap_reverse {ts : List Token} {ss : List Section} (h : Divided ts ss) :
    ss.reverse.flatMap (·.2) = ts := by
  induction h with
  | prologue hus => simp
  | page ht hus h ih => rw [List.reverse_cons, List.flatMap_append, ih]; simp

theorem Divided.length_eq {ts : List Token} {ss : List Section} (h : Divided ts ss) :
    ss.length = ts.countP (·.kind = .beginPage) + 1 := by
  have hnone : ∀ us : List Token, (∀ u ∈ us, u.kind ≠ .beginPage) →
      us.countP (·.kind = .beginPage) = 0 := by
    intro us hus
    simpa [List.countP_eq_zero] using hus
  induction h with
  | prologue hus => rw [hnone _ hus]; rfl
  | page ht hus h ih =>
    rw [List.countP_append, List.countP_cons_of_pos (by simpa using ht), hnone _ hus,
      List.length_cons, ih]

/-- A section that begins with its only page command and has the number of that command. -/
def IsPage (s : Section) : Prop :=
  ∃ t us, s = (t.value, t :: us) ∧ t.kind = .beginPage ∧ ∀ u ∈ us, u.kind ≠ .beginPage

theorem Divided.reverse_eq {ts : List Token} {ss : List Section} (h : Divided ts ss) :
    ∃ us pages, ss.reverse = (0, us) :: pages ∧ (∀ u ∈ us, u.kind ≠ .beginPage) ∧
      ∀ s ∈ pages, IsPage s := by
  induction h with
  | @prologue us hus => exact ⟨us, [], rfl, hus, by simp⟩
  | @page ts us ss t ht hus h ih =>
    obtain ⟨vs, pages, hss, hvs, hpages⟩ := ih
    refine ⟨vs, pages ++ [(t.value, t :: us)], ?_, hvs, ?_⟩
    · rw [List.reverse_cons, hss, List.cons_append]
    · exact List.forall_mem_append.mpr
        ⟨hpages, List.forall_mem_singleton.mpr ⟨t, us, rfl, ht, hus⟩⟩

/-! Sections of a document. -/

def Page.section (page : Page) : Section := (page.number, page.tokens)

namespace Pager

def sections (p : Pager) : List Section := (close p.current :: p.done).map Page.section

theorem map_pages (p : Pager) : p.pages.map Page.section = p.sections.reverse := by
  rw [pages, sections, List.map_reverse]

theorem sections_receive (p : Pager) (c : Device.Call) :
    (p.receive c).sections = (c.begun?.map (·, [])).toList ++ p.sections := by
  cases c with
  | resolution r =>
    simp only [receive, setResolution]
    split <;> rfl
  | _ => rfl

theorem sections_receiveAll (p : Pager) (cs : List Device.Call) :
    (p.receiveAll cs).sections =
      ((cs.filterMap Device.Call.begun?).map (·, [])).reverse ++ p.sections := by
  induction cs generalizing p with
  | nil => rfl
  | cons c cs ih =>
    have hstep := ih (p.receive c)
    rw [sections_receive] at hstep
    rw [receiveAll, List.foldl_cons, ← receiveAll, hstep]
    cases hc : c.begun? with
    | none => simp [hc]
    | some n => simp [hc]

theorem sections_keep (p : Pager) (t : Token) : (p.keep t).sections = extend t p.sections := by
  simp [sections, keep, close, extend, Page.section]

theorem sections_step {st st' : Interpreter} {t : Token} {calls : List Device.Call}
    (h : st.Moves t st' calls) (p : Pager) :
    ((p.receiveAll calls).keep t).sections = assign p.sections t := by
  rw [sections_keep, sections_receiveAll, h.begun, assign]
  split <;> rfl

end Pager

theorem sections_paginate (st : Interpreter) (p : Pager) (ts : List Token) :
    (paginate st p ts).2.sections = ts.foldl assign p.sections := by
  induction ts generalizing st p with
  | nil => rfl
  | cons t ts ih =>
    rw [paginate, List.foldl_cons, ← Pager.sections_step (st.moves_exec t) p]
    exact ih _ _

theorem paginate_fst (st : Interpreter) (p : Pager) (ts : List Token) :
    (paginate st p ts).1 = (st.execAll ts).1 := by
  induction ts generalizing st p with
  | nil => rfl
  | cons t ts ih => exact ih _ _

theorem sections_ofTokens (options : Options) (ts : List Token) :
    let d := Document.ofTokens options ts
    ∃ prologue, d.prologue = some prologue ∧
      (prologue :: d.pages).map Page.section = (ts.foldl assign [(0, [])]).reverse := by
  have hfinish := Interpreter.stays_finish (paginate .initial (.initial options) ts).1
  have hsections := ((paginate .initial (.initial options) ts).2.receiveAll
    (paginate .initial (.initial options) ts).1.finish.2).map_pages
  rw [Pager.sections_receiveAll, hfinish.begun, sections_paginate] at hsections
  rw [Document.ofTokens]
  dsimp only
  cases hpages : ((paginate .initial (.initial options) ts).2.receiveAll
      (paginate .initial (.initial options) ts).1.finish.2).pages with
  | nil => exact absurd hpages (by simp [Pager.pages])
  | cons prologue pages =>
    rw [hpages] at hsections
    exact ⟨prologue, rfl, hsections⟩

/-- A document is the commands before its first page and those of its pages, in order. A page
begins with its only page command and has the number of that command. -/
theorem pages_of_source (options : Options) (legacy : Bool) (source : String) :
    let ts := Token.tokenize legacy source
    let d := Document.ofSource options legacy source
    ∃ prologue, d.prologue = some prologue ∧
      prologue.tokens ++ d.pages.flatMap Page.tokens = ts ∧
      (∀ t ∈ prologue.tokens, t.kind ≠ .beginPage) ∧
      (∀ page ∈ d.pages, ∃ t us, page.tokens = t :: us ∧ t.kind = .beginPage ∧
        (∀ u ∈ us, u.kind ≠ .beginPage) ∧ page.number = t.value) ∧
      d.pages.length = ts.countP (·.kind = .beginPage) ∧
      (Interpreter.initial.runAll ts).1.page = d.pages.length := by
  intro ts d
  obtain ⟨prologue, hprologue, hsections⟩ : ∃ prologue, d.prologue = some prologue ∧
      (prologue :: d.pages).map Page.section = (ts.foldl assign [(0, [])]).reverse :=
    sections_ofTokens options ts
  have hdivided : Divided ts (ts.foldl assign [(0, [])]) := divided_nil.foldl_assign ts
  have htokens := hdivided.flatMap_reverse
  have hlength := hdivided.length_eq
  obtain ⟨us, pages, hparts, hus, hpages⟩ := hdivided.reverse_eq
  rw [← List.length_reverse] at hlength
  rw [← hsections] at htokens hlength hparts
  obtain ⟨hfirst, hrest⟩ := List.cons.inj hparts
  have hnone : prologue.tokens = us := congrArg Prod.snd hfirst
  have hcount : d.pages.length = ts.countP (·.kind = .beginPage) := by
    simpa using hlength
  refine ⟨prologue, hprologue, ?_, by rwa [hnone], ?_, hcount, ?_⟩
  · simpa [List.flatMap_map, Page.section] using htokens
  · intro page hpage
    obtain ⟨t, vs, hs, ht, hvs⟩ := hpages page.section (hrest ▸ List.mem_map_of_mem hpage)
    obtain ⟨hn, htokens⟩ := Prod.mk.inj hs
    exact ⟨t, vs, htokens, ht, hvs, hn⟩
  · rw [Interpreter.page_runAll, hcount]
    exact Nat.zero_add _

end Galley.Canvas
