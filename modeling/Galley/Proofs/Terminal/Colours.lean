import Galley.Proofs.Interpreter.Origins
import Galley.Proofs.Terminal.Cursor
import Galley.Proofs.Terminal.Refusal
import Galley.Proofs.Terminal.Tags
/-!
Documents that turn colours on and off. The last setting of a document counts, whatever the options
say; the options only count for a document without one.
-/
namespace Galley
open Device

/-! Settings of colours. -/

def Device.Call.sgr? : Device.Call → Option Bool
  | .sgr on => some on
  | _ => none

def Token.sgr? (t : Token) : Option Bool :=
  if t.kind = .deviceControl then
    match Control.parse t.operand with
    | .escape (.sgr on) => some on
    | _ => none
  else none

namespace Interpreter

theorem sgr_control (st : Interpreter) {t : Token} (hk : t.kind = .deviceControl) :
    (st.control (Control.parse t.operand)).2.filterMap Call.sgr? = t.sgr?.toList := by
  rw [Token.sgr?, if_pos hk]
  cases Control.parse t.operand
  case stop => exact filterMap_endPage rfl st
  case escape e =>
    cases e
    case exec s code =>
      exact filterMap_escape_exec (fun _ => rfl) (fun _ => rfl) (fun _ => rfl) st s code
    all_goals rfl
  all_goals rfl

theorem sgr_exec (st : Interpreter) (t : Token) :
    (st.exec t).2.filterMap Call.sgr? = t.sgr?.toList := by
  by_cases hk : t.kind = .deviceControl
  · rw [filterMap_exec_of_control (fun _ => rfl) hk]
    exact sgr_control st hk
  · rw [Token.sgr?, if_neg hk]
    refine filterMap_exec_eq_nil (fun _ => rfl) (fun x hx => ?_) st
    cases x
    case sgr on => exact absurd (List.mem_singleton.mp hx) hk
    all_goals rfl

theorem sgr_execAll (st : Interpreter) (ts : List Token) :
    (st.execAll ts).2.filterMap Call.sgr? = ts.filterMap Token.sgr? := by
  induction ts generalizing st with
  | nil => rfl
  | cons t ts ih =>
    show ((st.exec t).2 ++ ((st.exec t).1.execAll ts).2).filterMap Call.sgr? = _
    rw [List.filterMap_append, sgr_exec, ih, List.filterMap_cons]
    cases t.sgr? <;> rfl

theorem sgr_runAll (st : Interpreter) (ts : List Token) :
    (st.runAll ts).2.filterMap Call.sgr? = ts.filterMap Token.sgr? := by
  have hfinish := filterMap_finish (f := Call.sgr?) (fun _ => rfl) rfl (st.execAll ts).1
  rw [runAll]
  dsimp only
  rw [List.filterMap_append, sgr_execAll, hfinish, List.append_nil]

end Interpreter

namespace Terminal

namespace Screen

theorem sgr_step (s : Screen) (c : Call) : (s.step c).sgr = c.sgr?.getD s.sgr := by
  refine (congrArg Cursor.sgr (s.cursor_step c)).trans ?_
  cases c
  case resolution r =>
    rw [Cursor.step]
    split <;> rfl
  all_goals rfl

theorem sgr_foldl_step (s : Screen) (cs : List Call) :
    (cs.foldl step s).sgr = (cs.filterMap Call.sgr?).getLast?.getD s.sgr := by
  induction cs generalizing s with
  | nil => rfl
  | cons c cs ih =>
    rw [List.foldl_cons, ih, sgr_step, List.filterMap_cons]
    cases c.sgr? with
    | none => rfl
    | some on =>
      rw [List.getLast?_cons]
      rfl

theorem sgr_receiveAll (s : Screen) (cs : List Call) :
    (screen.receiveAll s cs).sgr = (cs.filterMap Call.sgr?).getLast?.getD s.sgr := by
  have hexpand := Interpreter.filterMap_expand (f := Call.sgr?) (fun _ => rfl)
    (fun p => by cases p <;> rfl) cs
  rw [← hexpand, ← sgr_foldl_step, List.foldl_flatMap]
  rfl

end Screen

def lastSetting? (ts : List Token) : Option Bool := (ts.filterMap Token.sgr?).getLast?

theorem sgr_ofTokens (options : Options) (ts : List Token) :
    (Document.ofTokens options ts).screen.sgr =
      (lastSetting? (executed ts)).getD options.sgr := by
  rw [Document.screen_ofTokens, Screen.sgr_receiveAll, Interpreter.sgr_runAll]
  rfl

/-- A document is shown without colour just if its last setting turns colours off, or there is none
and the options do, or nothing that is shown has a colour. -/
theorem uncoloured_iff (options : Options) (legacy : Bool) (source : String) :
    let d := Document.ofSource options legacy source
    let shown := executed (Token.tokenize legacy source)
    ((∀ tag ∈ tags d.toHtml, mentionsColour tag = false) ∧
      d.toAnsi = d.joinPages (plainPage options.trim)) ↔
      (lastSetting? shown).getD options.sgr = false ∨
        ∀ g ∈ d.pages, ∀ row ∈ g.outputRows options.trim, ∀ c ∈ row, c.colour < 0 := by
  intro d shown
  have hsgr : d.screen.sgr = (lastSetting? shown).getD options.sgr :=
    sgr_ofTokens options (Token.tokenize legacy source)
  have htags := tags_uncoloured_iff d
  rw [← hsgr]
  constructor
  · rintro ⟨hplain, -⟩
    have hcells := htags.mp hplain
    cases hon : d.screen.sgr with
    | false => exact .inl rfl
    | true =>
      right
      intro g hg row hrow c hc
      have hcell := hcells g hg row hrow c hc
      simpa [Cell.coloured, hon] using hcell
  · intro h
    have hcells : ∀ g ∈ d.pages, ∀ row ∈ g.outputRows options.trim, ∀ c ∈ row,
        c.coloured d.screen.sgr = false := by
      intro g hg row hrow c hc
      rcases h with hoff | hcolour
      · rw [Cell.coloured, hoff, Bool.false_and]
      · simpa [Cell.coloured] using fun _ => hcolour g hg row hrow c hc
    exact ⟨htags.mpr hcells, toAnsi_of_uncoloured hcells⟩

/-- A source that turns colours on and writes a letter in one. -/
def colouredSource : String := "x X tty: sgr 1\np1\nV0\nH0\nmr 65535 0 0\ntR\n"

theorem tokenize_colouredSource :
    Token.tokenize false colouredSource =
      [⟨.deviceControl, "X tty: sgr 1", 0⟩, ⟨.beginPage, "1", 15⟩, ⟨.moveAbsV, "0", 18⟩,
        ⟨.moveAbsH, "0", 21⟩, ⟨.setColour, "r 65535 0 0", 24⟩, ⟨.textNormal, "R", 37⟩] := by
  decide +kernel

/-- The colour is not given, since its channels are floating point numbers. -/
theorem calls_colouredSource :
    ∃ c, (Interpreter.initial.runAll (Token.tokenize false colouredSource)).2 =
      [.sgr true, .beginPage 1, .moveToV 0, .moveToH 0, .strokeColour (.rgb c),
        .textRun [.text "R"], .endPage] := by
  rw [tokenize_colouredSource]
  exact ⟨_, rfl⟩

theorem receiveAll_coloured (on : Bool) (c : Rgb) :
    let s := screen.receiveAll (.initial ⟨240, 24, 40⟩ on)
      [.sgr true, .beginPage 1, .moveToV 0, .moveToH 0, .strokeColour (.rgb c),
        .textRun [.text "R"], .endPage]
    s.sgr = true ∧ s.pages = [Grid.empty.set 0 0 ⟨'R', .regular, Palette.index (.rgb c)⟩] :=
  ⟨rfl, rfl⟩

theorem outputRows_set_empty (trim : Bool) {c : Cell} (h : c ≠ .blank) :
    (Grid.empty.set 0 0 c).outputRows trim = [[c]] := by
  have hset : Grid.empty.set 0 0 c = ⟨#[#[c]]⟩ := by
    rw [Grid.set, if_neg (by decide)]
    rfl
  rw [hset]
  cases trim <;> simp [Grid.outputRows, Grid.dropEnd, h]

/-- A document can turn on colours that the options turn off. -/
theorem colours_turned_on :
    ¬ ∀ (options : Options) (legacy : Bool) (source : String), options.sgr = false →
      let d := Document.ofSource options legacy source
      (∀ tag ∈ tags d.toHtml, mentionsColour tag = false) ∧
        d.toAnsi = d.joinPages (plainPage options.trim) := by
  intro hclaim
  let d := Document.ofSource { sgr := false } false colouredSource
  have hcells := (tags_uncoloured_iff d).mp (hclaim { sgr := false } false colouredSource rfl).1
  obtain ⟨c, hcalls⟩ := calls_colouredSource
  have hscreen : d.screen = screen.receiveAll (.initial ⟨240, 24, 40⟩ false) _ :=
    Document.screen_of_none { sgr := false } (by rw [tokenize_colouredSource]; decide)
  rw [hcalls] at hscreen
  obtain ⟨hsgr, hpages⟩ := receiveAll_coloured false c
  rw [← hscreen] at hsgr hpages
  let cell : Cell := ⟨'R', .regular, Palette.index (.rgb c)⟩
  have hpage : Grid.empty.set 0 0 cell ∈ d.pages := by
    rw [Document.pages, hpages]
    exact List.mem_singleton_self _
  have hrow : [cell] ∈ (Grid.empty.set 0 0 cell).outputRows d.options.trim := by
    rw [outputRows_set_empty _ (by simp [cell, Cell.blank])]
    exact List.mem_singleton_self _
  have hcell := hcells _ hpage _ hrow cell (List.mem_singleton_self _)
  have hcolour : 0 ≤ cell.colour := Int.natCast_nonneg (Palette.nearest c)
  simp [Cell.coloured, hsgr, hcolour] at hcell

end Terminal

end Galley
