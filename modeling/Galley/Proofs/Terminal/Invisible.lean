import Galley.Proofs.Interpreter.Origins
import Galley.Proofs.Terminal.Cursor
import Galley.Proofs.Terminal.Refusal
/-!
Output that is not shown. The cursor goes where it goes when everything is shown, and the pages stay
as they are but for the empty ones that begin.
-/
namespace Galley
open Device

/-! Commands that turn visibility on or off. -/

def Device.Call.visible? : Call → Option Bool
  | .visible on => some on
  | _ => none

def Token.visible? (t : Token) : Option Bool :=
  if t.kind = .deviceControl then
    match Control.parse t.operand with
    | .escape .invisible => some false
    | .escape .endInvisible => some true
    | _ => none
  else none

namespace Interpreter

theorem visible_exec {t : Token} (h : t.visible? = none) (st : Interpreter) :
    (st.exec t).2.filterMap Call.visible? = [] := by
  by_cases hk : t.kind = .deviceControl
  · rw [filterMap_exec_of_control (fun _ => rfl) hk]
    rw [Token.visible?, if_pos hk] at h
    cases hc : Control.parse t.operand
    case stop => exact filterMap_endPage rfl st
    case escape e =>
      cases e
      case invisible => simp [hc] at h
      case endInvisible => simp [hc] at h
      case exec s code =>
        exact filterMap_escape_exec (fun _ => rfl) (fun _ => rfl) (fun _ => rfl) st s code
      all_goals rfl
    all_goals rfl
  · refine filterMap_exec_eq_nil (fun _ => rfl) (fun x hx => ?_) st
    cases x
    case visible on => exact absurd (List.mem_singleton.mp hx) hk
    all_goals rfl

theorem visible_execAll {ts : List Token} (h : ∀ t ∈ ts, t.visible? = none) (st : Interpreter) :
    (st.execAll ts).2.filterMap Call.visible? = [] := by
  induction ts generalizing st with
  | nil => rfl
  | cons t ts ih =>
    obtain ⟨ht, hts⟩ := List.forall_mem_cons.mp h
    rw [execAll, List.filterMap_append, visible_exec ht, ih hts]
    rfl

theorem begun_execAll (st : Interpreter) (ts : List Token) :
    (st.execAll ts).2.filterMap Call.begun? =
      (ts.filter (·.kind = .beginPage)).map Token.value := by
  induction ts generalizing st with
  | nil => rfl
  | cons t ts ih =>
    rw [execAll, List.filterMap_append, (st.moves_exec t).begun, ih]
    by_cases hk : t.kind = .beginPage <;> simp [hk]

end Interpreter

namespace Terminal

/-! A cursor moves in the same way whether or not it is visible. -/

namespace Cursor

theorem step_of_visible (k : Cursor) (on : Bool) {c : Call} (h : c.visible? = none) :
    { k with visible := on }.step c = { k.step c with visible := on } := by
  cases c
  case resolution r =>
    simp only [step]
    split <;> rfl
  case visible on => cases h
  all_goals rfl

theorem receive_of_visible (k : Cursor) (on : Bool) {c : Call} (h : c.visible? = none) :
    { k with visible := on }.receive c = { k.receive c with visible := on } := by
  have hexpand : ∀ x ∈ c.expand, x.visible? = none := by
    cases c
    case textRun run =>
      intro x hx
      obtain ⟨piece, -, rfl⟩ := List.mem_map.mp hx
      cases piece <;> rfl
    all_goals simpa [Call.expand] using h
  rw [receive, receive]
  generalize c.expand = xs at hexpand ⊢
  induction xs generalizing k with
  | nil => rfl
  | cons x xs ih =>
    obtain ⟨hx, hxs⟩ := List.forall_mem_cons.mp hexpand
    rw [List.foldl_cons, step_of_visible k on hx]
    exact ih (k.step x) hxs

theorem foldl_receive_of_visible (k : Cursor) (on : Bool) {cs : List Call}
    (h : cs.filterMap Call.visible? = []) :
    cs.foldl receive { k with visible := on } = { cs.foldl receive k with visible := on } := by
  induction cs generalizing k with
  | nil => rfl
  | cons c cs ih =>
    rw [List.filterMap_eq_nil_iff, List.forall_mem_cons] at h
    rw [List.foldl_cons, receive_of_visible k on h.1]
    exact ih (k.receive c) (List.filterMap_eq_nil_iff.mpr h.2)

theorem visible_receive (k : Cursor) {c : Call} (h : c.visible? = none) :
    (k.receive c).visible = k.visible := by
  have hsame := congrArg Cursor.visible (k.receive_of_visible k.visible h)
  exact hsame

end Cursor

/-! The pages while nothing is shown. -/

namespace Screen

theorem put_of_hidden {s : Screen} (hs : s.visible = false) (offset : Int) (ch : Char) :
    s.put offset ch = s := by
  simp [put, hs]

theorem putAll_of_hidden {s : Screen} (hs : s.visible = false) (offset : Nat) (cs : List Char) :
    s.putAll offset cs = s := by
  induction cs generalizing offset with
  | nil => rfl
  | cons c cs ih => rw [putAll, put_of_hidden hs, ih]

theorem pages_type_of_hidden {s : Screen} (hs : s.visible = false) (tracking : Int)
    (cs : List Char) : (s.type tracking cs).pages = s.pages := by
  induction cs generalizing s with
  | nil => rfl
  | cons c cs ih =>
    rw [type, put_of_hidden hs]
    exact ih hs

theorem lineTo_of_hidden {s : Screen} (hs : s.visible = false) (h v : Int) :
    s.lineTo h v = { s with h := h, v := v } := by
  simp [lineTo, hs]

theorem pages_lines_of_hidden {s : Screen} (hs : s.visible = false) (offsets : List (Int × Int)) :
    (offsets.foldl lineBy s).pages = s.pages := by
  induction offsets generalizing s with
  | nil => rfl
  | cons d offsets ih =>
    rw [List.foldl_cons, lineBy, lineTo_of_hidden hs]
    exact ih hs

theorem pages_draw_of_hidden {s : Screen} (hs : s.visible = false) (d : Drawing) :
    (s.draw d).pages = s.pages := by
  cases d
  case line dh dv =>
    have hpages := congrArg Screen.pages
      (lineTo_of_hidden hs (Number.add s.h dh) (Number.add s.v dv))
    exact hpages
  case polygon offsets filled =>
    obtain ⟨h, v, hsides⟩ := s.cursor_lines offsets
    have hvisible : (offsets.foldl lineBy s).visible = false :=
      (congrArg Cursor.visible hsides).trans hs
    have hclosed := congrArg Screen.pages (lineTo_of_hidden hvisible s.h s.v)
    exact hclosed.trans (pages_lines_of_hidden hs offsets)
  all_goals rfl

theorem pages_step_of_hidden {s : Screen} (hs : s.visible = false) (c : Call) :
    (s.step c).pages = (c.begun?.map fun _ => Grid.empty).toList ++ s.pages := by
  cases c
  case resolution r =>
    rw [step, setResolution]
    split <;> rfl
  case printGlyph text => exact congrArg Screen.pages (putAll_of_hidden hs 0 text.toList)
  case printText text tracking => exact pages_type_of_hidden hs tracking text.toList
  case draw d => exact pages_draw_of_hidden hs d
  all_goals rfl

theorem pages_receive_of_hidden {s : Screen} (hs : s.visible = false) (c : Call) :
    (s.receive c).pages = (c.begun?.map fun _ => Grid.empty).toList ++ s.pages := by
  have hstep := pages_step_of_hidden hs c
  cases c
  case textRun run =>
    clear hstep
    show ((run.map RunPiece.call).foldl step s).pages = s.pages
    induction run generalizing s with
    | nil => rfl
    | cons piece run ih =>
      have hcursor : (s.step piece.call).visible = (s.cursor.step piece.call).visible :=
        congrArg Cursor.visible (s.cursor_step piece.call)
      have hstill : piece.call.begun? = none := by cases piece <;> rfl
      have hpages := pages_step_of_hidden hs piece.call
      rw [hstill] at hpages
      refine (ih ?_).trans hpages
      cases piece <;> exact hcursor.trans hs
  all_goals exact hstep

theorem pages_receiveAll_of_hidden {s : Screen} (hs : s.visible = false) {cs : List Call}
    (hcs : cs.filterMap Call.visible? = []) :
    (screen.receiveAll s cs).pages =
      List.replicate (cs.filterMap Call.begun?).length Grid.empty ++ s.pages := by
  induction cs generalizing s with
  | nil => rfl
  | cons c cs ih =>
    rw [List.filterMap_eq_nil_iff, List.forall_mem_cons] at hcs
    have hvisible : (s.receive c).visible = false := by
      have hcursor := congrArg Cursor.visible (s.cursor_receive c)
      exact (hcursor.trans (Cursor.visible_receive _ hcs.1)).trans hs
    have hrest := ih hvisible (List.filterMap_eq_nil_iff.mpr hcs.2)
    rw [pages_receive_of_hidden hs] at hrest
    refine hrest.trans ?_
    cases hc : c.begun? with
    | none => simp [hc]
    | some n => simp [hc, List.replicate_succ']

end Screen

end Terminal

/-! Two runs. -/

namespace Device.Session
variable {σ ε : Type}

/-- Executes commands and prints what is held back, unless a call is refused. -/
def feedFlushed (sink : Sink σ ε) (s : Session σ) (ts : List Token) : Session σ × Option ε :=
  match s.feed sink ts with
  | (s, some e) => (s, some e)
  | (s, none) => s.follow sink s.interpreter.flush

theorem feedFlushed_of_accepted (sink : Sink σ ε) (s : Session σ) {ts : List Token}
    (h : ∀ t ∈ ts, ∀ r ∈ t.resolution?, ∀ d, sink.refuse d r = none) :
    s.feedFlushed sink ts =
      (⟨(s.interpreter.execAll ts).1.flush.1, sink.receiveAll s.device
        ((s.interpreter.execAll ts).2 ++ (s.interpreter.execAll ts).1.flush.2)⟩, none) := by
  rw [feedFlushed, feed_of_accepted sink s h]
  dsimp only
  rw [follow, sink.deliver_of_unasked _ (Interpreter.leads_flush _).asked, Sink.receiveAll_append]

end Device.Session

namespace Terminal

/-- Commands that neither turn visibility on or off nor set a resolution that is refused take an
invisible screen and a visible one to the same cursor, and the interpreter to the same state. The
invisible screen keeps its pages and gets an empty one for each that begins. -/
theorem invisible_moves_only (st : Interpreter) (s : Screen) {ts : List Token}
    (hfine : ∀ t ∈ ts, tooFine? t = none) (hvisible : ∀ t ∈ ts, t.visible? = none) :
    ∃ st' shown hidden,
      Session.feedFlushed screen ⟨st, { s with visible := true }⟩ ts = (⟨st', shown⟩, none) ∧
      Session.feedFlushed screen ⟨st, { s with visible := false }⟩ ts = (⟨st', hidden⟩, none) ∧
      hidden.cursor = { shown.cursor with visible := false } ∧
      hidden.pages =
        List.replicate (ts.countP (·.kind = .beginPage)) Grid.empty ++ s.pages := by
  have haccepted : ∀ t ∈ ts, ∀ r ∈ t.resolution?, ∀ d, screen.refuse d r = none :=
    fun t ht r hr _ => Option.bind_eq_none_iff.mp (hfine t ht) r hr
  -- Neither screen refuses a call, so both receive the same ones.
  let cs := (st.execAll ts).2 ++ (st.execAll ts).1.flush.2
  have hcs : cs.filterMap Call.visible? = [] := by
    rw [List.filterMap_append, Interpreter.visible_execAll hvisible,
      Interpreter.filterMap_flush fun _ => rfl]
    rfl
  have hbegun : (cs.filterMap Call.begun?).length = ts.countP (·.kind = .beginPage) := by
    rw [List.filterMap_append, Interpreter.begun_execAll, (Interpreter.stays_flush _).begun,
      List.append_nil, List.length_map, List.countP_eq_length_filter]
  refine ⟨_, _, _, Session.feedFlushed_of_accepted screen _ haccepted,
    Session.feedFlushed_of_accepted screen _ haccepted, ?_, ?_⟩
  · rw [Screen.cursor_receiveAll, Screen.cursor_receiveAll]
    exact Cursor.foldl_receive_of_visible { s with visible := true }.cursor false hcs
  · rw [← hbegun]
    exact Screen.pages_receiveAll_of_hidden (s := { s with visible := false }) rfl hcs

theorem invisible_triangle_moves_only :
    let s := Screen.initial .initial true
    let ts := Token.tokenize false "p1\nV40\nH24\ntab\nDp 48 0 0 40\nh24\np2\ntc\n"
    (∀ t ∈ ts, tooFine? t = none) ∧ (∀ t ∈ ts, t.visible? = none) ∧
      ∃ st' shown hidden,
        Session.feedFlushed screen ⟨.initial, { s with visible := true }⟩ ts =
          (⟨st', shown⟩, none) ∧
        Session.feedFlushed screen ⟨.initial, { s with visible := false }⟩ ts =
          (⟨st', hidden⟩, none) ∧
        hidden.cursor = { shown.cursor with visible := false } ∧
        hidden.pages =
          List.replicate (ts.countP (·.kind = .beginPage)) Grid.empty ++ s.pages := by
  intro s ts
  have hfine : ∀ t ∈ ts, tooFine? t = none := by decide +kernel
  have hvisible : ∀ t ∈ ts, t.visible? = none := by decide +kernel
  exact ⟨hfine, hvisible, invisible_moves_only .initial s hfine hvisible⟩

end Terminal
end Galley
