import Galley.Device.Session
/-!
Holding runs back cannot be seen by a device that plays a run piece by piece: it gets the calls it
would get if every text, move and word space were performed at once.
-/
namespace Galley

namespace Device
variable {σ ε : Type}

/-- The device that plays a run as the calls of its pieces. -/
def Sink.replaying (sink : Sink σ ε) : Sink σ ε :=
  { sink with receive := fun s c => sink.receiveAll s c.expand }

end Device

namespace Interpreter
open Device

/-- Executes a command at once, holding nothing back. -/
def execDirect (st : Interpreter) (t : Token) : Interpreter × List Call :=
  let e := st.perform t
  (e.state.warn t e.problems, e.calls)

def forget (st : Interpreter) : Interpreter := { st with pending := [] }

end Interpreter

namespace Device.Session
open Device
variable {σ ε : Type}

def feedDirect (sink : Sink σ ε) (s : Session σ) : List Token → Session σ × Option ε
  | [] => (s, none)
  | t :: ts =>
    match s.follow sink (s.interpreter.execDirect t) with
    | (s, some e) => (s, some e)
    | (s, none) => s.feedDirect sink ts

/-- Executes commands at once and ends the page, unless a call is refused. -/
def runDirect (sink : Sink σ ε) (s : Session σ) (ts : List Token) : Session σ × Option ε :=
  match s.feedDirect sink ts with
  | (s, some e) => (s, some e)
  | (s, none) => s.follow sink s.interpreter.endPage

/-- The session as it is when everything held back has been printed. -/
def settled (sink : Sink σ ε) (s : Session σ) : Session σ :=
  ⟨s.interpreter.forget, sink.receiveAll s.device (s.interpreter.pending.map RunPiece.call)⟩

end Device.Session

/-! Calls without runs. -/

namespace Device
variable {σ ε : Type}

def Call.IsPrimitive (c : Call) : Prop := c.expand = [c]

theorem Sink.deliver_replaying (sink : Sink σ ε) (d : σ) (cs : List Call)
    (h : ∀ c ∈ cs, c.IsPrimitive) : sink.replaying.deliver d cs = sink.deliver d cs := by
  induction cs generalizing d with
  | nil => rfl
  | cons c cs ih =>
    have hc : sink.replaying.receive d c = sink.receive d c := by
      show sink.receiveAll d c.expand = _
      rw [h c List.mem_cons_self]
      rfl
    have hr : sink.replaying.refusal d c = sink.refusal d c := by cases c <;> rfl
    simp only [deliver, hc, hr, ih _ fun x hx => h x (List.mem_cons_of_mem c hx)]

theorem Sink.deliver_call (sink : Sink σ ε) (d : σ) (p : RunPiece) :
    sink.deliver d [p.call] = (sink.receive d p.call, none) := by
  cases p <;> rfl

theorem Sink.receiveAll_append (sink : Sink σ ε) (d : σ) (cs ds : List Call) :
    sink.receiveAll d (cs ++ ds) = sink.receiveAll (sink.receiveAll d cs) ds :=
  List.foldl_append

end Device

/-! What a command does by itself does not depend on runs, and prints none. -/

namespace Interpreter
open Device

@[simp] theorem pending_takeMark (st : Interpreter) (m : Pdf.Mark) :
    (st.takeMark m).pending = st.pending := by
  rw [takeMark]
  split <;> rfl

@[simp] theorem pending_takeMarks (st : Interpreter) (text : String) :
    (st.takeMarks text).pending = st.pending := by
  refine List.foldlRecOn (motive := fun u : Interpreter => u.pending = st.pending) _ _ rfl fun u hu m _ => ?_
  rw [pending_takeMark, hu]

theorem warn_eq (st : Interpreter) (t : Token) (ps : Problems) :
    st.warn t ps = { st with warnings := st.warnings ++ ps.map fun k => ⟨t.span, k⟩ } := by
  rw [warn]
  split
  case isTrue h => simp [List.isEmpty_iff.mp h]
  case isFalse => rfl

@[simp] theorem pending_warn (st : Interpreter) (t : Token) (ps : Problems) :
    (st.warn t ps).pending = st.pending := by
  rw [warn_eq]

@[simp] theorem isPrimitive_iff (c : Call) : c.IsPrimitive ↔ c.expand = [c] := Iff.rfl

structure Plain (st st' : Interpreter) (calls : List Call) : Prop where
  pending : st'.pending = st.pending
  calls : ∀ c ∈ calls, c.IsPrimitive

theorem plain_beginPage (st : Interpreter) (n : Int) :
    st.Plain (st.beginPage n).1 (st.beginPage n).2 := by
  refine ⟨rfl, ?_⟩
  rw [beginPage]
  cases st.inPage <;> simp [Call.expand]

theorem plain_endPage (st : Interpreter) : st.Plain st.endPage.1 st.endPage.2 := by
  rw [endPage]
  split
  · exact ⟨rfl, by simp [Call.expand]⟩
  · exact ⟨rfl, by simp⟩

theorem plain_escape (st : Interpreter) (e : Escape) :
    st.Plain (st.escape e).1 (st.escape e).2 := by
  cases e <;> constructor <;> simp [escape, Call.expand, or_imp, forall_and]

theorem plain_control (st : Interpreter) (c : Control) :
    st.Plain (st.control c).1 (st.control c).2 := by
  cases c
  case stop => exact plain_endPage st
  case escape e => exact plain_escape st e
  all_goals constructor <;> simp [control, mountFont, Call.expand]

theorem plain_namedGlyph (st : Interpreter) (name : String) :
    st.Plain (st.namedGlyph name).state (st.namedGlyph name).calls := by
  rw [namedGlyph]
  split <;> constructor <;> simp [Call.expand]

theorem plain_indexedGlyph (st : Interpreter) (s : List Char) :
    st.Plain (st.indexedGlyph s).state (st.indexedGlyph s).calls := by
  rw [indexedGlyph]
  dsimp only
  split <;> constructor <;> simp [Call.expand]

theorem plain_drawShape (st : Interpreter) (letter : Char) (s : List Char) :
    st.Plain (st.drawShape letter s).state (st.drawShape letter s).calls := by
  rw [drawShape]
  dsimp only
  split <;> constructor <;> simp [Call.expand]

theorem plain_drawing (st : Interpreter) (s : List Char) :
    st.Plain (st.drawing s).state (st.drawing s).calls := by
  unfold drawing
  split
  case h_4 => exact plain_drawShape st _ _
  all_goals constructor <;> simp [Call.expand]

theorem plain_perform (st : Interpreter) (t : Token) :
    st.Plain (st.perform t).state (st.perform t).calls := by
  rw [perform]
  cases t.kind
  case beginPage => exact plain_beginPage st _
  case charNamed => exact plain_namedGlyph st _
  case charIndexed => exact plain_indexedGlyph st _
  case drawing => exact plain_drawing st _
  case deviceControl => exact plain_control st _
  all_goals
    constructor <;>
      simp [selectFont, movePrint, endOfLine, trackedText, Call.expand, or_imp, forall_and]

/-! A command that goes on with a run does at once what its piece does later. -/

theorem perform_of_piece? {st : Interpreter} {t : Token} {p : RunPiece} {problems : Problems}
    (h : st.piece? t = some (p, problems)) :
    st.forget.perform t = ⟨st.forget, [p.call], problems⟩ := by
  rw [piece?] at h
  split at h
  case isTrue hk =>
    obtain ⟨rfl, rfl⟩ := Prod.mk.inj (Option.some.inj h)
    simp only [perform, hk]
    rfl
  case isFalse hk =>
    split at h
    · exact absurd h (by simp)
    · split at h
      case h_4 => exact absurd h (by simp)
      all_goals
        rename_i hkind
        obtain ⟨rfl, rfl⟩ := Prod.mk.inj (Option.some.inj h)
        simp only [perform, hkind]
        rfl

theorem forget_warn (st : Interpreter) (t : Token) (ps : Problems) :
    (st.warn t ps).forget = st.forget.warn t ps := by
  rw [warn_eq, warn_eq]
  rfl

end Interpreter

/-! Printing what is held back. -/

namespace Interpreter
open Device
variable {σ ε : Type}

theorem forget_of_pending_nil {st : Interpreter} (h : st.pending = []) : st.forget = st := by
  cases st
  simp_all [forget]

theorem flush_fst (st : Interpreter) : st.flush.1 = st.forget := by
  rw [flush]
  split
  case isTrue h => exact (forget_of_pending_nil (List.isEmpty_iff.mp h)).symm
  case isFalse h => rfl

theorem exec_of_none {st : Interpreter} {t : Token} (h : st.piece? t = none) :
    st.exec t = ((st.forget.execDirect t).1, st.flush.2 ++ (st.forget.execDirect t).2) := by
  rw [exec, h]
  dsimp only
  rw [flush_fst]
  rfl

theorem exec_eq_execDirect (st : Interpreter) (t : Token) :
    ∃ pending, (st.exec t).1 = { (st.forget.execDirect t).1 with pending := pending } := by
  cases hp : st.piece? t with
  | some q =>
    obtain ⟨p, problems⟩ := q
    rw [exec, hp, execDirect, perform_of_piece? hp]
    dsimp only
    rw [hold, warn_eq, warn_eq]
    dsimp only
    split
    · rw [flush_fst]
      exact ⟨_, rfl⟩
    · exact ⟨_, rfl⟩
  | none =>
    rw [exec_of_none hp]
    exact ⟨_, rfl⟩

theorem deliver_flush (sink : Sink σ ε) (d : σ) (st : Interpreter) :
    sink.replaying.deliver d st.flush.2 =
      (sink.receiveAll d (st.pending.map RunPiece.call), none) := by
  rw [flush]
  split
  case isTrue h =>
    rw [List.isEmpty_iff.mp h]
    rfl
  case isFalse h => rfl

end Interpreter

namespace Device.Session
open Interpreter
variable {σ ε : Type}

theorem settled_of_pending_nil (sink : Sink σ ε) (s : Session σ) (h : s.interpreter.pending = []) :
    s.settled sink = s := by
  rw [settled, forget_of_pending_nil h, h]
  rfl

theorem settled_hold (sink : Sink σ ε) (st : Interpreter) (d : σ) (p : RunPiece) :
    let r := follow sink.replaying ⟨st, d⟩ (st.hold p)
    (r.1.settled sink, r.2) =
      (⟨st.forget, sink.receive (sink.receiveAll d (st.pending.map RunPiece.call)) p.call⟩, none) := by
  have hall : sink.receiveAll d ((st.pending ++ [p]).map RunPiece.call) =
      sink.receive (sink.receiveAll d (st.pending.map RunPiece.call)) p.call := by
    rw [List.map_append, Sink.receiveAll_append]
    rfl
  rw [← hall, hold]
  dsimp only
  split
  · simp only [follow, deliver_flush, flush_fst]
    rfl
  · rfl

theorem exec_of_no_piece (sink : Sink σ ε) (s : Session σ) (t : Token)
    (h : s.interpreter.piece? t = none) :
    s.exec sink.replaying t =
      (s.settled sink).follow sink ((s.settled sink).interpreter.execDirect t) := by
  obtain ⟨st, d⟩ := s
  have hplain := plain_perform st.forget t
  rw [exec, exec_of_none h]
  simp only [follow]
  rw [Sink.deliver_append, deliver_flush]
  simp only [sink.deliver_replaying _ _ hplain.calls, execDirect]
  rfl

theorem pending_execDirect (st : Interpreter) (t : Token) :
    (st.execDirect t).1.pending = st.pending := by
  rw [execDirect, pending_warn]
  exact (plain_perform st t).pending

/-- A command does to a session, once settled, what its direct execution does to the settled
session. When a call is refused nothing is held back. -/
theorem settled_exec (sink : Sink σ ε) (s : Session σ) (t : Token) :
    let r := s.exec sink.replaying t
    (r.1.settled sink, r.2) =
        (s.settled sink).follow sink ((s.settled sink).interpreter.execDirect t) ∧
      (r.2 ≠ none → r.1.settled sink = r.1) := by
  cases hp : s.interpreter.piece? t with
  | none =>
    have hexec := exec_of_no_piece sink s t hp
    have hsettled : (s.exec sink.replaying t).1.settled sink = (s.exec sink.replaying t).1 := by
      apply settled_of_pending_nil
      rw [hexec]
      exact pending_execDirect _ t
    exact ⟨by rw [hsettled, hexec], fun _ => hsettled⟩
  | some q =>
    obtain ⟨st, d⟩ := s
    obtain ⟨p, problems⟩ := q
    have hexec : exec sink.replaying ⟨st, d⟩ t =
        follow sink.replaying ⟨st.warn t problems, d⟩ ((st.warn t problems).hold p) := by
      rw [exec, Interpreter.exec, hp]
      rfl
    have hhold := settled_hold sink (st.warn t problems) d p
    rw [← hexec, pending_warn] at hhold
    -- A run is never refused, so here there is nothing to show about refusals.
    refine ⟨?_, fun hne => absurd (Prod.mk.inj hhold).2 hne⟩
    rw [hhold, settled, execDirect, perform_of_piece? hp, follow, Sink.deliver_call, forget_warn]

theorem settled_feed (sink : Sink σ ε) (s : Session σ) (ts : List Token) :
    let r := s.feed sink.replaying ts
    (r.1.settled sink, r.2) = (s.settled sink).feedDirect sink ts ∧
      (r.2 ≠ none → r.1.settled sink = r.1) := by
  induction ts generalizing s with
  | nil => exact ⟨rfl, fun h => absurd rfl h⟩
  | cons t ts ih =>
    obtain ⟨heq, href⟩ := settled_exec sink s t
    rw [feedDirect, ← heq, feed]
    cases hr : s.exec sink.replaying t with
    | mk u e =>
      rw [hr] at href
      cases e with
      | some e => exact ⟨rfl, href⟩
      | none => exact ih u

theorem finish_eq (sink : Sink σ ε) (s : Session σ) :
    s.finish sink.replaying = (s.settled sink).follow sink (s.settled sink).interpreter.endPage := by
  obtain ⟨st, d⟩ := s
  have hplain := plain_endPage st.forget
  simp only [settled, Session.finish, Interpreter.finish, follow, flush_fst]
  rw [Sink.deliver_append, deliver_flush]
  simp only [sink.deliver_replaying _ _ hplain.calls]

/-- Whatever a device does with its calls, and whichever resolution it refuses, it ends in the same
state, with the same refusal at the same command, and the interpreter ends in the same state, as if
every command were performed at once. -/
theorem run_replaying_eq_runDirect (sink : Sink σ ε) (d : σ) (ts : List Token) :
    run sink.replaying ⟨.initial, d⟩ ts = runDirect sink ⟨.initial, d⟩ ts ∧
    ∀ n, (feed sink.replaying ⟨.initial, d⟩ (ts.take n)).2 =
      (feedDirect sink ⟨.initial, d⟩ (ts.take n)).2 := by
  have hstart : settled sink ⟨.initial, d⟩ = ⟨.initial, d⟩ := rfl
  have hfeed := fun us => settled_feed sink ⟨.initial, d⟩ us
  rw [hstart] at hfeed
  constructor
  · obtain ⟨heq, href⟩ := hfeed ts
    rw [run, runDirect, ← heq]
    cases hr : feed sink.replaying ⟨.initial, d⟩ ts with
    | mk u e =>
      rw [hr] at href
      cases e with
      | some e => rw [href (by simp)]
      | none => exact finish_eq sink u
  · intro n
    rw [← (hfeed (ts.take n)).1]

end Device.Session

end Galley
