import Mathlib.Data.List.Chain
import Galley.Proofs.Device.Delivery
/-!
The beginnings and ends of pages on a device. In any order of commands and finishes, and whichever
resolutions are refused, pages begin and end in turn, and the interpreter counts those begun.
-/
namespace Galley.Device

inductive Bracket where
  | opening | closing
  deriving DecidableEq

def Call.bracket? : Call → Option Bracket
  | .beginPage _ => some .opening
  | .endPage => some .closing
  | _ => none

def brackets (cs : List Call) : List Bracket := cs.filterMap Call.bracket?

theorem brackets_concat (cs : List Call) (c : Call) :
    brackets (cs ++ [c]) = brackets cs ++ c.bracket?.toList := by
  rw [brackets, List.filterMap_append]
  cases h : c.bracket? <;> simp [brackets, h]

/-- Pages that begin and end one after the other. -/
def paired : Nat → List Bracket
  | 0 => []
  | n + 1 => .opening :: .closing :: paired n

theorem paired_concat (n : Nat) : paired n ++ [.opening, .closing] = paired (n + 1) := by
  induction n with
  | zero => rfl
  | succ n ih => exact congrArg (fun bs => .opening :: .closing :: bs) ih

/-- Brackets of a number of pages, the last of which may still be open. -/
inductive Bracketed : List Bracket → Nat → Bool → Prop
  | ended (n : Nat) : Bracketed (paired n) n false
  | within (n : Nat) : Bracketed (paired n ++ [.opening]) (n + 1) true

namespace Bracketed

theorem after {bs : List Bracket} {p q : Place} {c : Call} (h : Bracketed bs p.page p.inPage)
    (hc : p.after? c = some q) : Bracketed (bs ++ c.bracket?.toList) q.page q.inPage := by
  obtain ⟨page, inPage, v⟩ := p
  cases c
  case beginPage number =>
    cases h with
    | ended =>
      obtain rfl := Option.some.inj hc
      exact .within page
    | within n => exact absurd hc (by simp [Place.after?])
  case endPage =>
    cases h with
    | ended n => exact absurd hc (by simp [Place.after?])
    | within n =>
      obtain rfl := Option.some.inj hc
      rw [List.append_assoc]
      show Bracketed (paired n ++ [.opening, .closing]) (n + 1) false
      rw [paired_concat]
      exact .ended (n + 1)
  all_goals
    obtain rfl := Option.some.inj hc
    simpa [Call.bracket?] using h

theorem isChain {bs : List Bracket} {n : Nat} {o : Bool} (h : Bracketed bs n o) :
    (.closing :: bs).IsChain (· ≠ ·) := by
  have hpaired : ∀ n last, (last = [] ∨ last = [.opening]) →
      (.closing :: (paired n ++ last)).IsChain (· ≠ ·) := by
    intro n last hlast
    induction n with
    | zero => obtain rfl | rfl := hlast <;> simp [paired]
    | succ n ih => simpa [paired] using ih
  cases h with
  | ended n => simpa using hpaired n [] (.inl rfl)
  | within n => exact hpaired _ _ (.inr rfl)

theorem count_opening {bs : List Bracket} {n : Nat} {o : Bool} (h : Bracketed bs n o) :
    bs.count .opening = n := by
  have hpaired : ∀ n, (paired n).count .opening = n := by
    intro n
    induction n with
    | zero => rfl
    | succ n ih => simp [paired, ih]
  cases h with
  | ended n => exact hpaired n
  | within n => rw [List.count_append, hpaired]; rfl

theorem eq_paired {bs : List Bracket} {n : Nat} (h : Bracketed bs n false) : bs = paired n := by
  cases h
  rfl

end Bracketed

end Galley.Device

/-! The end of a page. -/

namespace Galley.Interpreter

theorem inPage_endPage (st : Interpreter) : st.endPage.1.inPage = false := by
  rw [endPage]
  split
  · rfl
  · next h => simpa using h

theorem inPage_finish (st : Interpreter) : st.finish.1.inPage = false := inPage_endPage _

theorem pending_finish (st : Interpreter) : st.finish.1.pending = [] := by
  have hflush : st.flush.1.pending = [] := by
    rw [flush]
    split
    · next h => exact List.isEmpty_iff.mp h
    · rfl
  rw [← hflush, finish]
  dsimp only
  rw [endPage]
  split <;> rfl

theorem finish_finish (st : Interpreter) : st.finish.1.finish = (st.finish.1, []) := by
  have hpending := pending_finish st
  have hpage := inPage_finish st
  generalize st.finish.1 = u at hpending hpage
  simp [finish, flush, endPage, hpending, hpage]

theorem inPage_exec_of_stop {t : Token} (hk : t.kind = .deviceControl)
    (hstop : Control.parse t.operand = .stop) (st : Interpreter) :
    (st.exec t).1.inPage = false := by
  have hp : st.piece? t = none := by simp [piece?, hk]
  have hperform : (st.flush.1.perform t) = .ofPair st.flush.1.endPage [] := by
    simp only [perform, hk, hstop, control]
  rw [exec, hp]
  dsimp only
  rw [hperform]
  exact inPage_endPage _

end Galley.Interpreter

/-! Sessions on a device that keeps its calls. -/

namespace Galley.Device
variable {σ ε : Type}

/-- A device together with the calls that it got. -/
def Sink.recording (sink : Sink σ ε) : Sink (σ × List Call) ε where
  receive s c := (sink.receive s.1 c, s.2 ++ [c])
  refuse s r := sink.refuse s.1 r

theorem Sink.follows_recording (sink : Sink σ ε) :
    sink.recording.Follows fun x p => Bracketed (brackets x.2) p.page p.inPage := by
  intro x p q c h hc
  show Bracketed (brackets (x.2 ++ [c])) q.page q.inPage
  rw [brackets_concat]
  exact h.after hc

namespace Session

/-- What can be done with an interpreter at work. -/
inductive Step where
  | exec (t : Token)
  | finish

def take (sink : Sink σ ε) (s : Session σ) : Step → Session σ × Option ε
  | .exec t => s.exec sink t
  | .finish => s.finish sink

/-- Takes steps in turn, whether or not a call of theirs is refused. -/
def takeAll (sink : Sink σ ε) (s : Session σ) (steps : List Step) : Session σ :=
  steps.foldl (fun s x => (s.take sink x).1) s

/-- The calls so far are brackets of the pages that the interpreter has begun. -/
def IsBracketed (s : Session (σ × List Call)) : Prop :=
  Bracketed (brackets s.device.2) s.interpreter.page s.interpreter.inPage

def IsClosed (s : Session (σ × List Call)) : Prop :=
  s.interpreter.inPage = false ∧ brackets s.device.2 = paired s.interpreter.page

theorem IsBracketed.isClosed {s : Session (σ × List Call)} (h : s.IsBracketed)
    (hpage : s.interpreter.inPage = false) : s.IsClosed := by
  refine ⟨hpage, ?_⟩
  rw [IsBracketed, hpage] at h
  exact h.eq_paired

theorem IsBracketed.exec {s : Session (σ × List Call)} (h : s.IsBracketed) (sink : Sink σ ε)
    (t : Token) : (s.exec sink.recording t).1.IsBracketed := sink.follows_recording.exec h t

theorem IsBracketed.finish {s : Session (σ × List Call)} (h : s.IsBracketed) (sink : Sink σ ε) :
    (s.finish sink.recording).1.IsBracketed := sink.follows_recording.finish h

theorem takeAll_keeps {sink : Sink σ ε} {P : Session σ → Prop}
    (hexec : ∀ s t, P s → P (s.exec sink t).1) (hfinish : ∀ s, P s → P (s.finish sink).1)
    {s : Session σ} (h : P s) (steps : List Step) : P (s.takeAll sink steps) := by
  induction steps generalizing s with
  | nil => exact h
  | cons x steps ih =>
    cases x with
    | exec t => exact ih (hexec s t h)
    | finish => exact ih (hfinish s h)

theorem IsBracketed.takeAll {s : Session (σ × List Call)} (h : s.IsBracketed) (sink : Sink σ ε)
    (steps : List Step) : (s.takeAll sink.recording steps).IsBracketed :=
  takeAll_keeps (fun _ t hs => hs.exec sink t) (fun _ hs => hs.finish sink) h steps

theorem IsBracketed.isClosed_finish {s : Session (σ × List Call)} (h : s.IsBracketed)
    (sink : Sink σ ε) : (s.finish sink.recording).1.IsClosed := by
  refine (h.finish sink).isClosed ?_
  rw [finish_eq_receiveAll]
  exact s.interpreter.inPage_finish

theorem IsBracketed.isClosed_run {s u : Session (σ × List Call)} (h : s.IsBracketed)
    {sink : Sink σ ε} {ts : List Token} (hrun : s.run sink.recording ts = (u, none)) :
    u.IsClosed := by
  obtain ⟨v, hfeed, hfinish⟩ := run_eq_none hrun
  have hv : (s.feed sink.recording ts).1.IsBracketed := sink.follows_recording.feed h ts
  rw [hfeed] at hv
  have hclosed := hv.isClosed_finish sink
  rwa [hfinish] at hclosed

theorem device_finish_finish (sink : Sink σ ε) (s : Session σ) :
    ((s.finish sink).1.finish sink).1.device = (s.finish sink).1.device := by
  rw [finish_eq_receiveAll sink (s.finish sink).1, finish_eq_receiveAll sink s]
  dsimp only
  rw [Interpreter.finish_finish]
  rfl

/-- In any order of commands and finishes the pages that begin and end on a device take turns, and
as many have begun as the interpreter has counted. After a stop, a finish or a run without refusal
all of them have ended; a second finish makes no call. -/
theorem pages_bracketed (sink : Sink σ ε) (d : σ) (steps : List Step) :
    let s := takeAll sink.recording ⟨.initial, (d, [])⟩ steps
    let finished := (s.finish sink.recording).1
    (brackets s.device.2).IsChain (· ≠ ·) ∧
    (∀ b ∈ (brackets s.device.2).head?, b = .opening) ∧
    (brackets s.device.2).count .opening = s.interpreter.page ∧
    (∀ t, t.kind = .deviceControl → Control.parse t.operand = .stop →
      (s.exec sink.recording t).1.IsClosed) ∧
    finished.IsClosed ∧
    (finished.finish sink.recording).1.device = finished.device ∧
    ∀ ts u, s.run sink.recording ts = (u, none) → u.IsClosed := by
  intro s finished
  have hs : s.IsBracketed := by
    have hstart : IsBracketed (σ := σ) ⟨.initial, (d, [])⟩ := .ended 0
    exact hstart.takeAll sink steps
  obtain ⟨hhead, hchain⟩ := List.isChain_cons.mp hs.isChain
  refine ⟨hchain, ?_, hs.count_opening, ?_, hs.isClosed_finish sink, device_finish_finish _ s,
    fun ts u hrun => hs.isClosed_run hrun⟩
  · intro b hb
    cases b with
    | opening => rfl
    | closing => exact absurd rfl (hhead _ hb)
  · intro t hk hstop
    refine (hs.exec sink t).isClosed ?_
    rw [exec_eq]
    exact Interpreter.inPage_exec_of_stop hk hstop _

end Session

end Galley.Device
