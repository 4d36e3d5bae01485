import Galley.Device.Session
import Galley.Proofs.Interpreter.Calls
/-!
What a command leaves on a device that can refuse a resolution. The call that is refused is the
last of its command, so the device gets all the calls of every command in any case, and stays at
the place of the interpreter.
-/
namespace Galley.Device
open Interpreter
variable {σ ε : Type} {sink : Sink σ ε}

theorem Sink.deliver_of_unasked (sink : Sink σ ε) (d : σ) {cs : List Call}
    (h : cs.filterMap Call.resolution? = []) : sink.deliver d cs = (sink.receiveAll d cs, none) := by
  induction cs generalizing d with
  | nil => rfl
  | cons c cs ih =>
    rw [List.filterMap_eq_nil_iff, List.forall_mem_cons] at h
    have hc : sink.refusal d c = none := by
      cases c
      case resolution r => simp [Call.resolution?] at h
      all_goals rfl
    rw [deliver, hc, ih _ (List.filterMap_eq_nil_iff.mpr h.2)]
    rfl

theorem Sink.deliver_resolution (sink : Sink σ ε) (d : σ) (r : Resolution) :
    sink.deliver d [.resolution r] = (sink.receive d (.resolution r), sink.refuse d r) := by
  cases h : sink.refuse d r with
  | none => simp [deliver, refusal, h]
  | some e => simp [deliver, refusal, h]

namespace Session

/-- A device gets all the calls of a command. It can refuse only the resolution that a control
sets, which comes after what was held back. -/
theorem exec_eq (sink : Sink σ ε) (s : Session σ) (t : Token) :
    s.exec sink t =
      (⟨(s.interpreter.exec t).1, sink.receiveAll s.device (s.interpreter.exec t).2⟩,
        t.resolution?.bind (sink.refuse (sink.receiveAll s.device s.interpreter.flush.2))) := by
  rw [exec, follow]
  cases hr : t.resolution? with
  | none =>
    have hasked := (s.interpreter.leads_exec t).asked
    rw [hr] at hasked
    rw [sink.deliver_of_unasked _ hasked]
    rfl
  | some r =>
    have hflush := sink.deliver_of_unasked s.device s.interpreter.leads_flush.asked
    have hall : sink.receiveAll s.device (s.interpreter.flush.2 ++ [.resolution r]) =
        sink.receive (sink.receiveAll s.device s.interpreter.flush.2) (.resolution r) :=
      List.foldl_append
    rw [exec_of_resolution? hr, Sink.deliver_append, hflush, hall]
    simp only [sink.deliver_resolution]
    rfl

theorem finish_eq_receiveAll (sink : Sink σ ε) (s : Session σ) :
    s.finish sink =
      (⟨s.interpreter.finish.1, sink.receiveAll s.device s.interpreter.finish.2⟩, none) := by
  rw [finish, follow, sink.deliver_of_unasked _ s.interpreter.leads_finish.asked]

/-! Many commands. -/

theorem feed_append {s u : Session σ} {ts : List Token} (h : s.feed sink ts = (u, none))
    (us : List Token) : s.feed sink (ts ++ us) = u.feed sink us := by
  induction ts generalizing s with
  | nil =>
    obtain ⟨rfl, -⟩ := Prod.mk.inj h
    rfl
  | cons t ts ih =>
    rw [feed] at h
    rw [List.cons_append, feed]
    cases he : s.exec sink t with
    | mk v e =>
      rw [he] at h
      cases e with
      | some e => exact absurd (Prod.mk.inj h).2 (by simp)
      | none => exact ih h

theorem feed_of_accepted (sink : Sink σ ε) (s : Session σ) {ts : List Token}
    (h : ∀ t ∈ ts, ∀ r ∈ t.resolution?, ∀ d, sink.refuse d r = none) :
    s.feed sink ts =
      (⟨(s.interpreter.execAll ts).1, sink.receiveAll s.device (s.interpreter.execAll ts).2⟩,
        none) := by
  induction ts generalizing s with
  | nil => rfl
  | cons t ts ih =>
    obtain ⟨ht, hts⟩ := List.forall_mem_cons.mp h
    have hnone : t.resolution?.bind
        (sink.refuse (sink.receiveAll s.device s.interpreter.flush.2)) = none := by
      rw [Option.bind_eq_none_iff]
      exact fun r hr => ht r hr _
    rw [feed, exec_eq, hnone]
    dsimp only
    rw [ih _ hts, Sink.receiveAll, Sink.receiveAll, Sink.receiveAll, ← List.foldl_append]
    rfl

theorem run_of_accepted (sink : Sink σ ε) (s : Session σ) {ts : List Token}
    (h : ∀ t ∈ ts, ∀ r ∈ t.resolution?, ∀ d, sink.refuse d r = none) :
    s.run sink ts =
      (⟨(s.interpreter.runAll ts).1, sink.receiveAll s.device (s.interpreter.runAll ts).2⟩,
        none) := by
  rw [run, feed_of_accepted sink s h]
  dsimp only
  rw [finish_eq_receiveAll, Sink.receiveAll, Sink.receiveAll, Sink.receiveAll, ← List.foldl_append]
  rfl

theorem run_eq_none {s u : Session σ} {ts : List Token} (h : s.run sink ts = (u, none)) :
    ∃ v, s.feed sink ts = (v, none) ∧ v.finish sink = (u, none) := by
  rw [run] at h
  cases hv : s.feed sink ts with
  | mk v e =>
    rw [hv] at h
    cases e with
    | some e => exact absurd (Prod.mk.inj h).2 (by simp)
    | none => exact ⟨v, rfl, h⟩

theorem interpreter_of_feed {s u : Session σ} {ts : List Token} (h : s.feed sink ts = (u, none)) :
    u.interpreter = (s.interpreter.execAll ts).1 := by
  induction ts generalizing s with
  | nil =>
    obtain ⟨rfl, -⟩ := Prod.mk.inj h
    rfl
  | cons t ts ih =>
    have hexec := congrArg (·.1.interpreter) (exec_eq sink s t)
    rw [feed] at h
    cases he : s.exec sink t with
    | mk v e =>
      rw [he] at h hexec
      cases e with
      | some e => cases (Prod.mk.inj h).2
      | none =>
        rw [ih h, hexec]
        rfl

theorem interpreter_of_run {s u : Session σ} {ts : List Token} (h : s.run sink ts = (u, none)) :
    u.interpreter = (s.interpreter.runAll ts).1 := by
  obtain ⟨v, hfeed, hfinish⟩ := run_eq_none h
  rw [finish_eq_receiveAll] at hfinish
  rw [← (Prod.mk.inj hfinish).1, interpreter_of_feed hfeed]
  rfl

theorem feed_keeps {P : Session σ → Prop} (hexec : ∀ s t, P s → P (s.exec sink t).1)
    {s : Session σ} (h : P s) (ts : List Token) : P (s.feed sink ts).1 := by
  induction ts generalizing s with
  | nil => exact h
  | cons t ts ih =>
    have ht := hexec s t h
    rw [feed]
    cases he : s.exec sink t with
    | mk u e =>
      rw [he] at ht
      cases e with
      | some e => exact ht
      | none => exact ih ht

end Session

/-! Devices that keep to the place of the interpreter. -/

def Sink.Follows (sink : Sink σ ε) (R : σ → Place → Prop) : Prop :=
  ∀ ⦃d p q c⦄, R d p → p.after? c = some q → R (sink.receive d c) q

namespace Sink.Follows
variable {R : σ → Place → Prop}

theorem receiveAll (hR : sink.Follows R) {d : σ} {p q : Place} {cs : List Call} (h : R d p)
    (hcs : p.afterAll? cs = some q) : R (sink.receiveAll d cs) q := by
  induction cs generalizing d p with
  | nil =>
    obtain rfl := Option.some.inj hcs
    exact h
  | cons c cs ih =>
    rw [Place.afterAll?, List.foldlM_cons] at hcs
    obtain ⟨r, hr, hcs⟩ := Option.bind_eq_some_iff.mp hcs
    exact ih (hR h hr) hcs

theorem exec (hR : sink.Follows R) {s : Session σ} (h : R s.device s.interpreter.place)
    (t : Token) : R (s.exec sink t).1.device (s.exec sink t).1.interpreter.place := by
  rw [Session.exec_eq]
  exact hR.receiveAll h (s.interpreter.leads_exec t).place

theorem finish (hR : sink.Follows R) {s : Session σ} (h : R s.device s.interpreter.place) :
    R (s.finish sink).1.device (s.finish sink).1.interpreter.place := by
  rw [Session.finish_eq_receiveAll]
  exact hR.receiveAll h s.interpreter.leads_finish.place

theorem feed (hR : sink.Follows R) {s : Session σ} (h : R s.device s.interpreter.place)
    (ts : List Token) : R (s.feed sink ts).1.device (s.feed sink ts).1.interpreter.place :=
  Session.feed_keeps (P := fun u => R u.device u.interpreter.place) (fun _ t hu => hR.exec hu t) h ts

end Sink.Follows

end Galley.Device
