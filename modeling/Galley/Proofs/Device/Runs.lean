import Galley.Proofs.Device.Brackets
import Galley.Proofs.Device.Comments
/-!
Where runs are cut. A run begins with a text, and is printed when it is full or before a command
that does not go on with it. Moves and word spaces are never held back alone.
-/
namespace Galley

namespace Device

def Call.run? : Call → Option (List RunPiece)
  | .textRun run => some run
  | _ => none

def runs (cs : List Call) : List (List RunPiece) := cs.filterMap Call.run?

/-- A run that can be printed: it begins with a text and has no more pieces than a run may. -/
structure IsRun (run : List RunPiece) : Prop where
  text : ∃ s rest, run = .text s :: rest
  length_le : run.length ≤ Interpreter.runCapacity

theorem runs_append (cs ds : List Call) : runs (cs ++ ds) = runs cs ++ runs ds :=
  List.filterMap_append

theorem Call.IsPrimitive.run? {c : Call} (h : c.IsPrimitive) : c.run? = none := by
  cases c
  case textRun run =>
    obtain ⟨p, -, hp⟩ := List.map_eq_singleton_iff.mp h
    cases p <;> cases hp
  all_goals rfl

theorem runs_of_primitive {cs : List Call} (h : ∀ c ∈ cs, c.IsPrimitive) : runs cs = [] :=
  List.filterMap_eq_nil_iff.mpr fun c hc => (h c hc).run?

variable {σ ε : Type}

theorem Sink.receiveAll_recording (sink : Sink σ ε) (x : σ × List Call) (cs : List Call) :
    (sink.recording.receiveAll x cs).2 = x.2 ++ cs := by
  induction cs generalizing x with
  | nil => exact (List.append_nil _).symm
  | cons c cs ih =>
    have hcons := ih (sink.recording.receive x c)
    rw [Sink.receiveAll, List.foldl_cons, ← Sink.receiveAll, hcons]
    simp [Sink.recording]

end Device

namespace Interpreter
open Device
variable {st : Interpreter} {t : Token}

/-- What may be held back between commands: less than a full run, with a text at its beginning. -/
structure HoldsRun (st : Interpreter) : Prop where
  length_lt : st.pending.length < runCapacity
  text : st.pending = [] ∨ ∃ s rest, st.pending = .text s :: rest

theorem holdsRun_of_nil (h : st.pending = []) : st.HoldsRun where
  length_lt := by rw [h]; decide
  text := .inl h

theorem HoldsRun.isRun (h : st.HoldsRun) (hp : st.pending ≠ []) : IsRun st.pending where
  text := h.text.resolve_left hp
  length_le := Nat.le_of_lt h.length_lt

/-! Pieces. -/

theorem HoldsRun.text_concat {p : RunPiece} {problems : Problems} (h : st.HoldsRun)
    (hp : st.piece? t = some (p, problems)) : ∃ s rest, st.pending ++ [p] = .text s :: rest := by
  obtain hnil | ⟨s, rest, hpending⟩ := h.text
  · rw [piece?, hnil] at hp
    split at hp
    · obtain ⟨rfl, -⟩ := Prod.mk.inj (Option.some.inj hp)
      exact ⟨_, [], by rw [hnil]; rfl⟩
    · cases hp
  · exact ⟨s, rest ++ [p], by rw [hpending]; rfl⟩

theorem exec_of_piece? {p : RunPiece} {problems : Problems} (h : st.HoldsRun)
    (hp : st.piece? t = some (p, problems)) :
    (st.exec t).1.HoldsRun ∧ ((st.exec t).2 = [] ∨
      ∃ run, (st.exec t).2 = [.textRun run] ∧ IsRun run ∧ run.length = runCapacity) := by
  have hexec : st.exec t = (st.warn t problems).hold p := by rw [exec, hp]
  have hpending : (st.warn t problems).pending = st.pending := pending_warn st t problems
  have htext := h.text_concat hp
  have hlength : (st.pending ++ [p]).length = st.pending.length + 1 := by
    rw [List.length_append]
    rfl
  rw [hexec]
  rcases Nat.lt_or_ge (st.pending.length + 1) runCapacity with hlt | hle
  · rw [hold_of_lt (by rwa [hpending]), hpending]
    exact ⟨⟨hlength ▸ hlt, .inr htext⟩, .inl rfl⟩
  · rw [hold_of_le (by rwa [hpending]), hpending]
    have hfull : (st.pending ++ [p]).length = runCapacity :=
      hlength.trans (Nat.le_antisymm h.length_lt hle)
    exact ⟨holdsRun_of_nil rfl, .inr ⟨_, rfl, ⟨htext, Nat.le_of_eq hfull⟩, hfull⟩⟩

theorem runs_execDirect (st : Interpreter) (t : Token) : runs (st.execDirect t).2 = [] :=
  runs_of_primitive (plain_perform st t).calls

theorem runs_endPage (st : Interpreter) : runs st.endPage.2 = [] :=
  runs_of_primitive (plain_endPage st).calls

theorem eq_pending_of_mem_flush {run : List RunPiece} (h : run ∈ runs st.flush.2) :
    st.pending ≠ [] ∧ run = st.pending := by
  by_cases hp : st.pending = []
  · rw [flush, hp] at h
    cases h
  · rw [flush_of_pending hp] at h
    exact ⟨hp, List.mem_singleton.mp h⟩

/-! What a command and a finish print. -/

theorem HoldsRun.exec (h : st.HoldsRun) (t : Token) : (st.exec t).1.HoldsRun := by
  cases hp : st.piece? t with
  | some q => exact (exec_of_piece? h hp).1
  | none =>
    rw [exec_of_none hp]
    exact holdsRun_of_nil (Session.pending_execDirect st.forget t)

theorem HoldsRun.finish (st : Interpreter) : st.finish.1.HoldsRun := holdsRun_of_nil st.pending_finish

theorem HoldsRun.cut_exec (h : st.HoldsRun) {run : List RunPiece} (hrun : run ∈ runs (st.exec t).2) :
    IsRun run ∧ (run.length = runCapacity ∨
      ¬ t.GoesOn ∧ st.exec t = ((st.forget.execDirect t).1, .textRun run :: (st.forget.execDirect t).2)) := by
  cases hp : st.piece? t with
  | some q =>
    obtain hnone | ⟨full, hfull, hisRun, hlength⟩ := (exec_of_piece? h hp).2
    · rw [hnone] at hrun
      cases hrun
    · rw [hfull] at hrun
      obtain rfl := List.mem_singleton.mp hrun
      exact ⟨hisRun, .inl hlength⟩
  | none =>
    rw [exec_of_none hp, runs_append, runs_execDirect, List.append_nil] at hrun
    obtain ⟨hpending, rfl⟩ := eq_pending_of_mem_flush hrun
    refine ⟨h.isRun hpending, .inr ⟨?_, ?_⟩⟩
    · rw [← piece?_isSome hpending, hp]
      simp
    · rw [exec_of_none hp, flush_of_pending hpending]
      rfl

theorem HoldsRun.cut_finish (h : st.HoldsRun) {run : List RunPiece} (hrun : run ∈ runs st.finish.2) :
    IsRun run ∧ st.finish = (st.forget.endPage.1, .textRun run :: st.forget.endPage.2) := by
  have hfinish : st.finish = (st.forget.endPage.1, st.flush.2 ++ st.forget.endPage.2) := by
    rw [← flush_fst]
    rfl
  rw [hfinish, runs_append, runs_endPage, List.append_nil] at hrun
  obtain ⟨hpending, rfl⟩ := eq_pending_of_mem_flush hrun
  refine ⟨h.isRun hpending, ?_⟩
  rw [hfinish, flush_of_pending hpending]
  rfl

theorem HoldsRun.pending_of_direct (h : st.HoldsRun) (ht : t.GoesOn) {c : Call}
    (hc : c ∈ (st.exec t).2) (hdirect : c.run? = none) : st.pending = [] := by
  by_contra hpending
  obtain ⟨⟨p, problems⟩, hp⟩ := Option.isSome_iff_exists.mp ((piece?_isSome hpending).mpr ht)
  obtain hnone | ⟨run, hrun, -⟩ := (exec_of_piece? h hp).2
  · rw [hnone] at hc
    cases hc
  · rw [hrun, List.mem_singleton] at hc
    rw [hc] at hdirect
    cases hdirect

end Interpreter

namespace Device.Session
open Interpreter
variable {σ ε : Type}

structure KeepsRuns (s : Session (σ × List Call)) : Prop where
  printed : ∀ run ∈ runs s.device.2, IsRun run
  held : s.interpreter.HoldsRun

theorem exec_recording (sink : Sink σ ε) (s : Session (σ × List Call)) (t : Token) :
    (s.exec sink.recording t).1.interpreter = (s.interpreter.exec t).1 ∧
    (s.exec sink.recording t).1.device.2 = s.device.2 ++ (s.interpreter.exec t).2 := by
  rw [exec_eq]
  exact ⟨rfl, sink.receiveAll_recording s.device _⟩

theorem finish_recording (sink : Sink σ ε) (s : Session (σ × List Call)) :
    (s.finish sink.recording).1.interpreter = s.interpreter.finish.1 ∧
    (s.finish sink.recording).1.device.2 = s.device.2 ++ s.interpreter.finish.2 := by
  rw [finish_eq_receiveAll]
  exact ⟨rfl, sink.receiveAll_recording s.device _⟩

theorem KeepsRuns.exec {s : Session (σ × List Call)} (h : s.KeepsRuns) (sink : Sink σ ε) (t : Token) :
    (s.exec sink.recording t).1.KeepsRuns := by
  obtain ⟨hstate, hdevice⟩ := exec_recording sink s t
  constructor
  · rw [hdevice, runs_append, List.forall_mem_append]
    exact ⟨h.printed, fun run hrun => (h.held.cut_exec hrun).1⟩
  · rw [hstate]
    exact h.held.exec t

theorem KeepsRuns.finish {s : Session (σ × List Call)} (h : s.KeepsRuns) (sink : Sink σ ε) :
    (s.finish sink.recording).1.KeepsRuns := by
  obtain ⟨hstate, hdevice⟩ := finish_recording sink s
  constructor
  · rw [hdevice, runs_append, List.forall_mem_append]
    exact ⟨h.printed, fun run hrun => (h.held.cut_finish hrun).1⟩
  · rw [hstate]
    exact .finish s.interpreter

/-- In any order of commands and finishes the runs that a device gets begin with a text and have at
most as many pieces as a run may; what is held back between commands has fewer, and begins with a
text as well. A run is printed when it has so many pieces, or before all that is done by a finish or
a command that does not go on with it. A move or word space is a call of its own only if nothing is
held back. -/
theorem runs_cut_when_due (sink : Sink σ ε) (d : σ) (steps : List Step) :
    let s := takeAll sink.recording ⟨.initial, (d, [])⟩ steps
    let st := s.interpreter
    (∀ run ∈ runs s.device.2, IsRun run) ∧ st.HoldsRun ∧
    (∀ t, (s.exec sink.recording t).1.device.2 = s.device.2 ++ (st.exec t).2 ∧
      (∀ run ∈ runs (st.exec t).2, run.length = runCapacity ∨
        ¬ t.GoesOn ∧ (st.exec t).2 = .textRun run :: (st.forget.execDirect t).2 ∧
          runs (st.forget.execDirect t).2 = []) ∧
      (t.GoesOn → ∀ c ∈ (st.exec t).2, c.run? = none → st.pending = [])) ∧
    (s.finish sink.recording).1.device.2 = s.device.2 ++ st.finish.2 ∧
    ∀ run ∈ runs st.finish.2,
      st.finish.2 = .textRun run :: st.forget.endPage.2 ∧ runs st.forget.endPage.2 = [] := by
  intro s st
  have hs : s.KeepsRuns := by
    have hstart : KeepsRuns (σ := σ) ⟨.initial, (d, [])⟩ := ⟨by simp [runs], holdsRun_of_nil rfl⟩
    exact takeAll_keeps (fun _ t h => h.exec sink t) (fun _ h => h.finish sink) hstart steps
  refine ⟨hs.printed, hs.held, fun t => ⟨(exec_recording sink s t).2, fun run hrun => ?_, ?_⟩,
    (finish_recording sink s).2, fun run hrun => ?_⟩
  · obtain hlength | ⟨ht, hexec⟩ := (hs.held.cut_exec hrun).2
    · exact .inl hlength
    · exact .inr ⟨ht, congrArg Prod.snd hexec, runs_execDirect _ t⟩
  · exact fun ht c hc hdirect => hs.held.pending_of_direct ht hc hdirect
  · exact ⟨congrArg Prod.snd (hs.held.cut_finish hrun).2, runs_endPage _⟩

end Device.Session
end Galley
