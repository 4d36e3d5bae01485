import Galley.CommandLine.Run
import Galley.Proofs.Interpreter.Mounts
import Galley.Proofs.Terminal.Refusal
import Galley.Proofs.Token.Splitting
/-!
The warnings of a document. They come command by command and name the place of the command, and
a command that is well formed is one without warnings.
-/
namespace Galley

namespace Interpreter
open Token Device

/-! What a command notes. -/

def notes (t : Token) (problems : Problems) : List Warning := problems.map fun k => ⟨t.span, k⟩

theorem exec_notes (st : Interpreter) (t : Token) :
    (st.exec t).1.warnings = st.warnings ++ notes t (st.forget.perform t).problems ∧
    (st.exec t).1.mounts = t.mount?.toList ++ st.mounts := by
  obtain ⟨pending, hexec⟩ := st.exec_eq_execDirect t
  have hperform := mounted_perform st.forget t
  rw [hexec, execDirect, warn_eq]
  exact ⟨congrArg (· ++ notes t _) hperform.warnings, hperform.mounts⟩

theorem knows_initial : initial.Knows [] := fun n => by simp [mounted?, initial, Mounts]

theorem Knows.exec {st : Interpreter} {before : List Token} (h : st.Knows before) (t : Token) :
    (st.exec t).1.Knows (before ++ [t]) := by
  intro n
  have hmounts : Mounts (before ++ [t]) n ↔ (∃ name, t.mount? = some (n, name)) ∨ Mounts before n := by
    simp [Mounts, or_and_right, exists_or, or_comm]
  have hbefore : (st.mounts.lookup n).isSome ↔ Mounts before n := h n
  rw [mounted?, (exec_notes st t).2, hmounts, ← hbefore, List.lookup_append]
  cases t.mount? with
  | none => simp
  | some m =>
    obtain ⟨i, name⟩ := m
    by_cases hi : n = i
    · simp [hi]
    · have hbeq : (n == i) = false := beq_false_of_ne hi
      simp [List.lookup_cons, hbeq, Ne.symm hi]

end Interpreter

namespace Token

/-- The warnings of commands that come after others, command by command. -/
inductive Noted : List Token → List Token → List Warning → Prop
  | nil {before} : Noted before [] []
  | cons {before t ts ws rest} (span : ∀ w ∈ ws, w.span = t.span)
      (exact : ws = [] ↔ t.WellFormed before) (after : Noted (before ++ [t]) ts rest) :
      Noted before (t :: ts) (ws ++ rest)

/-- Each command is well formed after those before it. -/
def AllWellFormed (before ts : List Token) : Prop :=
  ∀ us t vs, ts = us ++ t :: vs → t.WellFormed (before ++ us)

theorem allWellFormed_cons {before ts : List Token} {t : Token} :
    AllWellFormed before (t :: ts) ↔ t.WellFormed before ∧ AllWellFormed (before ++ [t]) ts := by
  constructor
  · intro h
    refine ⟨?_, fun us x vs hts => ?_⟩
    · have ht := h [] t ts rfl
      rwa [List.append_nil] at ht
    · have hx := h (t :: us) x vs (by rw [hts]; rfl)
      rwa [List.append_cons] at hx
  · rintro ⟨ht, hts⟩ us x vs heq
    cases us with
    | nil =>
      obtain ⟨rfl, rfl⟩ := List.cons.inj heq
      rwa [List.append_nil]
    | cons u us =>
      obtain ⟨rfl, rfl⟩ := List.cons.inj heq
      rw [List.append_cons]
      exact hts us x vs rfl

namespace Noted
variable {before ts : List Token} {ws : List Warning}

theorem exists_of_mem (h : Noted before ts ws) {w : Warning} (hw : w ∈ ws) :
    ∃ t ∈ ts, w.span = t.span := by
  induction h with
  | nil => cases hw
  | cons span _ _ ih =>
    rcases List.mem_append.mp hw with hw | hw
    · exact ⟨_, List.mem_cons_self, span w hw⟩
    · obtain ⟨t, ht, hspan⟩ := ih hw
      exact ⟨t, List.mem_cons_of_mem _ ht, hspan⟩

theorem eq_nil_iff (h : Noted before ts ws) : ws = [] ↔ AllWellFormed before ts := by
  induction h with
  | nil => simp [AllWellFormed]
  | cons _ exact _ ih => rw [List.append_eq_nil_iff, exact, ih, allWellFormed_cons]

theorem pairwise (h : Noted before ts ws) (hts : ts.Pairwise fun t u => t.offset < u.offset) :
    (ws.map (·.span.start)).Pairwise (· ≤ ·) := by
  induction h with
  | nil => exact .nil
  | cons span _ after ih =>
    obtain ⟨ht, hts⟩ := List.pairwise_cons.mp hts
    rw [List.map_append, List.pairwise_append]
    refine ⟨?_, ih hts, ?_⟩
    · rw [List.pairwise_map]
      refine List.pairwise_of_forall_mem_list fun v hv w hw => ?_
      rw [span v hv, span w hw]
    · intro x hx y hy
      obtain ⟨v, hv, rfl⟩ := List.mem_map.mp hx
      obtain ⟨w, hw, rfl⟩ := List.mem_map.mp hy
      obtain ⟨u, hu, hspan⟩ := after.exists_of_mem hw
      rw [span v hv, hspan]
      exact Nat.le_of_lt (ht u hu)

end Noted
end Token

namespace Interpreter
open Token Device

theorem Knows.noted_execAll {st : Interpreter} {before : List Token} (h : st.Knows before)
    (ts : List Token) :
    ∃ ws, (st.execAll ts).1.warnings = st.warnings ++ ws ∧ Noted before ts ws := by
  induction ts generalizing st before with
  | nil => exact ⟨[], (List.append_nil _).symm, .nil⟩
  | cons t ts ih =>
    obtain ⟨ws, hws, hnoted⟩ := ih (h.exec t)
    have hknows : st.forget.Knows before := h
    refine ⟨notes t (st.forget.perform t).problems ++ ws, ?_, ?_⟩
    · rw [execAll, ← List.append_assoc, ← (exec_notes st t).1]
      exact hws
    · refine .cons ?_ ?_ hnoted
      · simp [notes]
      · rw [notes, List.map_eq_nil_iff]
        exact problems_perform hknows t

theorem noted_runAll (ts : List Token) : Noted [] ts (initial.runAll ts).1.warnings := by
  obtain ⟨ws, hws, hnoted⟩ := knows_initial.noted_execAll ts
  have hrun : (initial.runAll ts).1.warnings = ws := (warnings_finish _).trans hws
  rw [hrun]
  exact hnoted

end Interpreter

theorem CommandLine.checkOutcome_eq_ok {ws : List Warning} :
    checkOutcome ws.length = .ok "" ↔ ws = [] := by
  match ws with
  | [] => exact ⟨fun _ => rfl, fun _ => rfl⟩
  | [_] => exact ⟨nofun, nofun⟩
  | _ :: _ :: _ => exact ⟨nofun, nofun⟩

namespace Interpreter
open Token Device
variable {σ ε : Type}

/-- The warnings of a document come in the order of its commands, each at the place of its command
in the source. A document has none, and the check accepts it, just if all commands are well formed. -/
theorem warnings_of_source (sink : Sink σ ε) (d : σ) (legacy : Bool) (source : String)
    (h : (Session.run sink ⟨.initial, d⟩ (tokenize legacy source)).2 = none) :
    let ts := tokenize legacy source
    let ws := (Session.run sink ⟨.initial, d⟩ ts).1.interpreter.warnings
    Noted [] ts ws ∧
    (ws.map (·.span.start)).Pairwise (· ≤ ·) ∧
    (∀ w ∈ ws, w.span.start < source.utf8ByteSize) ∧
    (ws = [] ↔ AllWellFormed [] ts) ∧
    (CommandLine.Command.run .check ts = .ok "" ↔ AllWellFormed [] ts) := by
  intro ts ws
  have hws : ws = (initial.runAll ts).1.warnings :=
    congrArg Interpreter.warnings (Session.interpreter_of_run (Prod.ext rfl h))
  have hnoted : Noted [] ts ws := hws ▸ noted_runAll ts
  obtain ⟨gap, ps, hsource, -, hsplits⟩ := splits_idle legacy 0 source.toList
  refine ⟨hnoted, hnoted.pairwise (pairwise_of_splits hsplits), ?_, hnoted.eq_nil_iff, ?_⟩
  · intro w hw
    obtain ⟨t, ht, hspan⟩ := hnoted.exists_of_mem hw
    obtain ⟨u, v, hps, hv, ho⟩ := exists_split_of_splits hsplits ht
    have hwidth := Token.width_pos hv
    rw [hspan]
    show t.offset < _
    rw [← Text.width_toList, hsource, hps, Text.width_append, Text.width_append, ho]
    omega
  · rw [← hnoted.eq_nil_iff, hws, CommandLine.Command.run]
    exact CommandLine.checkOutcome_eq_ok

/-- The first command selects a font that is mounted only after it. -/
theorem warnings_of_font_mounted_late :
    let source := "f5\nx font 5 TR\nf5\n"
    let ts := tokenize false source
    let sink : Sink (List Call) Empty := ⟨fun cs c => cs ++ [c], fun _ _ => none⟩
    let ws := (Session.run sink ⟨.initial, []⟩ ts).1.interpreter.warnings
    (Session.run sink ⟨.initial, []⟩ ts).2 = none ∧ ws = [⟨⟨0, 2⟩, .unmountedFont 5⟩] ∧
      Noted [] ts ws ∧ ¬ AllWellFormed [] ts := by
  intro source ts sink ws
  have hrun : Session.run sink ⟨.initial, []⟩ ts =
      (⟨(initial.runAll ts).1, sink.receiveAll [] (initial.runAll ts).2⟩, none) :=
    Session.run_of_accepted sink ⟨.initial, []⟩ fun _ _ _ _ _ => rfl
  have hok : (Session.run sink ⟨.initial, []⟩ ts).2 = none := congrArg Prod.snd hrun
  have hws : ws = [⟨⟨0, 2⟩, .unmountedFont 5⟩] := by
    have hstate : ws = (initial.runAll ts).1.warnings :=
      congrArg (·.1.interpreter.warnings) hrun
    rw [hstate]
    decide +kernel
  obtain ⟨hnoted, -, -, hwell, -⟩ := warnings_of_source sink [] false source hok
  refine ⟨hok, hws, hnoted, fun hall => ?_⟩
  cases hws.symm.trans (hwell.mpr hall)

end Interpreter
end Galley
