import Galley.Proofs.Device.Buffering
import Galley.Proofs.Device.Delivery
/-!
Comments. A device that plays runs piece by piece gets the same with and without a comment. Others
see it where it ends a run that the next command would go on with.
-/
namespace Galley
open Device

/-- Commands that go on with a run. -/
def Token.GoesOn (t : Token) : Prop :=
  t.kind = .textNormal ∨ t.kind = .moveAbsH ∨ t.kind = .moveRelH ∨ t.kind = .wordSpace

namespace Device.Session
variable {σ ε : Type} {sink : Sink σ ε} {c : Token}

theorem feedDirect_comment (hc : c.kind = .comment) (s : Session σ) (us vs : List Token) :
    s.feedDirect sink (us ++ c :: vs) = s.feedDirect sink (us ++ vs) := by
  induction us generalizing s with
  | nil =>
    have hexec : s.interpreter.execDirect c = (s.interpreter, []) := by
      rw [Interpreter.execDirect, Interpreter.perform, hc]
      rfl
    rw [List.nil_append, feedDirect, hexec]
    rfl
  | cons u us ih =>
    rw [List.cons_append, feedDirect, List.cons_append, feedDirect]
    split
    case h_1 => rfl
    case h_2 s' _ => exact ih s'

theorem run_replaying_congr {s : Session σ} {ts us : List Token}
    (h : (s.settled sink).feedDirect sink ts = (s.settled sink).feedDirect sink us) :
    s.run sink.replaying ts = s.run sink.replaying us := by
  obtain ⟨hts, htsRef⟩ := settled_feed sink s ts
  obtain ⟨hus, husRef⟩ := settled_feed sink s us
  rw [← hts, ← hus] at h
  rw [run, run]
  rcases hT : s.feed sink.replaying ts with ⟨u, e⟩
  rcases hU : s.feed sink.replaying us with ⟨v, e'⟩
  rw [hT] at htsRef h
  rw [hU] at husRef h
  obtain ⟨hsettled, he⟩ := Prod.mk.inj h
  dsimp only at hsettled he htsRef husRef ⊢
  subst he
  cases e with
  | some e =>
    have hu := htsRef (by simp)
    have hv := husRef (by simp)
    rw [← hu, ← hv, hsettled]
  | none =>
    show u.finish sink.replaying = v.finish sink.replaying
    rw [finish_eq, finish_eq, hsettled]

end Device.Session

namespace Interpreter
variable {st : Interpreter} {t c : Token}

theorem piece?_isSome (h : st.pending ≠ []) : (st.piece? t).isSome ↔ t.GoesOn := by
  rw [piece?, Token.GoesOn]
  have hempty : st.pending.isEmpty = false := by simpa using h
  cases t.kind <;> simp [hempty]

theorem forget_piece? (h : st.piece? t = none) : st.forget.piece? t = none := by
  rw [piece?] at h ⊢
  split at h
  · cases h
  · simp [*, forget]

theorem exec_of_piece?_none (h : st.piece? t = none) :
    st.exec t = ((st.forget.exec t).1, st.flush.2 ++ (st.forget.exec t).2) := by
  rw [exec_of_none h, exec_of_none (forget_piece? h)]
  rfl

theorem exec_comment (hc : c.kind = .comment) : st.exec c = (st.forget, st.flush.2) := by
  have hpiece : st.piece? c = none := by
    rw [piece?, hc]
    simp
  rw [exec, hpiece]
  simp only [perform, hc, flush_fst, List.append_nil]
  rfl

theorem finish_eq_forget : st.finish = (st.forget.finish.1, st.flush.2 ++ st.forget.finish.2) := by
  simp only [finish, flush_fst]
  rfl

theorem runAll_append (st : Interpreter) (ts us : List Token) : st.runAll (ts ++ us) =
    (((st.execAll ts).1.runAll us).1, (st.execAll ts).2 ++ ((st.execAll ts).1.runAll us).2) := by
  rw [runAll, execAll_append]
  simp only [runAll, List.append_assoc]

theorem runAll_cons (st : Interpreter) (t : Token) (ts : List Token) : st.runAll (t :: ts) =
    (((st.exec t).1.runAll ts).1, (st.exec t).2 ++ ((st.exec t).1.runAll ts).2) := by
  simp only [runAll, execAll, List.append_assoc]

theorem runAll_of_not_goesOn {ts : List Token} (h : st.pending = [] ∨ ∀ t ∈ ts.head?, ¬ t.GoesOn) :
    st.runAll ts = ((st.forget.runAll ts).1, st.flush.2 ++ (st.forget.runAll ts).2) := by
  by_cases hp : st.pending = []
  · rw [forget_of_pending_nil hp, flush, hp]
    rfl
  have hnext := h.resolve_left hp
  cases ts with
  | nil => exact finish_eq_forget
  | cons t ts =>
    have hpiece : st.piece? t = none := by
      rw [← Option.not_isSome_iff_eq_none, piece?_isSome hp]
      exact hnext t rfl
    rw [runAll_cons, exec_of_piece?_none hpiece, runAll_cons, List.append_assoc]

/-! A run that goes on. -/

theorem hold_of_lt {p : RunPiece} (h : st.pending.length + 1 < runCapacity) :
    st.hold p = ({ st with pending := st.pending ++ [p] }, []) := by
  rw [hold]
  dsimp only
  rw [if_neg (by rw [List.length_append]; exact Nat.not_le.mpr h)]

theorem hold_of_le {p : RunPiece} (h : runCapacity ≤ st.pending.length + 1) :
    st.hold p = (st.forget, [.textRun (st.pending ++ [p])]) := by
  rw [hold]
  dsimp only
  rw [if_pos (by rw [List.length_append]; exact h)]
  simp [flush, forget]

theorem hold_eq (st : Interpreter) (p : RunPiece) :
    st.hold p = ({ st with pending := st.pending ++ [p] }, []) ∨
    st.hold p = (st.forget, [.textRun (st.pending ++ [p])]) :=
  (Nat.lt_or_ge (st.pending.length + 1) runCapacity).imp hold_of_lt hold_of_le

theorem flush_of_pending (h : st.pending ≠ []) : st.flush.2 = [.textRun st.pending] := by
  simp [flush, h]

theorem head?_runAll {q : List RunPiece} (hq : q ≠ []) (ts : List Token) (h : q <+: st.pending) :
    ∃ r, q <+: r ∧ (st.runAll ts).2.head? = some (.textRun r) := by
  have hp : st.pending ≠ [] := fun hnil => hq (List.prefix_nil.mp (hnil ▸ h))
  induction ts generalizing st with
  | nil =>
    refine ⟨st.pending, h, ?_⟩
    show st.finish.2.head? = _
    rw [finish_eq_forget, flush_of_pending hp]
    rfl
  | cons t ts ih =>
    rw [runAll_cons]
    cases hpiece : st.piece? t with
    | none =>
      refine ⟨st.pending, h, ?_⟩
      rw [exec_of_piece?_none hpiece, flush_of_pending hp]
      rfl
    | some w =>
      obtain ⟨p, problems⟩ := w
      have hexec : st.exec t = (st.warn t problems).hold p := by rw [exec, hpiece]
      have hlonger : q <+: (st.warn t problems).pending ++ [p] := by
        rw [pending_warn]
        exact h.trans (List.prefix_append ..)
      rw [hexec]
      rcases (st.warn t problems).hold_eq p with hhold | hhold
      · rw [hhold]
        exact ih hlonger (by simp)
      · rw [hhold]
        exact ⟨_, hlonger, rfl⟩

theorem runAll_of_goesOn {v : Token} (h : st.pending ≠ []) (hv : v.GoesOn) (vs : List Token) :
    ∃ r, r ≠ st.pending ∧ (st.runAll (v :: vs)).2.head? = some (.textRun r) := by
  obtain ⟨⟨p, problems⟩, hpiece⟩ := Option.isSome_iff_exists.mp ((piece?_isSome h).mpr hv)
  have hexec : st.exec v = (st.warn v problems).hold p := by rw [exec, hpiece]
  have hlonger : ∀ r, st.pending ++ [p] <+: r → r ≠ st.pending := by
    rintro r hr rfl
    exact absurd hr.length_le (by simp)
  rw [runAll_cons, hexec]
  rcases (st.warn v problems).hold_eq p with hhold | hhold
  · rw [hhold, pending_warn]
    have hlong : st.pending ++ [p] ≠ [] := by simp
    obtain ⟨r, hr, hhead⟩ :
        ∃ r, st.pending ++ [p] <+: r ∧ (runAll { st.warn v problems with
          pending := st.pending ++ [p] } vs).2.head? = some (.textRun r) :=
      head?_runAll hlong vs List.prefix_rfl
    exact ⟨r, hlonger r hr, hhead⟩
  · rw [hhold, pending_warn]
    exact ⟨_, hlonger _ List.prefix_rfl, rfl⟩

theorem runAll_comment (hc : c.kind = .comment) (vs : List Token) :
    st.runAll (c :: vs) = ((st.forget.runAll vs).1, st.flush.2 ++ (st.forget.runAll vs).2) := by
  rw [runAll_cons, exec_comment hc]

theorem runAll_comment_eq_iff (hc : c.kind = .comment) (vs : List Token) :
    (st.runAll (c :: vs)).2 = (st.runAll vs).2 ↔
      st.pending = [] ∨ ∀ v ∈ vs.head?, ¬ v.GoesOn := by
  constructor
  · intro hsame
    refine Classical.or_iff_not_imp_left.mpr fun hp v hv hgoes => ?_
    obtain ⟨vs, rfl⟩ := List.head?_eq_some_iff.mp hv
    obtain ⟨r, hne, hhead⟩ := runAll_of_goesOn hp hgoes vs
    rw [← hsame, runAll_comment hc, flush_of_pending hp] at hhead
    exact hne (Call.textRun.inj (Option.some.inj hhead)).symm
  · intro hnext
    rw [runAll_comment hc, runAll_of_not_goesOn hnext]

/-- A comment changes neither what is read from the document nor what a device that plays runs piece
by piece is left in. Other devices get other calls just if the comment ends a run that the next
command goes on with. -/
theorem comment_ends_run {c : Token} (hc : c.kind = .comment) (us vs : List Token) :
    (initial.runAll (us ++ c :: vs)).1 = (initial.runAll (us ++ vs)).1 ∧
    (∀ (σ ε : Type) (sink : Sink σ ε) (d : σ),
      Session.run sink.replaying ⟨.initial, d⟩ (us ++ c :: vs) =
        Session.run sink.replaying ⟨.initial, d⟩ (us ++ vs)) ∧
    ((initial.runAll (us ++ c :: vs)).2 = (initial.runAll (us ++ vs)).2 ↔
      (initial.execAll us).1.pending = [] ∨ ∀ v ∈ vs.head?, ¬ v.GoesOn) := by
  have hrun (σ ε : Type) (sink : Sink σ ε) (d : σ) :
      Session.run sink.replaying ⟨.initial, d⟩ (us ++ c :: vs) =
        Session.run sink.replaying ⟨.initial, d⟩ (us ++ vs) :=
    Session.run_replaying_congr (Session.feedDirect_comment hc _ us vs)
  refine ⟨?_, hrun, ?_⟩
  · have hstate := congrArg (fun r => r.1.interpreter)
      (hrun Unit Unit ⟨fun s _ => s, fun _ _ => none⟩ ())
    rwa [Session.run_of_accepted _ _ (fun _ _ _ _ _ => rfl),
      Session.run_of_accepted _ _ (fun _ _ _ _ _ => rfl)] at hstate
  · rw [runAll_append, runAll_append]
    exact (List.append_cancel_left_eq ..).to_iff.trans (runAll_comment_eq_iff hc vs)

/-- Two texts with a comment between them are two runs. -/
theorem comment_ends_run_between_texts :
    let a : Token := ⟨.textNormal, "A", 0⟩
    let c : Token := ⟨.comment, "note", 3⟩
    let b : Token := ⟨.textNormal, "B", 10⟩
    c.kind = .comment ∧ (initial.runAll [a, c, b]).1 = (initial.runAll [a, b]).1 ∧
      (initial.runAll [a, c, b]).2 ≠ (initial.runAll [a, b]).2 := by
  intro a c b
  obtain ⟨hstate, -, hcalls⟩ := comment_ends_run (c := c) rfl [a] [b]
  refine ⟨rfl, hstate, fun hsame => ?_⟩
  rcases hcalls.mp hsame with hpending | hnext
  · cases hpending
  · exact hnext b rfl (.inl rfl)

theorem comment_seen_in_trace :
    ¬ ∀ source us c vs, Token.tokenize false source = us ++ c :: vs → c.kind = .comment →
      (initial.runAll (us ++ c :: vs)).2.map Call.describe =
        (initial.runAll (us ++ vs)).2.map Call.describe := by
  intro h
  have hsource : Token.tokenize false "tA\n# note\ntB\n" =
      [⟨.textNormal, "A", 0⟩] ++ ⟨.comment, "note", 3⟩ :: [⟨.textNormal, "B", 10⟩] := by
    decide +kernel
  have hsame := h _ _ _ _ hsource rfl
  revert hsame
  decide +kernel

end Interpreter
end Galley
