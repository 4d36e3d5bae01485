import Galley.Proofs.Device.Buffering
import Galley.Proofs.Interpreter.Calls
/-!
The commands that calls come from. A kind of call is made by few kinds of command, so that a command
of another kind makes no such call, whatever its operand.
-/
namespace Galley
open Device

/-- The kinds of command that make a call by themselves. -/
def Device.Call.kinds : Call → List Token.Kind
  | .beginPage _ => [.beginPage]
  | .endPage => [.beginPage, .deviceControl]
  | .setSize _ => [.setSize]
  | .setFont _ _ => [.setFont]
  | .moveToH _ => [.moveAbsH]
  | .moveByH _ => [.moveRelH, .movePrint]
  | .moveToV _ => [.moveAbsV]
  | .moveByV _ => [.moveRelV]
  | .printGlyph _ => [.charLiteral, .charNamed, .charIndexed, .movePrint]
  | .printText _ _ => [.textNormal, .textTracked]
  | .textRun _ => []
  | .endOfLine _ _ => [.informEol]
  | .wordSpace => [.wordSpace]
  | .draw _ => [.drawing]
  | .strokeColour _ => [.setColour]
  | .fillColour _ => [.drawing]
  | _ => [.deviceControl]

def Device.RunPiece.printed : RunPiece → List Char
  | .text s => s.toList
  | _ => []

def Device.Call.printed : Call → List Char
  | .printGlyph s => s.toList
  | .printText s _ => s.toList
  | .textRun run => run.flatMap RunPiece.printed
  | _ => []

theorem Device.Call.printed_expand (c : Call) : c.expand.flatMap printed = c.printed := by
  cases c
  case textRun run =>
    rw [expand, List.flatMap_map]
    congr 1
    funext p
    cases p <;> rfl
  all_goals simp [expand]

theorem Device.Call.printed_of_kinds {x : Call} {k : Token.Kind} (h : k ∈ x.kinds)
    (hglyph : ∀ s, k ∉ (Call.printGlyph s).kinds) (htext : ∀ s n, k ∉ (Call.printText s n).kinds) :
    x.printed = [] := by
  cases x
  case printGlyph s => exact absurd h (hglyph s)
  case printText s n => exact absurd h (htext s n)
  case textRun run => cases h
  all_goals rfl

namespace Interpreter

/-! What controls and drawings make. -/

theorem mem_kinds_control (st : Interpreter) (c : Control) :
    ∀ x ∈ (st.control c).2, Token.Kind.deviceControl ∈ x.kinds := by
  cases c
  case stop =>
    rw [control, endPage]
    split <;> simp [Call.kinds]
  case escape e => cases e <;> simp [control, escape, Call.kinds, or_imp, forall_and]
  all_goals simp [control, Call.kinds]

theorem mem_kinds_drawing (st : Interpreter) (s : List Char) :
    ∀ x ∈ (st.drawing s).calls, Token.Kind.drawing ∈ x.kinds := by
  unfold drawing
  split
  case h_4 letter s =>
    rw [drawShape]
    dsimp only
    split <;> simp [Call.kinds]
  all_goals simp [Call.kinds]

theorem mem_kinds_perform (st : Interpreter) (t : Token) :
    ∀ x ∈ (st.perform t).calls, t.kind ∈ x.kinds := by
  unfold perform
  dsimp only
  cases t.kind <;> dsimp only
  case beginPage =>
    simp only [Effect.ofPair, beginPage]
    split <;> simp [Call.kinds]
  case charLiteral => split <;> simp [Call.kinds]
  case charNamed =>
    rw [namedGlyph]
    split <;> simp [Call.kinds]
  case charIndexed =>
    rw [indexedGlyph]
    dsimp only
    split <;> simp [Call.kinds]
  case drawing => exact mem_kinds_drawing st _
  case deviceControl => exact mem_kinds_control st _
  all_goals
    simp [selectFont, movePrint, endOfLine, trackedText, Call.kinds, or_imp, forall_and]

theorem state_perform_of_ne {t : Token} (hk : t.kind ≠ .deviceControl) (st : Interpreter) :
    ∃ font symbolMap page inPage v, (st.perform t).state =
      { st with font := font, symbolMap := symbolMap, page := page, inPage := inPage, v := v } := by
  unfold perform
  dsimp only
  cases hkind : t.kind <;> dsimp only
  case deviceControl => exact absurd hkind hk
  case charNamed =>
    rw [namedGlyph]
    split <;> exact ⟨_, _, _, _, _, rfl⟩
  case charIndexed =>
    rw [indexedGlyph]
    dsimp only
    split <;> exact ⟨_, _, _, _, _, rfl⟩
  case drawing =>
    unfold drawing
    split
    case h_4 =>
      rw [drawShape]
      dsimp only
      split <;> exact ⟨_, _, _, _, _, rfl⟩
    all_goals exact ⟨_, _, _, _, _, rfl⟩
  all_goals exact ⟨_, _, _, _, _, rfl⟩

theorem mem_flush (st : Interpreter) : ∀ x ∈ st.flush.2, ∃ run, x = .textRun run := by
  intro x hx
  rw [flush] at hx
  split at hx
  · cases hx
  · exact ⟨_, List.mem_singleton.mp hx⟩

theorem mem_kinds_exec (st : Interpreter) (t : Token) :
    ∀ x ∈ (st.exec t).2, (∃ run, x = .textRun run) ∨ t.kind ∈ x.kinds := by
  intro x hx
  cases hp : st.piece? t with
  | some q =>
    obtain ⟨p, problems⟩ := q
    rw [exec, hp] at hx
    dsimp only at hx
    rw [hold] at hx
    dsimp only at hx
    split at hx
    · exact .inl (mem_flush _ x hx)
    · cases hx
  | none =>
    rw [exec_of_none hp, List.mem_append] at hx
    exact hx.imp (st.mem_flush x) (mem_kinds_perform _ t x)

theorem calls_control_forget (st : Interpreter) (c : Control) :
    (st.forget.control c).2 = (st.control c).2 := by
  have hend : ∀ u : Interpreter, u.endPage.2 = if u.inPage then [.endPage] else [] := fun u => by
    rw [endPage]
    split <;> rfl
  cases c
  case stop => exact (hend st.forget).trans (hend st).symm
  case escape e => cases e <;> rfl
  all_goals rfl

theorem calls_exec_of_control {t : Token} (hk : t.kind = .deviceControl) (st : Interpreter) :
    (st.exec t).2 = st.flush.2 ++ (st.control (Control.parse t.operand)).2 := by
  have hp : st.piece? t = none := by simp [piece?, hk]
  have hcalls : (st.forget.execDirect t).2 = (st.forget.control (Control.parse t.operand)).2 := by
    rw [execDirect, perform, hk]
    rfl
  rw [exec_of_none hp, hcalls, calls_control_forget]

/-! Calls with the runs taken apart. -/

section
variable {P : Call → Prop} {st : Interpreter} {t : Token}

theorem forall_flush (h : ∀ p ∈ st.pending, P p.call) :
    ∀ x ∈ st.flush.2.flatMap Call.expand, P x := by
  rw [flush]
  split
  · exact List.forall_mem_nil _
  · rw [List.flatMap_singleton]
    exact List.forall_mem_map.mpr h

/-- What holds of all that is held back and of what a command does by itself holds of all that is
printed then and of all that is held back after it. -/
theorem forall_exec (hpending : ∀ p ∈ st.pending, P p.call)
    (hcalls : ∀ x ∈ (st.forget.perform t).calls, P x) :
    (∀ x ∈ (st.exec t).2.flatMap Call.expand, P x) ∧ ∀ p ∈ (st.exec t).1.pending, P p.call := by
  cases hp : st.piece? t with
  | none =>
    have hnothing : (st.forget.execDirect t).1.pending = [] :=
      Session.pending_execDirect st.forget t
    rw [exec_of_none hp, List.flatMap_append, hnothing]
    refine ⟨List.forall_mem_append.mpr ⟨forall_flush hpending, fun x hx => ?_⟩,
      List.forall_mem_nil _⟩
    obtain ⟨c, hc, hx⟩ := List.mem_flatMap.mp hx
    have hself : c.expand = [c] := (plain_perform st.forget t).calls c hc
    rw [hself, List.mem_singleton] at hx
    exact hx ▸ hcalls c hc
  | some q =>
    obtain ⟨p, problems⟩ := q
    rw [perform_of_piece? hp] at hcalls
    have hall : ∀ q ∈ st.pending ++ [p], P q.call :=
      List.forall_mem_append.mpr ⟨hpending, List.forall_mem_singleton.mpr (hcalls _ (by simp))⟩
    rw [exec, hp]
    dsimp only
    rw [hold, warn_eq]
    dsimp only
    split
    · rw [flush_fst]
      exact ⟨forall_flush hall, List.forall_mem_nil _⟩
    · exact ⟨List.forall_mem_nil _, hall⟩

end

/-! Calls of one kind. -/

section
variable {β : Type} {f : Call → Option β} {t : Token}

theorem filterMap_flush (hrun : ∀ run, f (.textRun run) = none) (st : Interpreter) :
    st.flush.2.filterMap f = [] := by
  rw [List.filterMap_eq_nil_iff]
  intro x hx
  obtain ⟨run, rfl⟩ := st.mem_flush x hx
  exact hrun run

theorem filterMap_expand (hrun : ∀ run, f (.textRun run) = none)
    (hpiece : ∀ p : RunPiece, f p.call = none) (cs : List Call) :
    (cs.flatMap Call.expand).filterMap f = cs.filterMap f := by
  have hexpand : ∀ c : Call, c.expand.filterMap f = [c].filterMap f := by
    intro c
    cases c
    case textRun run =>
      rw [List.filterMap_cons_none (hrun run)]
      exact List.filterMap_eq_nil_iff.mpr (List.forall_mem_map.mpr fun p _ => hpiece p)
    all_goals rfl
  induction cs with
  | nil => rfl
  | cons c cs ih =>
    rw [List.flatMap_cons, List.filterMap_append, hexpand, ih, ← List.filterMap_append]
    rfl

theorem filterMap_endPage (hend : f .endPage = none) (st : Interpreter) :
    st.endPage.2.filterMap f = [] := by
  rw [endPage]
  split <;> simp [hend]

theorem filterMap_finish (hrun : ∀ run, f (.textRun run) = none) (hend : f .endPage = none)
    (st : Interpreter) : st.finish.2.filterMap f = [] := by
  show (st.flush.2 ++ st.flush.1.endPage.2).filterMap f = []
  rw [List.filterMap_append, filterMap_flush hrun, filterMap_endPage hend]
  rfl

theorem filterMap_escape_exec (hrotate : ∀ degrees, f (.rotate degrees) = none)
    (hcap : ∀ code, f (.lineCap code) = none) (hjoin : ∀ code, f (.lineJoin code) = none)
    (st : Interpreter) (s : Setting) (code : String) :
    (st.escape (.exec s code)).2.filterMap f = [] := by
  rw [List.filterMap_eq_nil_iff]
  simp [escape, hrotate, hcap, hjoin, or_imp, forall_and]

theorem filterMap_exec_eq_nil (hrun : ∀ run, f (.textRun run) = none)
    (hf : ∀ x : Call, t.kind ∈ x.kinds → f x = none) (st : Interpreter) :
    (st.exec t).2.filterMap f = [] := by
  rw [List.filterMap_eq_nil_iff]
  intro x hx
  obtain ⟨run, rfl⟩ | hk := mem_kinds_exec st t x hx
  · exact hrun run
  · exact hf x hk

theorem filterMap_exec_of_control (hrun : ∀ run, f (.textRun run) = none)
    (hk : t.kind = .deviceControl) (st : Interpreter) :
    (st.exec t).2.filterMap f = (st.control (Control.parse t.operand)).2.filterMap f := by
  rw [calls_exec_of_control hk, List.filterMap_append, filterMap_flush hrun, List.nil_append]

end

end Interpreter
end Galley
