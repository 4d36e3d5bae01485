import Galley.Proofs.Device.Comments
import Galley.Proofs.Token.Splitting
/-!
Single characters, printed by a command of their own or after a move. The character ends the
operand whatever it is, but the blanks around an operand are not part of it, and more characters
count as blank there than end an operand. Those are not printed.
-/
namespace Galley

namespace Token
open Text

/-! Where the operand ends. -/

theorem action_moveDigits_glyph (legacy : Bool) {c : Char} (hd : isDigit c = false)
    (hb : isBlank c = false) (hl : c ≠ '\n') :
    action legacy .moveDigits (classify c) = .emitWith := by
  have hdigit : classify c ≠ .digit := fun h => by simp [classify_eq_digit.mp h] at hd
  have hblank : classify c ≠ .blank := fun h => by simp [classify_eq_blank.mp h] at hb
  have hline : classify c ≠ .endOfLine := fun h => hl (classify_eq_endOfLine.mp h)
  cases h : classify c <;> simp_all [action]

theorem action_literal_glyph (legacy : Bool) {c : Char} (hl : c ≠ '\n') :
    action legacy .literal (classify c) = .emitWith := by
  have hline : classify c ≠ .endOfLine := fun h => hl (classify_eq_endOfLine.mp h)
  cases h : classify c <;> simp_all [action]

theorem State.consume_of_emitWith {legacy : Bool} {s : State} {c : Char}
    (h : action legacy s (classify c) = .emitWith) (r : List Char) :
    s.consume legacy (c :: r) = ([c], r) := by
  rw [consume, h]

theorem State.consume_digits (legacy : Bool) {d : List Char} (hd : ∀ c ∈ d, isDigit c = true)
    (r : List Char) :
    moveDigits.consume legacy (d ++ r) =
      (d ++ (moveDigits.consume legacy r).1, (moveDigits.consume legacy r).2) := by
  induction d with
  | nil => rfl
  | cons c d ih =>
    obtain ⟨hc, hd⟩ := List.forall_mem_cons.mp hd
    have hact : action legacy .moveDigits (classify c) = .goto .moveDigits := by
      rw [classify_eq_digit.mpr hc]
      rfl
    rw [List.cons_append, consume, hact]
    simp only [ih hd]
    rfl

theorem tokenize_of_command? {legacy : Bool} {source : String} {k : Kind} {a : List Char}
    (h : command? legacy source.toList = some (k, a, [])) :
    tokenize legacy source = [k.token a 0] := by
  rw [tokenize, Tokenizer.ofString_eq, Tokenizer.tokens_idle_command 0 h,
    Tokenizer.tokens_idle_nil]

theorem tokenize_move (legacy : Bool) {d : List Char} {c : Char} (hne : d ≠ [])
    (hd : ∀ x ∈ d, isDigit x = true)
    (hc : action legacy .moveDigits (classify c) = .emitWith) :
    tokenize legacy (.ofList (d ++ [c])) = [Kind.token .movePrint (d ++ [c]) 0] := by
  apply tokenize_of_command?
  rw [String.toList_ofList]
  cases d with
  | nil => exact absurd rfl hne
  | cons x d =>
    obtain ⟨hx, hd⟩ := List.forall_mem_cons.mp hd
    rw [List.cons_append, command?_digit legacy _ hx]
    show some (Kind.movePrint, x :: (State.moveDigits.consume legacy (d ++ [c])).1,
      (State.moveDigits.consume legacy (d ++ [c])).2) = _
    rw [State.consume_digits legacy hd, State.consume_of_emitWith hc]

theorem tokenize_literal (legacy : Bool) {c : Char} (hc : c ≠ '\n') :
    tokenize legacy (.ofList ['c', c]) = [Kind.token .charLiteral [c] 0] := by
  have hletter : Kind.charLiteral.letter? = some 'c' := rfl
  apply tokenize_of_command?
  rw [String.toList_ofList, command?_letter legacy [c] hletter]
  exact congrArg (fun p => some (Kind.charLiteral, p))
    (State.consume_of_emitWith (action_literal_glyph legacy hc) [])

/-! The tokens when the operand is trimmed. -/

section
variable {d : List Char} {c : Char}

theorem token_move_of_not_space (hd : ∀ x ∈ d, isDigit x = true) (hc : isDigit c = false)
    (hs : isSpace c = false) (pos : Nat) :
    Kind.token .movePrint (d ++ [c]) pos = ⟨.movePrint, .ofList (d ++ [c]), pos⟩ := by
  have htrim : trim (d ++ [c]) = d ++ [c] := by
    refine trim_eq_self fun x hx => ?_
    obtain hx | hx := List.mem_append.mp hx
    · exact isSpace_of_isDigit (hd x hx)
    · rwa [List.mem_singleton.mp hx]
  simp [Kind.token, htrim, settle, hc]

theorem token_move_of_space (hne : d ≠ []) (hd : ∀ x ∈ d, isDigit x = true)
    (hs : isSpace c = true) (pos : Nat) :
    Kind.token .movePrint (d ++ [c]) pos = ⟨.moveRelH, .ofList d, pos⟩ := by
  have htrim : trim (d ++ [c]) = d :=
    trim_append_space (fun x hx => isSpace_of_isDigit (hd x hx)) hs
  simp [Kind.token, htrim, settle, List.getLast?_eq_some_getLast hne, hd _ (List.getLast_mem hne)]

theorem token_literal_of_not_space (hs : isSpace c = false) (pos : Nat) :
    Kind.token .charLiteral [c] pos = ⟨.charLiteral, .singleton c, pos⟩ := by
  have htrim : trim [c] = [c] := trim_eq_self (by simpa using hs)
  rw [Kind.token, htrim, settle_of_ne (by simp)]
  rfl

theorem token_literal_of_space (hs : isSpace c = true) (pos : Nat) :
    Kind.token .charLiteral [c] pos = ⟨.charLiteral, "", pos⟩ := by
  have htrim : trim ([] ++ [c]) = [] := trim_append_space (by simp) hs
  rw [List.nil_append] at htrim
  rw [Kind.token, htrim, settle_of_ne (by simp)]

end
end Token

/-! What the tokens print. -/

namespace Interpreter
open Device Text Token

variable {st : Interpreter} {t : Token}

theorem execAll_singleton (st : Interpreter) (t : Token) : (st.execAll [t]).2 = (st.exec t).2 := by
  simp [execAll]

theorem exec_of_not_goesOn (h : ¬ t.GoesOn) :
    (st.exec t).2 = st.flush.2 ++ (st.forget.perform t).calls := by
  have hpiece : st.piece? t = none := by
    simp only [Token.GoesOn, not_or] at h
    simp [piece?, h]
  rw [calls_exec_of_piece?_eq_none hpiece, flush_fst]

theorem printGlyph_not_mem_flush (s : String) : .printGlyph s ∉ st.flush.2 := by
  rw [flush]
  split <;> simp

theorem forget_remap (s : String) : st.forget.remap s = st.remap s := rfl

theorem printGlyph_not_mem_of_moveRelH (ht : t.kind = .moveRelH) (s : String) :
    .printGlyph s ∉ (st.exec t).2 := by
  rw [exec]
  split
  case h_1 p problems _ =>
    obtain hheld | hheld := hold_eq (st.warn t problems) p <;> simp [hheld]
  case h_2 =>
    simp [perform, ht, printGlyph_not_mem_flush]

theorem number_isDigit : Number.isDigit = Token.isDigit := by
  funext c
  rw [Number.isDigit, Token.isDigit]
  rfl

theorem exec_movePrint {d : List Char} {c : Char} (hd : ∀ x ∈ d, isDigit x = true)
    (hc : isDigit c = false) (pos : Nat) :
    (st.exec ⟨.movePrint, .ofList (d ++ [c]), pos⟩).2 =
      st.flush.2 ++ [.moveByH (readInt d).1, .printGlyph (st.remap (.singleton c))] := by
  rw [exec_of_not_goesOn (by simp [Token.GoesOn])]
  have htake : (d ++ [c]).takeWhile Number.isDigit = d := by
    rw [number_isDigit, List.takeWhile_append_of_pos hd, List.takeWhile_cons_of_neg (by simp [hc]),
      List.append_nil]
  have hdrop : (d ++ [c]).dropWhile Number.isDigit = [c] := by
    rw [number_isDigit, List.dropWhile_append_of_pos hd, List.dropWhile_cons_of_neg (by simp [hc])]
  simp only [perform, movePrint, String.toList_ofList, htake, hdrop]
  rfl

theorem exec_charLiteral (s : String) (pos : Nat) :
    (st.exec ⟨.charLiteral, s, pos⟩).2 =
      st.flush.2 ++ if s = "" then [] else [.printGlyph (st.remap s)] := by
  rw [exec_of_not_goesOn (by simp [Token.GoesOn])]
  simp [perform, forget_remap]

/-- A character after a move or by itself is kept and printed, unless it is a blank that is trimmed
away. Then the move stands alone, and nothing is printed. -/
theorem character_kept_or_trimmed (legacy : Bool) (ds : String) (ch : Char) (hne : ds ≠ "")
    (hds : ∀ c ∈ ds.toList, isDigit c = true) (hdigit : isDigit ch = false)
    (hblank : isBlank ch = false) (hline : ch ≠ '\n') :
    (isSpace ch = false →
      tokenize legacy (ds.push ch) = [⟨.movePrint, ds.push ch, 0⟩] ∧
      tokenize legacy ("c".push ch) = [⟨.charLiteral, .singleton ch, 0⟩] ∧
      ∀ st : Interpreter,
        (st.execAll (tokenize legacy (ds.push ch))).2 = st.flush.2 ++
          [.moveByH (readInt ds.toList).1, .printGlyph (st.remap (.singleton ch))] ∧
        (st.execAll (tokenize legacy ("c".push ch))).2 =
          st.flush.2 ++ [.printGlyph (st.remap (.singleton ch))]) ∧
    (isSpace ch = true →
      tokenize legacy (ds.push ch) = [⟨.moveRelH, ds, 0⟩] ∧
      tokenize legacy ("c".push ch) = [⟨.charLiteral, "", 0⟩] ∧
      ∀ (st : Interpreter) (s : String),
        .printGlyph s ∉ (st.execAll (tokenize legacy (ds.push ch))).2 ∧
        .printGlyph s ∉ (st.execAll (tokenize legacy ("c".push ch))).2) := by
  have hpush : ds.push ch = .ofList (ds.toList ++ [ch]) := by
    rw [← String.toList_push, String.ofList_toList]
  have hdigits : ds.toList ≠ [] := by simpa using hne
  have hmove := tokenize_move legacy hdigits hds
    (action_moveDigits_glyph legacy hdigit hblank hline)
  have hliteral := tokenize_literal legacy hline
  have hpush' : "c".push ch = .ofList ['c', ch] := by
    rw [← String.ofList_toList (s := "c".push ch), String.toList_push]
    rfl
  rw [hpush, hpush', hmove, hliteral]
  constructor
  · intro hs
    rw [token_move_of_not_space hds hdigit hs, token_literal_of_not_space hs]
    refine ⟨rfl, rfl, fun st => ⟨?_, ?_⟩⟩
    · rw [execAll_singleton, exec_movePrint hds hdigit]
    · rw [execAll_singleton, exec_charLiteral]
      simp
  · intro hs
    rw [token_move_of_space hdigits hds hs, token_literal_of_space hs, String.ofList_toList]
    refine ⟨rfl, rfl, fun st s => ⟨?_, ?_⟩⟩
    · rw [execAll_singleton]
      exact printGlyph_not_mem_of_moveRelH rfl s
    · rw [execAll_singleton, exec_charLiteral]
      simpa using printGlyph_not_mem_flush s

/-- A no-break space, which ends no operand. -/
theorem no_break_space_trimmed :
    (tokenize false ("24".push '\u00a0') = [⟨.moveRelH, "24", 0⟩] ∧
      tokenize false ("c".push '\u00a0') = [⟨.charLiteral, "", 0⟩]) ∧
    ∀ s, .printGlyph s ∉ (initial.execAll (tokenize false ("24".push '\u00a0'))).2 ∧
      .printGlyph s ∉ (initial.execAll (tokenize false ("c".push '\u00a0'))).2 := by
  have hdigits : ∀ c ∈ "24".toList, isDigit c = true := List.all_eq_true.mp rfl
  obtain ⟨-, htrimmed⟩ := character_kept_or_trimmed false "24" '\u00a0' (by decide) hdigits
    (by decide) (by decide) (by decide)
  obtain ⟨hmove, hliteral, hprints⟩ := htrimmed (by decide)
  exact ⟨⟨hmove, hliteral⟩, hprints initial⟩

theorem characters_not_always_kept :
    ¬ ∀ (ds : String) (ch : Char), ds ≠ "" → (∀ c ∈ ds.toList, isDigit c = true) →
      isDigit ch = false → isBlank ch = false → ch ≠ '\n' →
      tokenize false (ds.push ch) = [⟨.movePrint, ds.push ch, 0⟩] ∧
      tokenize false ("c".push ch) = [⟨.charLiteral, .singleton ch, 0⟩] ∧
      .printGlyph (.singleton ch) ∈ (initial.execAll (tokenize false (ds.push ch))).2 ∧
      .printGlyph (.singleton ch) ∈ (initial.execAll (tokenize false ("c".push ch))).2 := by
  intro h
  have hdigits : ∀ c ∈ "24".toList, isDigit c = true := List.all_eq_true.mp rfl
  have hkept := (h "24" '\u00a0' (by decide) hdigits (by decide) (by decide) (by decide)).1
  revert hkept
  decide +kernel

end Interpreter
end Galley
