import Galley.Proofs.Token.Cutting
import Galley.Proofs.Token.RoundTrip
/-!
Sources put together at a line end. No command reads past the end of its line, so the whole has the
tokens of what comes before the line end and then those of what comes after it.
-/
namespace Galley.Token
open Text

/-! A line end after a command adds nothing to it. -/

theorem State.consume_endOfLine {legacy : Bool} {s : State} (hs : s ≠ .start) (r q : List Char) :
    s.consume legacy (r ++ '\n' :: q) =
      ((s.consume legacy r).1, (s.consume legacy r).2 ++ '\n' :: q) := by
  induction r generalizing s with
  | nil =>
    rw [List.nil_append, consume, consume, classify_eq_endOfLine.mpr rfl,
      action_endOfLine legacy hs]
    rfl
  | cons c r ih =>
    rw [List.cons_append, consume, consume]
    cases ha : action legacy s (classify c) with
    | goto s' => simp only [ih (goto_ne_start hs ha)]
    | _ => rfl

theorem Kind.operand_endOfLine (legacy : Bool) (k : Kind) (r q : List Char) :
    k.operand legacy (r ++ '\n' :: q) =
      ((k.operand legacy r).1, (k.operand legacy r).2 ++ '\n' :: q) := by
  obtain rfl | ⟨rfl, hop⟩ | ⟨s, hs, hop⟩ := opening_cases k
  · exact State.consume_endOfLine (by simp) r q
  · rfl
  · rw [operand, operand, hop]
    exact State.consume_endOfLine hs r q

theorem command?_endOfLine {legacy : Bool} {s a b : List Char} {k : Kind}
    (h : command? legacy s = some (k, a, b)) (q : List Char) :
    command? legacy (s ++ '\n' :: q) = some (k, a, b ++ '\n' :: q) := by
  obtain ⟨c, r, rfl, hk, hab⟩ | ⟨c, r, rfl, hd, rfl, rfl, rfl⟩ := command?_eq_some h
  · rw [List.cons_append, command?_letter legacy _ hk, Kind.operand_endOfLine, ← hab]
  · rw [List.cons_append, command?_digit legacy _ hd, Kind.operand_endOfLine]

namespace Tokenizer

theorem tokens_idle_endOfLine (legacy : Bool) (pos : Nat) (a b : List Char) :
    (idle legacy pos (a ++ '\n' :: b)).tokens =
      (idle legacy pos a).tokens ++ (idle legacy (pos + (width a + 1)) b).tokens := by
  induction pos, a using commands_induction legacy with
  | nil pos =>
    rw [tokens_idle_nil, List.nil_append, List.nil_append,
      tokens_idle_skip (command?_eq_none_of_endOfLine legacy b), width_nil, Nat.zero_add]
    rfl
  | skip pos c r hnone ih =>
    rw [List.cons_append, tokens_idle_skip (command?_cons_eq_none hnone _), ih,
      tokens_idle_skip hnone, width_cons]
    simp only [Nat.add_assoc]
  | command pos s k a' b' hcommand ih =>
    have hwidth : width s = width (k.letter?.toList ++ a') + width b' := by
      rw [← width_append, ← eq_append_of_command? hcommand]
    rw [tokens_idle_command _ (command?_endOfLine hcommand b), tokens_idle_command pos hcommand, ih,
      hwidth]
    simp only [List.cons_append, Nat.add_assoc]

end Tokenizer

theorem tokenize_endOfLine (legacy : Bool) (a b : String) :
    tokenize legacy (a ++ "\n" ++ b) =
      tokenize legacy a ++ (tokenize legacy b).map (shift (a.utf8ByteSize + 1)) := by
  have hlist : (a ++ "\n" ++ b).toList = a.toList ++ '\n' :: b.toList := by
    rw [String.toList_append, String.toList_append, List.append_assoc]
    rfl
  rw [tokenize, Tokenizer.ofString_eq, hlist, Tokenizer.tokens_idle_endOfLine,
    Tokenizer.tokens_idle_eq_map legacy (0 + _) b.toList, String.ofList_toList, width_toList,
    Nat.zero_add]
  rfl

/-- A source can be cut at any line end and wherever a token begins: the parts have the tokens of
the whole. -/
theorem tokenize_cut (legacy : Bool) :
    (∀ a b, tokenize legacy (a ++ "\n" ++ b) =
      tokenize legacy a ++ (tokenize legacy b).map (shift (a.utf8ByteSize + 1))) ∧
    ∀ source ts t us, tokenize legacy source = ts ++ t :: us →
      ∃ u v, source = u ++ v ∧ u.utf8ByteSize = t.offset ∧ tokenize legacy u = ts ∧
        (tokenize legacy v).map (shift t.offset) = t :: us :=
  ⟨tokenize_endOfLine legacy, fun _ _ _ _ => exists_cut_shift⟩

/-- A move with a character to print, cut off from the text command after it. -/
theorem tokenize_cut_after_move :
    ∃ u v, "24xtab" = u ++ v ∧ u.utf8ByteSize = 3 ∧
      tokenize false u = [⟨.movePrint, "24x", 0⟩] ∧
      (tokenize false v).map (shift 3) = [⟨.textNormal, "ab", 3⟩] := by
  have htokens : tokenize false "24xtab" =
      [⟨.movePrint, "24x", 0⟩] ++ ⟨.textNormal, "ab", 3⟩ :: [] := by
    decide +kernel
  exact (tokenize_cut false).2 _ _ _ _ htokens

end Galley.Token
