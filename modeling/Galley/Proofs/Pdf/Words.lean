import Mathlib.Tactic.Basic
import Galley.Pdf.Mark
import Galley.Proofs.Text.Space
/-!
Words stand in the source as they are read: comments, strings and stray characters end a word and
are never left out of the middle of one. So a text in which the mark operator is not named has no
marks, and looking for the name first changes nothing.
-/
namespace Galley.Pdf

/-! Words in the source. -/

theorem toList_of_ofRegular {c : Char} {r : List Char} {w : String} (h : ofRegular c r = .word w) :
    w.toList = c :: r := by
  have hword : String.ofList (c :: r) = w := by
    rw [ofRegular] at h
    split at h
    · split at h
      · cases h
      · exact Lexeme.word.inj h
    · exact Lexeme.word.inj h
  rw [← hword, String.toList_ofList]

theorem toList_of_lexeme {c : Char} {r : List Char} {w : String}
    (h : (lexeme c r).1 = some (.word w)) : w.toList = c :: regular r := by
  unfold lexeme at h
  repeat' split at h
  -- All but the last case give no lexeme, or one of another kind.
  pick_goal -1
  · exact toList_of_ofRegular (Option.some.inj h)
  all_goals cases h

theorem prefix_of_lexeme {c : Char} {r : List Char} {w : String}
    (h : (lexeme c r).1 = some (.word w)) : w.toList <+: c :: r := by
  rw [toList_of_lexeme h]
  exact (List.prefix_cons_inj c).mpr (List.takeWhile_prefix _)

theorem infix_of_mem_lex {s : List Char} {w : String} (h : .word w ∈ lex s) : w.toList <:+: s := by
  fun_induction lex s with
  | case1 => cases h
  | case2 c r _ x hx ih =>
    obtain rfl | hmem := List.mem_cons.mp h
    · exact (prefix_of_lexeme hx).isInfix
    · exact (ih hmem).trans ((lexeme_suffix c r).trans (List.suffix_cons c r)).isInfix
  | case3 c r _ _ ih => exact (ih h).trans ((lexeme_suffix c r).trans (List.suffix_cons c r)).isInfix

/-! Lexemes without the mark operator. -/

theorem isMark_eq_false {x : Lexeme} (h : x ≠ .word markWord) : x.isMark = false := by
  cases x with
  | word w =>
    have hw : w ≠ markWord := by
      rintro rfl
      exact h rfl
    simpa [Lexeme.isMark] using hw
  | _ => rfl

theorem marksFrom_eq_nil {ls : List Lexeme} (h : .word markWord ∉ ls)
    (opens : List (List Lexeme)) : marksFrom opens ls = [] := by
  induction ls generalizing opens with
  | nil => rfl
  | cons x ls ih =>
    rw [List.mem_cons, not_or] at h
    rw [marksFrom.eq_def]
    dsimp only
    rw [isMark_eq_false (Ne.symm h.1), if_neg Bool.false_ne_true]
    cases x with
    | _ => exact ih h.2 _

theorem marksFrom_lex_eq_nil {s : List Char} (h : ¬ markWord.toList <:+: s) :
    marksFrom [] (lex s) = [] :=
  marksFrom_eq_nil (fun hw => h (infix_of_mem_lex hw)) []

theorem marks_eq (source : String) : marks source = marksFrom [] (lex source.toList) := by
  rw [marks]
  split
  case isTrue => rfl
  case isFalse hoccurs => exact (marksFrom_lex_eq_nil fun h => hoccurs (Text.occursIn_iff.mpr h)).symm

/-- Every word is a piece of the text that it is read from. A text in which the mark operator is
not named has no marks, so that looking for the name before reading lexemes changes nothing. -/
theorem words_occur_in_text (source : String) :
    (∀ w, .word w ∈ lex source.toList → w.toList <:+: source.toList) ∧
    (¬ markWord.toList <:+: source.toList → marksFrom [] (lex source.toList) = []) ∧
    marks source = marksFrom [] (lex source.toList) :=
  ⟨fun _ hw => infix_of_mem_lex hw, marksFrom_lex_eq_nil, marks_eq source⟩

/-- A comment and the end of its line do not join the words before and behind them. -/
theorem words_occur_in_text_cut_by_comment :
    ¬ markWord.toList <:+: "pdf%\nmark/B".toList ∧
    lex "pdf%\nmark/B".toList = [.word "pdf", .word "mark", .name "B"] ∧
    marks "pdf%\nmark/B" = [] := by
  have hname : ¬ markWord.toList <:+: "pdf%\nmark/B".toList := by
    rw [← Text.occursIn_iff]
    decide
  obtain ⟨-, hnone, hmarks⟩ := words_occur_in_text "pdf%\nmark/B"
  refine ⟨hname, ?_, hmarks.trans (hnone hname)⟩
  calc lex ['p', 'd', 'f', '%', '\n', 'm', 'a', 'r', 'k', '/', 'B']
    _ = .word "pdf" :: lex ['%', '\n', 'm', 'a', 'r', 'k', '/', 'B'] := lex_some rfl
    _ = .word "pdf" :: lex ['m', 'a', 'r', 'k', '/', 'B'] := congrArg _ (lex_none rfl)
    _ = .word "pdf" :: .word "mark" :: lex ['/', 'B'] := congrArg _ (lex_some rfl)
    _ = .word "pdf" :: .word "mark" :: .name "B" :: lex [] :=
      congrArg (.word "pdf" :: .word "mark" :: ·) (lex_some rfl)
    _ = [.word "pdf", .word "mark", .name "B"] := by rw [lex_nil]

end Galley.Pdf
