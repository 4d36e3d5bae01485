import Galley.Proofs.Token.LineEnds
/-!
Blanks at the ends of lines. A command that goes on into them trims them away, and between commands
they are passed over, so the tokens are the same but for their places.
-/
namespace Galley.Token
open Text

def IsBlanks (s : List Char) : Prop := ∀ c ∈ s, isBlank c = true

/-- The second text is the first with blanks put in before some of its line ends and at its end. -/
inductive Padded : String → String → Prop
  | last (s b : String) (blanks : IsBlanks b.toList) : Padded s (s ++ b)
  | line (s b : String) {r t : String} (blanks : IsBlanks b.toList) (after : Padded r t) :
      Padded (s ++ "\n" ++ r) (s ++ b ++ "\n" ++ t)

def crlf (s : String) : String :=
  .ofList (s.toList.flatMap fun c => if c = '\n' then ['\r', '\n'] else [c])

def unplaced (ts : List Token) : List (Kind × String) := ts.map fun t => (t.kind, t.operand)

theorem unplaced_append (ts us : List Token) : unplaced (ts ++ us) = unplaced ts ++ unplaced us :=
  List.map_append

theorem unplaced_shift (n : Nat) (ts : List Token) : unplaced (ts.map (shift n)) = unplaced ts := by
  rw [unplaced, List.map_map]
  rfl

theorem Kind.token_append_blanks (k : Kind) (a : List Char) {b : List Char} (hb : IsBlanks b)
    (pos : Nat) : k.token (a ++ b) pos = k.token a pos := by
  have hspace : ∀ c ∈ b, isSpace c = true := fun c hc => isSpace_of_isBlank (hb c hc)
  rw [token, trim_append_spaces a hspace]
  rfl

namespace Tokenizer

theorem tokens_idle_blanks (legacy : Bool) (pos : Nat) {b : List Char} (hb : IsBlanks b) :
    (idle legacy pos b).tokens = [] := by
  induction b generalizing pos with
  | nil => exact tokens_idle_nil legacy pos
  | cons c b ih =>
    obtain ⟨hc, hb⟩ := List.forall_mem_cons.mp hb
    rw [tokens_idle_skip (command?_eq_none_of_isBlank legacy hc b), ih _ hb]

theorem tokens_idle_append_blanks (legacy : Bool) (pos : Nat) (s : List Char) {b : List Char}
    (hb : IsBlanks b) : (idle legacy pos (s ++ b)).tokens = (idle legacy pos s).tokens := by
  induction pos, s using commands_induction legacy generalizing b with
  | nil pos => rw [List.nil_append, tokens_idle_blanks legacy pos hb, tokens_idle_nil]
  | skip pos c r hnone ih =>
    rw [List.cons_append, tokens_idle_skip (command?_cons_eq_none hnone _), ih hb,
      tokens_idle_skip hnone]
  | command pos s k a rest hcommand ih =>
    obtain ⟨x, y, rfl, happend, hx⟩ := command?_append_right hcommand b
    obtain ⟨hblanks, hafter⟩ := List.forall_mem_append.mp hb
    rw [tokens_idle_command pos happend, tokens_idle_command pos hcommand,
      k.token_append_blanks a hblanks]
    cases rest with
    | nil => rw [List.nil_append, tokens_idle_blanks legacy _ hafter, tokens_idle_nil]
    | cons c rest =>
      obtain rfl := hx (by simp)
      rw [List.append_nil, ih hafter]

end Tokenizer

theorem tokenize_append_blanks (legacy : Bool) (s : String) {b : String} (hb : IsBlanks b.toList) :
    tokenize legacy (s ++ b) = tokenize legacy s := by
  rw [tokenize, Tokenizer.ofString_eq, String.toList_append,
    Tokenizer.tokens_idle_append_blanks legacy 0 _ hb]
  rfl

theorem Padded.unplaced_eq {s t : String} (h : Padded s t) (legacy : Bool) :
    unplaced (tokenize legacy t) = unplaced (tokenize legacy s) := by
  induction h with
  | last s b hb => rw [tokenize_append_blanks legacy s hb]
  | line s b hb _ ih =>
    rw [tokenize_endOfLine, tokenize_endOfLine, tokenize_append_blanks legacy s hb, unplaced_append,
      unplaced_append, unplaced_shift, unplaced_shift, ih]

theorem Padded.cons {s t : String} (h : Padded s t) (c : Char) :
    Padded (String.singleton c ++ s) (String.singleton c ++ t) := by
  cases h with
  | last s b hb =>
    rw [← String.append_assoc]
    exact .last _ b hb
  | line s b hb after =>
    simp only [← String.append_assoc]
    exact .line _ b hb after

theorem crlf_cons (c : Char) (s : List Char) :
    crlf (.ofList (c :: s)) =
      (if c = '\n' then "\r\n" else String.singleton c) ++ crlf (.ofList s) := by
  rw [crlf, crlf, String.toList_ofList, String.toList_ofList, List.flatMap_cons, String.ofList_append]
  split
  · rfl
  · rw [String.singleton_eq_ofList]

theorem padded_crlf (s : String) : Padded s (crlf s) := by
  have hlist : ∀ s : List Char, Padded (.ofList s) (crlf (.ofList s)) := by
    intro s
    induction s with
    | nil => exact .last "" "" (by simp [IsBlanks])
    | cons c s ih =>
      rw [crlf_cons, String.ofList_cons]
      split
      case isTrue hc =>
        subst hc
        exact .line "" "\r" (by simp [IsBlanks, isBlank]) ih
      case isFalse hc => exact ih.cons c
  have hs := hlist s.toList
  rwa [String.ofList_toList] at hs

/-- Blanks at the ends of lines change nothing but the places of tokens. A document whose lines end
with a carriage return and a line feed has the tokens of the one whose lines end with a line feed. -/
theorem unplaced_of_padded (legacy : Bool) :
    (∀ source padded, Padded source padded →
      unplaced (tokenize legacy padded) = unplaced (tokenize legacy source)) ∧
    ∀ source, unplaced (tokenize legacy (crlf source)) = unplaced (tokenize legacy source) :=
  ⟨fun _ _ h => h.unplaced_eq legacy, fun source => (padded_crlf source).unplaced_eq legacy⟩

/-- Operands that are cut short by the end of a line, or of the text, and by blanks before it. -/
theorem unplaced_of_padded_cut_short :
    Padded "c\n24\nn4" "c \t\n24\r\nn4 \x0c" ∧
    unplaced (tokenize true "c \t\n24\r\nn4 \x0c") =
      [(.charLiteral, ""), (.moveRelH, "24"), (.informEol, "4")] := by
  have hblanks : IsBlanks " \t".toList ∧ IsBlanks "\r".toList ∧ IsBlanks " \x0c".toList := by
    simp [IsBlanks, isBlank]
  obtain ⟨hc, hmove, hlast⟩ := hblanks
  have hpadded : Padded "c\n24\nn4" "c \t\n24\r\nn4 \x0c" :=
    .line "c" " \t" hc (.line "24" "\r" hmove (.last "n4" " \x0c" hlast))
  refine ⟨hpadded, ?_⟩
  rw [(unplaced_of_padded true).1 _ _ hpadded]
  decide +kernel

end Galley.Token
