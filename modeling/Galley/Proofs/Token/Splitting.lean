import Galley.Proofs.Token.Grammar
/-!
Tokens are cut from the source without loss: the source is made of commands, each with the longest
operand that its grammar allows, and of characters between them that begin no command.
-/
namespace Galley.Token
open Text
open scoped Computability

theorem trim_of_mem_move {legacy : Bool} {a : List Char} (h : a ∈ grammar legacy .movePrint) :
    ∃ d, d ≠ [] ∧ (∀ c ∈ d, isDigit c = true) ∧
      (trim a = d ∨ ∃ x, trim a = d ++ [x] ∧ isSpace x = false ∧ [x] ∈ glyph) := by
  obtain ⟨d, hd, g, hg, rfl⟩ := Language.mem_mul.mp h
  have hdigits : ∀ c ∈ d, isDigit c = true := by
    obtain ⟨u, ⟨c, hc, rfl⟩, v, hv, rfl⟩ := Language.mem_mul.mp hd
    have hv' := mem_letters_kstar.mp hv
    simpa [hc] using hv'
  have hne : d ≠ [] := by
    rintro rfl
    exact absurd hd (nil_mem_letters_mul _ _)
  have hspace : ∀ c ∈ d, isSpace c = false := fun c hc => isSpace_of_isDigit (hdigits c hc)
  refine ⟨d, hne, hdigits, ?_⟩
  obtain rfl | ⟨x, hx, rfl⟩ := hg
  · left
    rw [List.append_nil]
    exact trim_eq_self hspace
  · by_cases hs : isSpace x = true
    · exact .inl (trim_append_space hspace hs)
    · right
      have hs' : isSpace x = false := by simpa using hs
      refine ⟨x, trim_eq_self ?_, hs', ⟨x, hx, rfl⟩⟩
      simp only [List.mem_append, List.mem_singleton]
      rintro c (hc | rfl)
      · exact hspace c hc
      · exact hs'

theorem settle_of_ne {k : Kind} (h : k ≠ .movePrint) (s : List Char) : settle k s = k := by
  simp [settle, h]

theorem settle_trim {legacy : Bool} {k : Kind} {a : List Char} (h : a ∈ grammar legacy k) :
    settle k (trim a) =
      if k = .movePrint ∧ (trim a).all isDigit = true then .moveRelH else k := by
  by_cases hk : k = .movePrint
  · subst hk
    obtain ⟨d, hne, hd, ht | ⟨x, ht, -, hx⟩⟩ := trim_of_mem_move h
    · have hlast : isDigit (d.getLast hne) = true := hd _ (List.getLast_mem hne)
      simpa [settle, ht, List.getLast?_eq_some_getLast hne, hlast] using hd
    · simp [settle, ht, isDigit_of_mem_glyph hx]
  · simp [settle, hk]

/-! Splitting a source. -/

/-- A command as it stands in the source, and the characters passed over after it. -/
structure Piece where
  command : List Char
  gap : List Char

def sourceOf (ps : List Piece) : List Char := ps.flatMap fun p => p.command ++ p.gap

/-- What stands between commands: no digits and no command letters. -/
def IsGap (s : List Char) : Prop := ∀ c ∈ s, isDigit c = false ∧ c ∉ commandLetters

/-- A command with the longest operand that its grammar allows, given the text after it, and its
token. The operand of the token is trimmed, and a move that prints nothing is a move alone. -/
def IsCommand (legacy : Bool) (command after : List Char) (t : Token) : Prop :=
  ∃ k text, command = k.letter?.toList ++ text ∧
    Longest (grammar legacy k) (text ++ after) text ∧
    t.operand = String.ofList (trim text) ∧
    t.kind = if k = .movePrint ∧ (trim text).all isDigit = true then .moveRelH else k

/-- Tokens are those of the pieces of a source in turn, and each begins where its piece does. -/
def Splits (legacy : Bool) : Nat → List Piece → List Token → Prop
  | _, [], [] => True
  | pos, p :: ps, t :: ts =>
    t.offset = pos ∧ IsCommand legacy p.command (p.gap ++ sourceOf ps) t ∧ IsGap p.gap ∧
      Splits legacy (pos + width (p.command ++ p.gap)) ps ts
  | _, _, _ => False

theorem isCommand_token {legacy : Bool} {s a b : List Char} {k : Kind} (pos : Nat)
    (h : command? legacy s = some (k, a, b)) :
    IsCommand legacy (k.letter?.toList ++ a) b (k.token a pos) := by
  have hlong := longest_of_command? h
  exact ⟨k, a, rfl, hlong, rfl, settle_trim hlong.mem⟩

theorem splits_idle (legacy : Bool) (pos : Nat) (s : List Char) :
    ∃ gap ps, s = gap ++ sourceOf ps ∧ IsGap gap ∧
      Splits legacy (pos + width gap) ps (Tokenizer.idle legacy pos s).tokens := by
  induction pos, s using commands_induction legacy with
  | nil pos =>
    refine ⟨[], [], rfl, by simp [IsGap], ?_⟩
    rw [Tokenizer.tokens_idle_nil]
    trivial
  | skip pos c r hnone ih =>
    -- A character that begins no command joins the gap after it.
    obtain ⟨gap, ps, rfl, hgap, hsplits⟩ := ih
    refine ⟨c :: gap, ps, rfl, ?_, ?_⟩
    · intro x hx
      obtain rfl | hx := List.mem_cons.mp hx
      · exact command?_eq_none hnone
      · exact hgap x hx
    · rw [Tokenizer.tokens_idle_skip hnone, width_cons, ← Nat.add_assoc]
      exact hsplits
  | command pos s k a b hcommand ih =>
    obtain ⟨gap, ps, rfl, hgap, hsplits⟩ := ih
    refine ⟨[], ⟨k.letter?.toList ++ a, gap⟩ :: ps, ?_, by simp [IsGap], ?_⟩
    · rw [eq_append_of_command? hcommand]
      simp [sourceOf]
    · rw [Tokenizer.tokens_idle_command pos hcommand]
      refine ⟨rfl, isCommand_token pos hcommand, hgap, ?_⟩
      rw [width_append _ gap, ← Nat.add_assoc]
      exact hsplits

/-! The places of tokens. -/

theorem IsCommand.ne_nil {legacy : Bool} {command after : List Char} {t : Token}
    (h : IsCommand legacy command after t) : command ≠ [] := by
  obtain ⟨k, text, rfl, hlong, -, -⟩ := h
  cases k
  case movePrint =>
    rintro hnil
    obtain rfl : text = [] := hnil
    have hmem := hlong.mem
    rw [grammar, mul_assoc] at hmem
    exact nil_mem_letters_mul _ _ hmem
  all_goals simp [Kind.letter?]

theorem width_pos {s : List Char} (h : s ≠ []) : 0 < width s := by
  cases s with
  | nil => exact absurd rfl h
  | cons c s =>
    rw [width_cons]
    exact Nat.add_pos_left c.utf8Size_pos _

theorem exists_split_of_splits {legacy : Bool} {pos : Nat} {ps : List Piece} {ts : List Token}
    (h : Splits legacy pos ps ts) {t : Token} (ht : t ∈ ts) :
    ∃ u v, sourceOf ps = u ++ v ∧ v ≠ [] ∧ t.offset = pos + width u := by
  induction ps generalizing pos ts with
  | nil =>
    cases ts with
    | nil => simp at ht
    | cons => exact h.elim
  | cons p ps ih =>
    cases ts with
    | nil => exact h.elim
    | cons x ts =>
      obtain ⟨hpos, hcommand, -, hrest⟩ := h
      obtain rfl | ht := List.mem_cons.mp ht
      · refine ⟨[], sourceOf (p :: ps), rfl, ?_, hpos⟩
        simp [sourceOf, hcommand.ne_nil]
      · obtain ⟨u, v, hps, hv, ho⟩ := ih hrest ht
        refine ⟨p.command ++ p.gap ++ u, v, ?_, hv, ?_⟩
        · rw [List.append_assoc, ← hps]
          rfl
        · rw [ho, width_append _ u, Nat.add_assoc]

theorem pairwise_of_splits {legacy : Bool} {pos : Nat} {ps : List Piece} {ts : List Token}
    (h : Splits legacy pos ps ts) : ts.Pairwise fun t u => t.offset < u.offset := by
  induction ps generalizing pos ts with
  | nil =>
    cases ts with
    | nil => exact List.Pairwise.nil
    | cons => exact h.elim
  | cons p ps ih =>
    cases ts with
    | nil => exact h.elim
    | cons t ts =>
      obtain ⟨hpos, hcommand, -, hrest⟩ := h
      refine List.Pairwise.cons ?_ (ih hrest)
      intro x hx
      obtain ⟨u, v, -, -, ho⟩ := exists_split_of_splits hrest hx
      have hw := width_pos hcommand.ne_nil
      rw [ho, hpos, width_append]
      omega

/-- Every source splits into the commands of its tokens and characters that begin none. Each
command is a letter, or nothing for a move, with the longest text of its grammar. The places of
the tokens increase, and each is that of a character of the source. -/
theorem tokenize_splits (legacy : Bool) (source : String) :
    (∃ gap ps, source.toList = gap ++ sourceOf ps ∧ IsGap gap ∧
      Splits legacy (width gap) ps (tokenize legacy source)) ∧
    ((tokenize legacy source).Pairwise fun t u => t.offset < u.offset) ∧
    ∀ t ∈ tokenize legacy source,
      t.offset < source.utf8ByteSize ∧ String.Pos.Raw.IsValid source ⟨t.offset⟩ := by
  obtain ⟨gap, ps, hsource, hgap, hsplits⟩ := splits_idle legacy 0 source.toList
  rw [Nat.zero_add, ← Tokenizer.ofString_eq] at hsplits
  refine ⟨⟨gap, ps, hsource, hgap, hsplits⟩, pairwise_of_splits hsplits, ?_⟩
  intro t ht
  obtain ⟨u, v, hps, hv, ho⟩ := exists_split_of_splits hsplits ht
  have hchars : source.toList = (gap ++ u) ++ v := by rw [hsource, hps, List.append_assoc]
  constructor
  · have hw := width_pos hv
    rw [← width_toList, hchars, width_append, width_append, ho]
    omega
  · refine String.Pos.Raw.isValid_iff_exists_take_toList.mpr ⟨(gap ++ u).length, ?_⟩
    rw [hchars, List.take_left', ho, ← width_append]
    · rfl
    · rfl

end Galley.Token
