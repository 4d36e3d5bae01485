import Galley.Proofs.Token.LineEnds
/-!
Text commands that end at a blank. They are text commands that end with the line, once each blank
that ends the operand of one is made a line end.
-/
namespace Galley.Token
open Text
open scoped Computability

/-- The text with a line end in place of the blank that ends the word which begins at a byte. -/
def breakWord : Nat → List Char → List Char
  | _, [] => []
  | 0, c :: s =>
    if isBlank c then '\n' :: s else if c = '\n' then c :: s else c :: breakWord 0 s
  | n + 1, c :: s => c :: breakWord (n + 1 - c.utf8Size) s

def breakWords (ts : List Token) (s : List Char) : List Char :=
  ts.foldl (fun s t => if t.kind = .textNormal then breakWord (t.offset + 1) s else s) s

/-- The source with a line end in place of each blank that ends the operand of a text command, if
text commands end at a blank. -/
def brokenAtWords (source : String) : String :=
  .ofList (breakWords (tokenize true source) source.toList)

/-! Breaking words. -/

theorem breakWord_cons (c : Char) (n : Nat) (s : List Char) :
    breakWord (c.utf8Size + n) (c :: s) = c :: breakWord n s := by
  obtain ⟨m, hm⟩ := Nat.exists_eq_succ_of_ne_zero (Nat.pos_iff_ne_zero.mp c.utf8Size_pos)
  have hpos : c.utf8Size + n = (m + n) + 1 := by omega
  rw [hpos, breakWord, ← hpos, Nat.add_sub_cancel_left]

theorem breakWord_append (u : List Char) (n : Nat) (s : List Char) :
    breakWord (width u + n) (u ++ s) = u ++ breakWord n s := by
  induction u with
  | nil => rw [width_nil, Nat.zero_add]; rfl
  | cons c u ih => rw [width_cons, Nat.add_assoc, List.cons_append, breakWord_cons, ih]; rfl

def isWordChar (c : Char) : Bool := c != '\n' && !isBlank c

theorem breakWord_word {w : List Char} (hw : ∀ c ∈ w, isWordChar c = true) (s : List Char) :
    breakWord 0 (w ++ s) = w ++ breakWord 0 s := by
  induction w with
  | nil => rfl
  | cons c w ih =>
    obtain ⟨hc, hw⟩ := List.forall_mem_cons.mp hw
    simp only [isWordChar, Bool.and_eq_true, bne_iff_ne, Bool.not_eq_true'] at hc
    rw [List.cons_append, breakWord, if_neg (by simp [hc.2]), if_neg hc.1, ih hw]
    rfl

theorem breakWord_of_not_word {c : Char} (hc : isWordChar c = false) (s : List Char) :
    breakWord 0 (c :: s) = '\n' :: s := by
  rw [breakWord]
  split
  · rfl
  · next hb =>
    have hend : c = '\n' := by simpa [isWordChar, hb] using hc
    rw [if_pos hend, hend]

theorem breakWords_of_text {t : Token} (h : t.kind = .textNormal) (ts : List Token) (s : List Char) :
    breakWords (t :: ts) s = breakWords ts (breakWord (t.offset + 1) s) := by
  rw [breakWords, List.foldl_cons, if_pos h]
  rfl

theorem breakWords_of_ne_text {t : Token} (h : t.kind ≠ .textNormal) (ts : List Token)
    (s : List Char) : breakWords (t :: ts) s = breakWords ts s := by
  rw [breakWords, List.foldl_cons, if_neg h]
  rfl

theorem breakWord_text {w : List Char} (hw : ∀ c ∈ w, isWordChar c = true) (s : List Char) :
    breakWord 1 ('t' :: w ++ s) = 't' :: w ++ breakWord 0 s :=
  congrArg ('t' :: ·) (breakWord_word hw s)

theorem breakWords_append (u : List Char) (ts : List Token) (s : List Char) :
    breakWords (ts.map (shift (width u))) (u ++ s) = u ++ breakWords ts s := by
  induction ts generalizing s with
  | nil => rfl
  | cons t ts ih =>
    by_cases ht : t.kind = .textNormal
    · have hoffset : (shift (width u) t).offset + 1 = width u + (t.offset + 1) := Nat.add_assoc ..
      have htext : (shift (width u) t).kind = .textNormal := ht
      rw [List.map_cons, breakWords_of_text htext, hoffset, breakWord_append, ih,
        breakWords_of_text ht]
    · have hother : (shift (width u) t).kind ≠ .textNormal := ht
      rw [List.map_cons, breakWords_of_ne_text hother, ih, breakWords_of_ne_text ht]

theorem breakWords_cons (c : Char) (ts : List Token) (s : List Char) :
    breakWords (ts.map (shift c.utf8Size)) (c :: s) = c :: breakWords ts s := by
  have happend := breakWords_append [c] ts s
  rwa [width_cons, width_nil, Nat.add_zero] at happend

theorem breakWords_nil (ts : List Token) : breakWords ts [] = [] := by
  induction ts with
  | nil => rfl
  | cons t ts ih => rw [breakWords, List.foldl_cons]; split <;> exact ih

theorem exists_breakWords_cons (ts : List Token) (c : Char) (s : List Char) :
    ∃ r, breakWords ts (c :: s) = c :: r := by
  induction ts generalizing s with
  | nil => exact ⟨s, rfl⟩
  | cons t ts ih =>
    by_cases ht : t.kind = .textNormal
    · rw [breakWords_of_text ht]
      exact ih _
    · rw [breakWords_of_ne_text ht]
      exact ih s

/-! Where text commands end matters to no other command. -/

theorem action_of_ne_text (legacy legacy' : Bool) {s : State} (hs : s ≠ .text) (k : Class) :
    action legacy s k = action legacy' s k := by
  cases s
  case text => exact absurd rfl hs
  all_goals cases k <;> rfl

theorem goto_ne_text {legacy : Bool} {s s' : State} {k : Class} (hs : s ≠ .text)
    (h : action legacy s k = .goto s') : s' ≠ .text := by
  rintro rfl
  cases s with
  | text => exact absurd rfl hs
  | start =>
    cases k with
    | command k => cases k <;> simp [action, Kind.opening] at h
    | _ => simp [action] at h
  | _ => cases k <;> simp [action] at h

theorem State.consume_of_ne_text (legacy legacy' : Bool) {s : State} (hs : s ≠ .text)
    (r : List Char) : s.consume legacy r = s.consume legacy' r := by
  induction r generalizing s with
  | nil => rfl
  | cons c r ih =>
    rw [consume, consume, action_of_ne_text legacy legacy' hs]
    cases h : action legacy' s (classify c) with
    | goto s' => simp only [ih (goto_ne_text hs h)]
    | _ => rfl

theorem opening_ne_text {k : Kind} {s : State} (hk : k ≠ .textNormal)
    (h : k.opening = .command k s) : s ≠ .text := by
  rintro rfl
  cases k <;> simp [Kind.opening] at h hk

theorem Kind.operand_of_ne_text (legacy legacy' : Bool) {k : Kind} (hk : k ≠ .textNormal)
    (r : List Char) : k.operand legacy r = k.operand legacy' r := by
  obtain rfl | ⟨rfl, hop⟩ | ⟨s, -, hop⟩ := opening_cases k
  · exact State.consume_of_ne_text legacy legacy' (by simp) r
  · rfl
  · rw [operand, operand, hop]
    exact State.consume_of_ne_text legacy legacy' (opening_ne_text hk hop) r

theorem command?_of_ne_text {legacy : Bool} (legacy' : Bool) {s a b : List Char} {k : Kind}
    (hk : k ≠ .textNormal) (h : command? legacy s = some (k, a, b)) :
    command? legacy' s = some (k, a, b) := by
  obtain ⟨c, r, rfl, hc, hab⟩ | ⟨c, r, rfl, hd, rfl, rfl, rfl⟩ := command?_eq_some h
  · rw [command?_letter legacy' r hc, k.operand_of_ne_text legacy' legacy hk, hab]
  · rw [command?_digit legacy' r hd, Kind.operand_of_ne_text legacy' legacy hk]

theorem command?_of_head {legacy : Bool} {s a r : List Char} {c : Char} {k : Kind}
    (h : command? legacy s = some (k, a, c :: r)) (u : List Char) :
    command? legacy (k.letter?.toList ++ a ++ c :: u) = some (k, a, c :: u) := by
  have hone := command?_of_append (u := [c]) (v := r) h
  obtain ⟨x, y, rfl, happend, hx⟩ := command?_append_right hone u
  obtain rfl := hx (by simp)
  simpa using happend

/-! Text commands. -/

theorem kind_of_settle {k : Kind} {a : List Char} (h : settle k a = .textNormal) :
    k = .textNormal := by
  rw [settle] at h
  split at h
  · cases h
  · exact h

theorem gap_of_not_word {legacy : Bool} {c : Char} (h : isWordChar c = false) (r : List Char) :
    c.utf8Size = 1 ∧ command? legacy (c :: r) = none := by
  by_cases hc : c = '\n'
  · subst hc
    exact ⟨rfl, command?_eq_none_of_endOfLine legacy r⟩
  · have hblank : isBlank c = true := by simpa [isWordChar, hc] using h
    refine ⟨?_, command?_eq_none_of_isBlank legacy hblank r⟩
    obtain rfl | rfl | rfl | rfl | rfl := isBlank_iff.mp hblank <;> rfl

theorem text_of_command? {s a b : List Char} (h : command? true s = some (.textNormal, a, b)) :
    (∀ c ∈ a, isWordChar c = true) ∧ ∀ c ∈ b.head?, isWordChar c = false := by
  have hlong : Longest (letters isWordChar)∗ (a ++ b) a := longest_of_command? h
  have ha := mem_letters_kstar.mp hlong.mem
  refine ⟨ha, fun c hc => ?_⟩
  obtain ⟨r, rfl⟩ := List.head?_eq_some_iff.mp hc
  -- A character of the word after its end would belong to the longest operand.
  by_contra hword
  have hlonger : a ++ [c] ∈ (letters isWordChar)∗ := by
    rw [mem_letters_kstar, List.forall_mem_append]
    exact ⟨ha, by simpa using hword⟩
  have hle := hlong.length_le _ hlonger ⟨r, by simp⟩
  rw [List.length_append] at hle
  exact Nat.not_succ_le_self _ hle

theorem command?_text_line (legacy : Bool) {w : List Char} (hw : ∀ c ∈ w, isWordChar c = true)
    (r : List Char) :
    command? legacy ('t' :: w ++ '\n' :: r) = some (.textNormal, w, '\n' :: r) := by
  have hmem : w ∈ State.text.language legacy := by
    rw [language_opening (k := .textNormal) rfl]
    cases legacy with
    | true => exact mem_letters_kstar.mpr hw
    | false =>
      refine mem_letters_kstar.mpr fun c hc => ?_
      exact (Bool.and_eq_true_iff.mp (hw c hc)).1
  exact command?_line rfl rfl (by simp) hmem r

theorem command?_text_end (legacy : Bool) {w : List Char} (hw : ∀ c ∈ w, isWordChar c = true) :
    command? legacy ('t' :: w) = some (.textNormal, w, []) := by
  have hline := command?_of_append (u := []) (command?_text_line legacy hw [])
  simpa [Kind.letter?] using hline

namespace Tokenizer

theorem breakWords_skip {c : Char} {r : List Char} (h : command? true (c :: r) = none) :
    breakWords (idle true 0 (c :: r)).tokens (c :: r) = c :: breakWords (idle true 0 r).tokens r := by
  rw [tokens_idle_skip h, tokens_idle_eq_shift, Nat.zero_add, breakWords_cons]

theorem tokens_idle_command_zero {s a b : List Char} {k : Kind}
    (h : command? true s = some (k, a, b)) :
    (idle true 0 s).tokens =
      k.token a 0 :: (idle true 0 b).tokens.map (shift (width (k.letter?.toList ++ a))) := by
  rw [tokens_idle_command 0 h, tokens_idle_eq_shift, Nat.zero_add]

theorem breakWords_command {s a b : List Char} {k : Kind} (hk : k ≠ .textNormal)
    (h : command? true s = some (k, a, b)) :
    breakWords (idle true 0 s).tokens s =
      k.letter?.toList ++ a ++ breakWords (idle true 0 b).tokens b := by
  have hkind : (k.token a 0).kind ≠ .textNormal := fun heq => hk (kind_of_settle heq)
  rw [tokens_idle_command_zero h, breakWords_of_ne_text hkind, eq_append_of_command? h,
    breakWords_append]

theorem breakWords_text_end {s w : List Char} (h : command? true s = some (.textNormal, w, [])) :
    breakWords (idle true 0 s).tokens s = 't' :: w := by
  have hs : s = 't' :: w ++ [] := eq_append_of_command? h
  rw [tokens_idle_command_zero h, tokens_idle_nil, breakWords_of_text rfl, hs]
  exact (breakWord_text (text_of_command? h).1 []).trans (List.append_nil _)

theorem breakWords_text {s w r : List Char} {c : Char}
    (h : command? true s = some (.textNormal, w, c :: r)) :
    breakWords (idle true 0 s).tokens s =
      't' :: w ++ '\n' :: breakWords (idle true 0 r).tokens r := by
  obtain ⟨hword, hend⟩ := text_of_command? h
  obtain ⟨hsize, hnone⟩ := gap_of_not_word (hend c rfl) r
  have hs : s = 't' :: w ++ c :: r := eq_append_of_command? h
  have htokens : (idle true 0 s).tokens =
      Kind.token .textNormal w 0 ::
        ((idle true 0 r).tokens.map (shift 1)).map (shift (width ('t' :: w))) := by
    rw [tokens_idle_command_zero h, tokens_idle_skip hnone, tokens_idle_eq_shift, Nat.zero_add, hsize]
    rfl
  rw [htokens, breakWords_of_text rfl, hs]
  show breakWords _ (breakWord 1 ('t' :: w ++ c :: r)) = _
  rw [breakWord_text hword, breakWord_of_not_word (hend c rfl), breakWords_append]
  exact congrArg _ (breakWords_cons '\n' _ r)

theorem command?_breakWords {s a b : List Char} {k : Kind} (hk : k ≠ .textNormal)
    (h : command? true s = some (k, a, b)) (ts : List Token) :
    command? false (k.letter?.toList ++ a ++ breakWords ts b) = some (k, a, breakWords ts b) := by
  cases b with
  | nil =>
    rw [eq_append_of_command? h] at h
    rw [breakWords_nil]
    exact command?_of_ne_text false hk h
  | cons c r =>
    obtain ⟨u, hu⟩ := exists_breakWords_cons ts c r
    rw [hu]
    exact command?_of_ne_text false hk (command?_of_head h u)

theorem tokens_idle_breakWords (pos : Nat) (s : List Char) :
    (idle false pos (breakWords (idle true 0 s).tokens s)).tokens = (idle true pos s).tokens := by
  induction pos, s using commands_induction true with
  | nil pos => rw [breakWords_nil, tokens_idle_nil, tokens_idle_nil]
  | skip pos c r hnone ih =>
    rw [breakWords_skip hnone, tokens_idle_skip (command?_cons_eq_none hnone _), ih,
      tokens_idle_skip hnone]
  | command pos s k a b hcommand ih =>
    rw [tokens_idle_command pos hcommand, ← ih]
    by_cases hk : k = .textNormal
    · subst hk
      obtain ⟨hword, hend⟩ := text_of_command? hcommand
      cases b with
      | nil =>
        rw [breakWords_text_end hcommand, breakWords_nil,
          tokens_idle_command pos (command?_text_end false hword)]
      | cons c r =>
        obtain ⟨hsize, hnone⟩ := gap_of_not_word (hend c rfl) r
        rw [breakWords_text hcommand, tokens_idle_command pos (command?_text_line false hword _),
          tokens_idle_skip (command?_eq_none_of_endOfLine false _), breakWords_skip hnone,
          tokens_idle_skip (command?_cons_eq_none hnone _), hsize]
        rfl
    · rw [breakWords_command hk hcommand,
        tokens_idle_command pos (command?_breakWords hk hcommand _)]

end Tokenizer

/-- A source whose text commands end at a blank has the tokens, places included, of the one in which
each such blank is a line end and text commands end with the line. -/
theorem tokenize_brokenAtWords (source : String) :
    tokenize false (brokenAtWords source) = tokenize true source := by
  rw [tokenize, Tokenizer.ofString_eq, brokenAtWords, String.toList_ofList]
  exact Tokenizer.tokens_idle_breakWords 0 source.toList

example : brokenAtWords "tab 12xtcd e\nt f" = "tab\n12xtcd\ne\nt\nf" := by decide +kernel

end Galley.Token
