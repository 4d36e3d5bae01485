import Galley.Proofs.Token.Reading
/-!
A source cut at the beginning of a command. No command reads on into the next one, so the text
before the cut has the tokens before the command, and the text after it has the others.
-/
namespace Galley.Token
open Text

/-- A token so many bytes further on. -/
def shift (n : Nat) (t : Token) : Token := { t with offset := n + t.offset }

theorem shift_token (n : Nat) (k : Kind) (a : List Char) (pos : Nat) :
    shift n (k.token a pos) = k.token a (n + pos) := rfl

theorem State.consume_of_append {legacy : Bool} {s : State} {r a u v : List Char}
    (h : s.consume legacy r = (a, u ++ v)) : s.consume legacy (a ++ u) = (a, u) := by
  induction r generalizing s a with
  | nil =>
    obtain ⟨rfl, hrest⟩ := Prod.mk.inj h
    obtain ⟨rfl, rfl⟩ := List.nil_eq_append_iff.mp hrest
    rfl
  | cons c r ih =>
    rw [consume] at h
    split at h
    case h_1 s' ha =>
      obtain ⟨rfl, hrest⟩ := Prod.mk.inj h
      rw [List.cons_append, consume, ha]
      dsimp only
      rw [ih (Prod.ext rfl hrest)]
    case h_2 ha =>
      obtain ⟨rfl, rfl⟩ := Prod.mk.inj h
      rw [List.singleton_append, consume, ha]
    case h_3 hgoto hwith =>
      obtain ⟨rfl, hrest⟩ := Prod.mk.inj h
      cases u with
      | nil => rfl
      | cons d u =>
        -- The command ends at the same character as before.
        obtain ⟨rfl, -⟩ := List.cons.inj hrest
        rw [List.nil_append, consume]
        split
        · next s' ha => exact absurd ha (hgoto s')
        · next ha => exact absurd ha hwith
        · rfl

theorem command?_of_append {legacy : Bool} {s a u v : List Char} {k : Kind}
    (h : command? legacy s = some (k, a, u ++ v)) :
    command? legacy (k.letter?.toList ++ a ++ u) = some (k, a, u) := by
  obtain ⟨rfl, rfl⟩ | ⟨c, r, st, rfl, hk, hop, -, ha, hb⟩ | ⟨c, r, rfl, hd, rfl, rfl, hb⟩ :=
    command?_cases h
  · rfl
  · have hconsume := State.consume_of_append (show st.consume legacy r = (a, u ++ v) by rw [ha, hb])
    rw [hk, Option.toList_some, List.singleton_append, List.cons_append,
      command?_letter legacy _ hk, Kind.operand, hop]
    simp only [hconsume]
  · have hconsume := State.consume_of_append
      (show State.moveDigits.consume legacy r = (_, u ++ v) from Prod.ext rfl hb.symm)
    rw [Kind.letter?, Option.toList_none, List.nil_append, List.cons_append,
      command?_digit legacy _ hd, Kind.operand, Kind.opening]
    simp only [hconsume]

/-- More text after a command adds to it only if nothing came after it before. -/
theorem State.consume_append_right (legacy : Bool) (s : State) (r q : List Char) :
    ∃ x y, q = x ++ y ∧
      s.consume legacy (r ++ q) = ((s.consume legacy r).1 ++ x, (s.consume legacy r).2 ++ y) ∧
      ((s.consume legacy r).2 ≠ [] → x = []) := by
  induction r generalizing s with
  | nil => exact ⟨_, _, (s.consume_append legacy q).symm, rfl, fun h => absurd rfl h⟩
  | cons c r ih =>
    rw [List.cons_append, consume, consume]
    cases action legacy s (classify c) with
    | goto s' =>
      obtain ⟨x, y, hq, hconsume, hx⟩ := ih s'
      refine ⟨x, y, hq, ?_, hx⟩
      dsimp only
      rw [hconsume]
      rfl
    | _ => exact ⟨[], q, rfl, rfl, fun _ => rfl⟩

theorem Kind.operand_append_right (legacy : Bool) (k : Kind) (r q : List Char) :
    ∃ x y, q = x ++ y ∧
      k.operand legacy (r ++ q) = ((k.operand legacy r).1 ++ x, (k.operand legacy r).2 ++ y) ∧
      ((k.operand legacy r).2 ≠ [] → x = []) := by
  rw [operand, operand]
  split
  · exact State.consume_append_right legacy _ r q
  · exact State.consume_append_right legacy _ r q
  · exact ⟨[], q, rfl, rfl, fun _ => rfl⟩

theorem command?_append_right {legacy : Bool} {s a b : List Char} {k : Kind}
    (h : command? legacy s = some (k, a, b)) (q : List Char) :
    ∃ x y, q = x ++ y ∧ command? legacy (s ++ q) = some (k, a ++ x, b ++ y) ∧
      (b ≠ [] → x = []) := by
  obtain ⟨c, r, rfl, hk, hab⟩ | ⟨c, r, rfl, hd, rfl, rfl, rfl⟩ := command?_eq_some h
  · obtain ⟨x, y, hq, hoperand, hx⟩ := k.operand_append_right legacy r q
    rw [← hab] at hoperand hx
    refine ⟨x, y, hq, ?_, hx⟩
    rw [List.cons_append, command?_letter legacy _ hk, hoperand]
  · obtain ⟨x, y, hq, hoperand, hx⟩ := Kind.movePrint.operand_append_right legacy r q
    refine ⟨x, y, hq, ?_, hx⟩
    rw [List.cons_append, command?_digit legacy _ hd, hoperand]
    rfl

theorem command?_cons_eq_none {legacy legacy' : Bool} {c : Char} {r : List Char}
    (h : command? legacy (c :: r) = none) (u : List Char) : command? legacy' (c :: u) = none := by
  rw [command?] at h ⊢
  split at h
  · exact absurd h (by simp)
  · exact absurd h (by simp)
  · rfl

theorem command?_eq_none_of_isBlank (legacy : Bool) {c : Char} (h : isBlank c = true) (r : List Char) :
    command? legacy (c :: r) = none := by
  rw [command?, classify_eq_blank.mpr h]

namespace Tokenizer

theorem tokens_idle_cut {legacy : Bool} {pos : Nat} {s : List Char} {ts us : List Token}
    {t : Token} (h : (idle legacy pos s).tokens = ts ++ t :: us) :
    ∃ u v, s = u ++ v ∧ t.offset = pos + width u ∧ (idle legacy pos u).tokens = ts ∧
      (idle legacy t.offset v).tokens = t :: us := by
  induction pos, s using commands_induction legacy generalizing ts with
  | nil pos =>
    rw [tokens_idle_nil] at h
    simp at h
  | skip pos c r hnone ih =>
    rw [tokens_idle_skip hnone] at h
    obtain ⟨u, v, rfl, hoffset, hbefore, hafter⟩ := ih h
    refine ⟨c :: u, v, rfl, ?_, ?_, hafter⟩
    · rw [hoffset, width_cons, Nat.add_assoc]
    · rw [tokens_idle_skip (command?_cons_eq_none hnone u), hbefore]
  | command pos s k a b hcommand ih =>
    rw [tokens_idle_command pos hcommand] at h
    cases ts with
    | nil =>
      obtain ⟨rfl, hrest⟩ := List.cons.inj h
      refine ⟨[], s, rfl, rfl, tokens_idle_nil legacy pos, ?_⟩
      show (idle legacy pos s).tokens = _
      rw [tokens_idle_command pos hcommand, hrest]
    | cons x ts =>
      obtain ⟨rfl, hrest⟩ := List.cons.inj h
      obtain ⟨u, v, rfl, hoffset, hbefore, hafter⟩ := ih hrest
      refine ⟨k.letter?.toList ++ a ++ u, v, ?_, ?_, ?_, hafter⟩
      · rw [eq_append_of_command? hcommand, List.append_assoc _ u v]
      · rw [hoffset, width_append _ u, Nat.add_assoc]
      · rw [tokens_idle_command pos (command?_of_append hcommand), hbefore]

theorem tokens_idle_add (legacy : Bool) (n pos : Nat) (s : List Char) :
    (idle legacy (n + pos) s).tokens = (idle legacy pos s).tokens.map (shift n) := by
  induction pos, s using commands_induction legacy with
  | nil pos => rw [tokens_idle_nil, tokens_idle_nil, List.map_nil]
  | skip pos c r hnone ih => rw [tokens_idle_skip hnone, tokens_idle_skip hnone, Nat.add_assoc, ih]
  | command pos s k a b hcommand ih =>
    rw [tokens_idle_command _ hcommand, tokens_idle_command pos hcommand, Nat.add_assoc, ih,
      List.map_cons, shift_token]

theorem tokens_idle_eq_shift (legacy : Bool) (pos : Nat) (s : List Char) :
    (idle legacy pos s).tokens = (idle legacy 0 s).tokens.map (shift pos) :=
  tokens_idle_add legacy pos 0 s

theorem tokens_idle_eq_map (legacy : Bool) (pos : Nat) (s : List Char) :
    (idle legacy pos s).tokens = (tokenize legacy (String.ofList s)).map (shift pos) := by
  rw [tokenize, ofString_eq, String.toList_ofList, tokens_idle_eq_shift]

end Tokenizer

theorem exists_cut_shift {legacy : Bool} {source : String} {ts us : List Token} {t : Token}
    (h : tokenize legacy source = ts ++ t :: us) :
    ∃ u v, source = u ++ v ∧ u.utf8ByteSize = t.offset ∧ tokenize legacy u = ts ∧
      (tokenize legacy v).map (shift t.offset) = t :: us := by
  obtain ⟨u, v, hsource, hoffset, hbefore, hafter⟩ := Tokenizer.tokens_idle_cut h
  refine ⟨.ofList u, .ofList v, ?_, ?_, ?_, ?_⟩
  · rw [← String.ofList_append, ← hsource, String.ofList_toList]
  · rw [hoffset, Nat.zero_add]
    rfl
  · rw [tokenize, Tokenizer.ofString_eq, String.toList_ofList, hbefore]
  · rw [← Tokenizer.tokens_idle_eq_map, hafter]

theorem exists_cut {legacy : Bool} {source : String} {ts us : List Token} {t : Token}
    (h : tokenize legacy source = ts ++ t :: us) :
    ∃ u v, source = u ++ v ∧ u.utf8ByteSize = t.offset ∧ tokenize legacy u = ts := by
  obtain ⟨u, v, hsource, hsize, hbefore, -⟩ := exists_cut_shift h
  exact ⟨u, v, hsource, hsize, hbefore⟩

end Galley.Token
