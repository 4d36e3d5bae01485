import Galley.Proofs.Token.Machine
/-!
Searches of the machine that goes over the bytes of a source. From wherever its turns lead, a search
comes to an end and finds what the tokenizer finds there, so that one search after another finds the
tokens of the source in order and then nothing.
-/
namespace Galley.Token

namespace Tokenizer

theorem next_of_next_none {t t' : Tokenizer} (h : t.next = (none, t')) : t'.next = (none, t') := by
  fun_induction next t with
  | case1 t hr =>
    cases hp : t.pending with
    | none =>
      simp only [emit, hp, Option.map_none, Prod.mk.injEq, true_and] at h
      subst h
      exact next_of_nil hr
    | some q => simp [emit, hp] at h
  | case2 t c r hr k v hs => cases (Prod.mk.inj h).1
  | case3 t c r hr v hs hlt ih => exact ih h

theorem getElem?_tokens_zero (t : Tokenizer) : t.tokens[0]? = t.next.1 := by
  cases h : t.next with
  | mk o t' =>
    cases o with
    | none => rw [tokens_of_none h, List.getElem?_nil]
    | some k => rw [tokens_of_some h, List.getElem?_cons_zero]

theorem getElem?_tokens_succ (t : Tokenizer) (i : Nat) : t.tokens[i + 1]? = t.next.2.tokens[i]? := by
  cases h : t.next with
  | mk o t' =>
    cases o with
    | none =>
      rw [tokens_of_none h, tokens_of_none (next_of_next_none h),
        List.getElem?_nil, List.getElem?_nil]
    | some k => rw [tokens_of_some h, List.getElem?_cons_succ]

end Tokenizer

namespace Machine

inductive Reached (legacy : Bool) (source : String) : Machine → Prop
  | initial : Reached legacy source initial
  | turn {m u : Machine} {o : Option Token} (hm : Reached legacy source m)
      (ht : m.turn legacy source = some (o, u)) : Reached legacy source u

/-- The search for the next token: turns until one is found or the source ends. A search without
end or one that fails has no result. -/
inductive Next (legacy : Bool) (source : String) : Machine → Option Token → Machine → Prop
  | last {m u : Machine} {o : Option Token} (hc : peek? source m.pos = none)
      (ht : m.turn legacy source = some (o, u)) : Next legacy source m o u
  | found {m u : Machine} {c : Char} {k : Token} (hc : peek? source m.pos = some c)
      (ht : m.turn legacy source = some (some k, u)) : Next legacy source m (some k) u
  | again {m u v : Machine} {c : Char} {o : Option Token} (hc : peek? source m.pos = some c)
      (ht : m.turn legacy source = some (none, u)) (hn : Next legacy source u o v) :
      Next legacy source m o v

inductive Calls (legacy : Bool) (source : String) : Machine → List (Option Token) → Machine → Prop
  | nil {m : Machine} : Calls legacy source m [] m
  | cons {m u v : Machine} {o : Option Token} {os : List (Option Token)}
      (hn : Next legacy source m o u) (hs : Calls legacy source u os v) :
      Calls legacy source m (o :: os) v

variable {legacy : Bool} {source : String} {m u v : Machine} {t : Tokenizer} {o p : Option Token}

/-! The machine and the tokenizer find the same. -/

theorem Follows.initial : Follows legacy source initial (Tokenizer.ofString legacy source) :=
  .between (List.nil_append _).symm

theorem Reached.follows (h : Reached legacy source m) : ∃ t, Follows legacy source m t := by
  induction h with
  | initial => exact ⟨_, .initial⟩
  | turn hm ht ih =>
    obtain ⟨t, hfollows⟩ := ih
    obtain ⟨o, u, t', hturn, hfollows'⟩ := hfollows.exists_turn
    obtain ⟨-, rfl⟩ := Prod.mk.inj (Option.some.inj (hturn.symm.trans ht))
    exact ⟨t', hfollows'⟩

theorem Follows.exists_next (h : Follows legacy source m t) :
    ∃ u, Next legacy source m t.next.1 u ∧ Follows legacy source u t.next.2 := by
  -- The induction is that of the tokenizer, which counts down the characters and the open command.
  fun_induction Tokenizer.next t generalizing m with
  | case1 t hr =>
    obtain ⟨u, hturn, hfollows⟩ := h.turn_end hr
    exact ⟨u, .last (h.peek?_of_nil hr) hturn, hfollows⟩
  | case2 t c r hr k t' hs =>
    obtain ⟨u, hturn, hfollows⟩ := h.turn_step hr
    rw [hs] at hturn hfollows
    exact ⟨u, .found (h.peek?_of_cons hr) hturn, hfollows⟩
  | case3 t c r hr t' hs hlt ih =>
    obtain ⟨u, hturn, hfollows⟩ := h.turn_step hr
    rw [hs] at hturn hfollows
    obtain ⟨v, hnext, hfollows'⟩ := ih hfollows
    exact ⟨v, .again (h.peek?_of_cons hr) hturn hnext, hfollows'⟩

theorem Next.eq (h : Next legacy source m o u) (h' : Next legacy source m p v) :
    p = o ∧ v = u := by
  induction h with
  | last hc ht =>
    cases h' with
    | last hc' ht' => exact Prod.mk.inj (Option.some.inj (ht'.symm.trans ht))
    | found hc' => cases hc.symm.trans hc'
    | again hc' => cases hc.symm.trans hc'
  | found hc ht =>
    cases h' with
    | last hc' => cases hc.symm.trans hc'
    | found hc' ht' => exact Prod.mk.inj (Option.some.inj (ht'.symm.trans ht))
    | again hc' ht' => cases ht.symm.trans ht'
  | again hc ht hn ih =>
    cases h' with
    | last hc' => cases hc.symm.trans hc'
    | found hc' ht' => cases ht.symm.trans ht'
    | again hc' ht' hn' =>
      obtain ⟨-, rfl⟩ := Prod.mk.inj (Option.some.inj (ht'.symm.trans ht))
      exact ih hn'

theorem next_iff (h : Next legacy source m o u) :
    Next legacy source m p v ↔ p = o ∧ v = u := by
  constructor
  · exact h.eq
  · rintro ⟨rfl, rfl⟩
    exact h

theorem Next.next_of_none (h : Next legacy source m o u) (ho : o = none) :
    Next legacy source u none u := by
  induction h with
  | @last m u o hc ht =>
    have hemit : m.emit source source.utf8ByteSize = some (o, u) := by
      simpa only [turn, hc] using ht
    obtain ⟨hheld, -, rfl⟩ | ⟨-, hsome, -⟩ := emit_cases hemit
    · refine .last hc ?_
      simp only [turn, hc, emit, hheld]
    · rw [ho] at hsome
      cases hsome
  | found => cases ho
  | again hc ht hn ih => exact ih ho

theorem Calls.eq {os ps : List (Option Token)} (h : Calls legacy source m os u)
    (h' : Calls legacy source m ps v) (hlength : ps.length = os.length) : ps = os := by
  induction h generalizing ps with
  | nil => exact List.length_eq_zero_iff.mp hlength
  | cons hn hs ih =>
    cases h' with
    | nil => cases hlength
    | cons hn' hs' =>
      obtain ⟨rfl, rfl⟩ := hn.eq hn'
      rw [ih hs' (Nat.succ.inj hlength)]

theorem Follows.exists_calls (h : Follows legacy source m t) (n : Nat) :
    ∃ u, Calls legacy source m ((List.range n).map fun i => t.tokens[i]?) u := by
  induction n generalizing m t with
  | zero => exact ⟨m, .nil⟩
  | succ n ih =>
    obtain ⟨u, hnext, hfollows⟩ := h.exists_next
    obtain ⟨v, hcalls⟩ := ih hfollows
    refine ⟨v, ?_⟩
    rw [List.range_succ_eq_map, List.map_cons, List.map_map, Tokenizer.getElem?_tokens_zero]
    simp only [Function.comp_def, Nat.succ_eq_add_one, Tokenizer.getElem?_tokens_succ]
    exact .cons hnext hcalls

structure Orderly (legacy : Bool) (source : String) (m : Machine) : Prop where
  place : String.Pos.Raw.IsValid source ⟨m.pos⟩
  held_iff : m.held.isSome ↔ m.state ≠ .start
  /-- A letter that the table takes for that of a command introduces one. -/
  known : ∀ c ∈ peek? source m.pos,
    (entry legacy m.state (column c) = .niladic ∨
      ∃ s, entry legacy m.state (column c) = .command s) → (column c).kind?.isSome
  total : ∃ o u, m.turn legacy source = some (o, u)
  forward : ∀ c ∈ peek? source m.pos, ∀ o u, m.turn legacy source = some (o, u) →
    u.pos = m.pos + c.utf8Size ∨ (u.pos = m.pos ∧ m.state ≠ .start ∧ u.state = .start)
  /-- A command that ends is a token. Only at the end of the source may there be none to end. -/
  found : ∀ stop ∈ m.stop? legacy source, ∀ o u, m.turn legacy source = some (o, u) →
    (o = none ↔ m.pos = source.utf8ByteSize ∧ m.state = .start)
  operand : ∀ stop ∈ m.stop? legacy source, ∀ p ∈ m.held,
    p.operandStart ≤ stop ∧ String.Pos.Raw.IsValid source ⟨p.operandStart⟩ ∧
      String.Pos.Raw.IsValid source ⟨stop⟩

theorem Follows.orderly (h : Follows legacy source m t) : Orderly legacy source m where
  place := h.place
  held_iff := h.held_iff
  known _ _ := kind?_isSome_of_entry
  total := by
    obtain ⟨o, u, _, hturn, -⟩ := h.exists_turn
    exact ⟨o, u, hturn⟩
  forward _ hc _ _ := turn_forward hc
  found := by
    intro stop hstop o u hturn
    have hnone : m.held = none ↔ m.state = .start := by
      rw [← Option.not_isSome_iff_eq_none, h.held_iff, not_not]
    rw [eq_none_iff_of_stop? hstop hturn, hnone, iff_and_self, ← h.peek?_eq_none_iff]
    intro hs
    -- Between commands no character ends one.
    cases hc : peek? source m.pos with
    | none => rfl
    | some c => exact absurd hs (state_of_stop? hc hstop)
  operand _ hstop _ := h.operand hstop

/-- On every source, the machine holds a command in all states but that between commands, so that
where a command ends there is one, and every command letter of the table introduces a command. Each
turn moves on or ends a command, whose operand lies between two places in order that cut through no
character. So each search for a token ends, with what the tokenizer finds at the same place, and one
that finds nothing leaves the machine to find nothing ever after: the searches find the tokens of
the source in order, and then nothing. -/
theorem turns_keep_command (legacy : Bool) (source : String) :
    (∀ m, Reached legacy source m → Orderly legacy source m ∧
      ∃ t u, Follows legacy source m t ∧ Follows legacy source u t.next.2 ∧
        (∀ o v, Next legacy source m o v ↔ o = t.next.1 ∧ v = u) ∧
        (t.next.1 = none → ∀ o v, Next legacy source u o v ↔ o = none ∧ v = u)) ∧
    ∀ os, (∃ u, Calls legacy source initial os u) ↔
      os = (List.range os.length).map fun i => (tokenize legacy source)[i]? := by
  constructor
  · intro m hm
    obtain ⟨t, hfollows⟩ := hm.follows
    obtain ⟨u, hnext, hfollows'⟩ := hfollows.exists_next
    refine ⟨hfollows.orderly, t, u, hfollows, hfollows', fun o v => next_iff hnext, ?_⟩
    intro hnone o v
    exact next_iff (hnext.next_of_none hnone)
  · intro os
    have hinitial : Follows legacy source initial (Tokenizer.ofString legacy source) := .initial
    obtain ⟨u, hcalls⟩ := hinitial.exists_calls os.length
    constructor
    · rintro ⟨v, hos⟩
      exact hcalls.eq hos (by rw [List.length_map, List.length_range])
    · intro hos
      rw [hos]
      exact ⟨u, hcalls⟩

/-- A character of two bytes as an operand, a move without a character, and nothing after that. -/
theorem turns_keep_command_past_accent :
    Reached true "cé7" ⟨1, .literal, some ⟨.charLiteral, 0, 1⟩⟩ ∧
    Orderly true "cé7" ⟨1, .literal, some ⟨.charLiteral, 0, 1⟩⟩ ∧
    (∃ u, Calls true "cé7" initial
      [some ⟨.charLiteral, "é", 0⟩, some ⟨.moveRelH, "7", 3⟩, none, none, none] u) := by
  obtain ⟨hone, hcalls⟩ := turns_keep_command true "cé7"
  have hreached : Reached true "cé7" ⟨1, .literal, some ⟨.charLiteral, 0, 1⟩⟩ :=
    .turn .initial rfl
  have htokens : tokenize true "cé7" = [⟨.charLiteral, "é", 0⟩, ⟨.moveRelH, "7", 3⟩] := by
    decide +kernel
  refine ⟨hreached, (hone _ hreached).1, (hcalls _).mpr ?_⟩
  rw [htokens]
  rfl

end Machine

end Galley.Token
