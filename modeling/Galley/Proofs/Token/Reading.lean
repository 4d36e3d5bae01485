import Galley.Proofs.Text.Space
import Galley.Proofs.Token.Letters
import Galley.Token.Tokenizer
/-!
What one command takes in. Between commands the tokenizer is at rest; from there the next command
is read in one go, and the tokens are those of the commands in turn.
-/
namespace Galley.Token
open Text

/-- The characters that a command takes from a text when it is in a state, and the rest. -/
def State.consume (legacy : Bool) : State → List Char → List Char × List Char
  | _, [] => ([], [])
  | s, c :: r =>
    match action legacy s (classify c) with
    | .goto s' => (c :: (s'.consume legacy r).1, (s'.consume legacy r).2)
    | .emitWith => ([c], r)
    | _ => ([], c :: r)

theorem State.consume_append (legacy : Bool) (s : State) (r : List Char) :
    (s.consume legacy r).1 ++ (s.consume legacy r).2 = r := by
  induction r generalizing s with
  | nil => rfl
  | cons c r ih =>
    rw [consume]
    split
    · rw [List.cons_append, ih]
    · rfl
    · rfl

theorem action_within (legacy : Bool) {s : State} (hs : s ≠ .start) (k : Class) :
    (∃ s', s' ≠ .start ∧ action legacy s k = .goto s') ∨ action legacy s k = .emit ∨
      action legacy s k = .emitWith := by
  cases s
  case start => exact absurd rfl hs
  all_goals cases k <;> cases legacy <;> simp [action]

namespace Tokenizer

theorem next_of_nil {t : Tokenizer} (h : t.rest = []) : t.next = t.emit := by
  rw [next]
  split
  case h_1 => rfl
  case h_2 c r hr => simp [h] at hr

theorem next_of_token {t : Tokenizer} {c : Char} {r : List Char} {k : Token} {u : Tokenizer}
    (h : t.rest = c :: r) (hs : t.step c r = (some k, u)) : t.next = (some k, u) := by
  rw [next]
  split
  case h_1 hr => simp [h] at hr
  case h_2 c' r' hr =>
    obtain ⟨rfl, rfl⟩ := List.cons.inj (h.symm.trans hr)
    split
    case h_1 hs' => rw [← hs, hs']
    case h_2 hs' => simp [hs] at hs'

theorem next_of_none {t : Tokenizer} {c : Char} {r : List Char} {u : Tokenizer}
    (h : t.rest = c :: r) (hs : t.step c r = (none, u)) : t.next = u.next := by
  rw [next]
  split
  case h_1 hr => simp [h] at hr
  case h_2 c' r' hr =>
    obtain ⟨rfl, rfl⟩ := List.cons.inj (h.symm.trans hr)
    split
    case h_1 hs' => simp [hs] at hs'
    case h_2 hs' => rw [(Prod.mk.inj (hs.symm.trans hs')).2]

def idle (legacy : Bool) (pos : Nat) (rest : List Char) : Tokenizer := ⟨legacy, rest, pos, .start, none⟩

theorem ofString_eq (legacy : Bool) (source : String) :
    ofString legacy source = idle legacy 0 source.toList := rfl

theorem next_within (legacy : Bool) (p : Pending) (s : State) (pos : Nat) (r : List Char)
    (hs : s ≠ .start) :
    next ⟨legacy, r, pos, s, some p⟩ =
      (some { p with seen := (s.consume legacy r).1.reverse ++ p.seen }.token,
        idle legacy (pos + width (s.consume legacy r).1) (s.consume legacy r).2) := by
  induction r generalizing p s pos with
  | nil =>
    rw [next_of_nil rfl]
    rfl
  | cons c r ih =>
    rw [State.consume]
    obtain ⟨s', hs', ha⟩ | ha | ha := action_within legacy hs (classify c)
    · have hstep : step ⟨legacy, c :: r, pos, s, some p⟩ c r =
          (none, ⟨legacy, r, pos + c.utf8Size, s', some { p with seen := c :: p.seen }⟩) := by
        simp only [step, ha]
        rfl
      rw [next_of_none rfl hstep, ih _ s' _ hs', ha]
      simp [Nat.add_assoc]
    · have hstep : step ⟨legacy, c :: r, pos, s, some p⟩ c r =
          (some p.token, idle legacy pos (c :: r)) := by
        simp only [step, ha]
        rfl
      rw [next_of_token rfl hstep, ha]
      rfl
    · have hstep : step ⟨legacy, c :: r, pos, s, some p⟩ c r =
          (some { p with seen := c :: p.seen }.token, idle legacy (pos + c.utf8Size) r) := by
        simp only [step, ha]
        rfl
      rw [next_of_token rfl hstep, ha]
      simp

theorem tokens_of_some {t u : Tokenizer} {k : Token} (h : t.next = (some k, u)) :
    t.tokens = k :: u.tokens := by
  rw [tokens]
  split
  case h_1 hn => simp [h] at hn
  case h_2 hn =>
    obtain ⟨hk, rfl⟩ := Prod.mk.inj (h.symm.trans hn)
    rw [Option.some.inj hk]

theorem tokens_of_none {t u : Tokenizer} (h : t.next = (none, u)) : t.tokens = [] := by
  rw [tokens]
  split
  case h_1 => rfl
  case h_2 hn => simp [h] at hn

theorem tokens_congr {t u : Tokenizer} (h : t.next = u.next) : t.tokens = u.tokens := by
  cases hn : u.next with
  | mk o v =>
    cases o with
    | none => rw [tokens_of_none (h.trans hn), tokens_of_none hn]
    | some k => rw [tokens_of_some (h.trans hn), tokens_of_some hn]

end Tokenizer

/-- The text of the operand after the letter of a command, or after the first digit of a move, and
the rest. -/
def Kind.operand (legacy : Bool) (k : Kind) (r : List Char) : List Char × List Char :=
  match k.opening with
  | .command _ s => s.consume legacy r
  | .beginMove => State.moveDigits.consume legacy r
  | _ => ([], r)

theorem Kind.operand_append (legacy : Bool) (k : Kind) (r : List Char) :
    (k.operand legacy r).1 ++ (k.operand legacy r).2 = r := by
  rw [Kind.operand]
  split
  · exact State.consume_append legacy _ r
  · exact State.consume_append legacy _ r
  · rfl

theorem opening_cases (k : Kind) :
    k = .movePrint ∨ (k = .wordSpace ∧ k.opening = .niladic .wordSpace) ∨
      ∃ s, s ≠ .start ∧ k.opening = .command k s := by
  cases k <;> simp [Kind.opening]

/-- The command at the front of a text: its kind, its operand untrimmed, and what comes after. -/
def command? (legacy : Bool) : List Char → Option (Kind × List Char × List Char)
  | [] => none
  | c :: r =>
    match classify c with
    | .command k => some (k, k.operand legacy r)
    | .digit =>
      some (.movePrint, c :: (Kind.movePrint.operand legacy r).1, (Kind.movePrint.operand legacy r).2)
    | _ => none

theorem command?_letter {c : Char} {k : Kind} (legacy : Bool) (r : List Char)
    (h : k.letter? = some c) : command? legacy (c :: r) = some (k, k.operand legacy r) := by
  rw [command?, classify_eq_command.mpr (ofLetter?_of_letter? h)]

theorem command?_digit {c : Char} (legacy : Bool) (r : List Char) (h : isDigit c = true) :
    command? legacy (c :: r) =
      some (.movePrint, c :: (Kind.movePrint.operand legacy r).1,
        (Kind.movePrint.operand legacy r).2) := by
  rw [command?, classify_eq_digit.mpr h]

theorem command?_eq_some {legacy : Bool} {s a b : List Char} {k : Kind}
    (h : command? legacy s = some (k, a, b)) :
    (∃ c r, s = c :: r ∧ k.letter? = some c ∧ (a, b) = k.operand legacy r) ∨
    (∃ c r, s = c :: r ∧ isDigit c = true ∧ k = .movePrint ∧
      a = c :: (Kind.movePrint.operand legacy r).1 ∧ b = (Kind.movePrint.operand legacy r).2) := by
  cases s with
  | nil => simp [command?] at h
  | cons c r =>
    rw [command?] at h
    split at h
    case h_1 l hc =>
      obtain ⟨rfl, hab⟩ := Prod.mk.inj (Option.some.inj h)
      exact .inl ⟨c, r, rfl, letter?_of_ofLetter? (classify_eq_command.mp hc), hab.symm⟩
    case h_2 hc =>
      obtain ⟨rfl, hab⟩ := Prod.mk.inj (Option.some.inj h)
      obtain ⟨rfl, rfl⟩ := Prod.mk.inj hab
      exact .inr ⟨c, r, rfl, classify_eq_digit.mp hc, rfl, rfl, rfl⟩
    case h_3 => simp at h

theorem command?_cases {legacy : Bool} {s a b : List Char} {k : Kind}
    (h : command? legacy s = some (k, a, b)) :
    (k = .wordSpace ∧ a = []) ∨
    (∃ c r st, s = c :: r ∧ k.letter? = some c ∧ k.opening = .command k st ∧ st ≠ .start ∧
      a = (st.consume legacy r).1 ∧ b = (st.consume legacy r).2) ∨
    (∃ c r, s = c :: r ∧ isDigit c = true ∧ k = .movePrint ∧
      a = c :: (State.moveDigits.consume legacy r).1 ∧ b = (State.moveDigits.consume legacy r).2) := by
  obtain ⟨c, r, hs, hk, hab⟩ | hmove := command?_eq_some h
  · obtain ⟨ha, hb⟩ := Prod.mk.inj hab
    obtain rfl | ⟨rfl, hop⟩ | ⟨st, hst, hop⟩ := opening_cases k
    · simp [Kind.letter?] at hk
    · refine .inl ⟨rfl, ?_⟩
      rw [ha, hop]
    · refine .inr (.inl ⟨c, r, st, hs, hk, hop, hst, ?_, ?_⟩)
      · rw [ha, hop]
      · rw [hb, hop]
  · exact .inr (.inr hmove)

theorem command?_eq_none {legacy : Bool} {c : Char} {r : List Char}
    (h : command? legacy (c :: r) = none) : isDigit c = false ∧ c ∉ commandLetters := by
  constructor
  · by_contra hd
    rw [command?_digit legacy r (by simpa using hd)] at h
    simp at h
  · intro hl
    obtain ⟨k, hk⟩ := mem_commandLetters.mp hl
    rw [command?_letter legacy r (letter?_of_ofLetter? hk)] at h
    simp at h

theorem eq_append_of_command? {legacy : Bool} {s a b : List Char} {k : Kind}
    (h : command? legacy s = some (k, a, b)) : s = k.letter?.toList ++ a ++ b := by
  obtain ⟨c, r, rfl, hk, hab⟩ | ⟨c, r, rfl, -, rfl, rfl, rfl⟩ := command?_eq_some h
  · have hr := k.operand_append legacy r
    rw [← hab] at hr
    rw [hk, List.append_assoc, hr]
    rfl
  · simp [Kind.letter?, Kind.operand_append]

theorem length_lt_of_command? {legacy : Bool} {s a b : List Char} {k : Kind}
    (h : command? legacy s = some (k, a, b)) : b.length < s.length := by
  obtain ⟨c, r, rfl, -, hab⟩ | ⟨c, r, rfl, -, -, -, rfl⟩ := command?_eq_some h
  · have hr := congrArg List.length (k.operand_append legacy r)
    rw [← hab] at hr
    simp at hr ⊢
    omega
  · have hr := congrArg List.length (Kind.movePrint.operand_append legacy r)
    simp at hr ⊢
    omega

def Kind.token (k : Kind) (a : List Char) (pos : Nat) : Token :=
  ⟨settle k (trim a), String.ofList (trim a), pos⟩

/-- Every text is read command by command, past the characters between them. -/
theorem commands_induction (legacy : Bool) {P : Nat → List Char → Prop} (nil : ∀ pos, P pos [])
    (skip : ∀ pos c r, command? legacy (c :: r) = none → P (pos + c.utf8Size) r → P pos (c :: r))
    (command : ∀ pos s k a b, command? legacy s = some (k, a, b) →
      P (pos + width (k.letter?.toList ++ a)) b → P pos s)
    (pos : Nat) (s : List Char) : P pos s := by
  induction hn : s.length using Nat.strong_induction_on generalizing pos s with
  | _ n ih =>
    cases s with
    | nil => exact nil pos
    | cons c r =>
      cases h : command? legacy (c :: r) with
      | none => exact skip pos c r h (ih r.length (by simp [← hn]) _ r rfl)
      | some p =>
        obtain ⟨k, a, b⟩ := p
        exact command pos _ k a b h (ih b.length (hn ▸ length_lt_of_command? h) _ b rfl)

namespace Tokenizer

theorem tokens_idle_nil (legacy : Bool) (pos : Nat) : (idle legacy pos []).tokens = [] :=
  tokens_of_none (next_of_nil rfl)

theorem action_start_skip {k : Class} (legacy : Bool) (hd : k ≠ .digit)
    (hl : ∀ l, k ≠ .command l) : action legacy .start k = .skip := by
  cases k
  case digit => exact absurd rfl hd
  case command l => exact absurd rfl (hl l)
  all_goals rfl

theorem tokens_idle_skip {legacy : Bool} {pos : Nat} {c : Char} {r : List Char}
    (h : command? legacy (c :: r) = none) :
    (idle legacy pos (c :: r)).tokens = (idle legacy (pos + c.utf8Size) r).tokens := by
  obtain ⟨hd, hl⟩ := command?_eq_none h
  have hskip : action legacy .start (classify c) = .skip := by
    apply action_start_skip
    · intro hc
      simp [classify_eq_digit.mp hc] at hd
    · intro k hc
      exact hl (mem_commandLetters.mpr ⟨k, classify_eq_command.mp hc⟩)
  have hstep : step (idle legacy pos (c :: r)) c r = (none, idle legacy (pos + c.utf8Size) r) := by
    simp only [step, idle, hskip]
    rfl
  exact tokens_congr (next_of_none rfl hstep)

theorem token_of_seen (k : Kind) (a : List Char) (pos : Nat) :
    Pending.token ⟨k, pos, a.reverse⟩ = k.token a pos := by
  rw [Pending.token, List.reverse_reverse]
  rfl

theorem tokens_idle_letter (legacy : Bool) (pos : Nat) {c : Char} {k : Kind} (r : List Char)
    (hk : k.letter? = some c) :
    (idle legacy pos (c :: r)).tokens =
      k.token (k.operand legacy r).1 pos ::
        (idle legacy (pos + c.utf8Size + width (k.operand legacy r).1)
          (k.operand legacy r).2).tokens := by
  have hact : action legacy .start (classify c) = k.opening := by
    rw [classify_eq_command.mpr (ofLetter?_of_letter? hk)]
    rfl
  obtain rfl | ⟨rfl, hop⟩ | ⟨s, hs, hop⟩ := opening_cases k
  · simp [Kind.letter?] at hk
  · have hstep : step (idle legacy pos (c :: r)) c r =
        (some (Kind.token .wordSpace [] pos), idle legacy (pos + c.utf8Size) r) := by
      simp only [step, idle, hact, hop]
      rfl
    exact tokens_of_some (next_of_token rfl hstep)
  · have hstep : step (idle legacy pos (c :: r)) c r =
        (none, ⟨legacy, r, pos + c.utf8Size, s, some ⟨k, pos, []⟩⟩) := by
      simp only [step, idle, hact, hop]
      rfl
    have hnext := (next_of_none rfl hstep).trans (next_within legacy ⟨k, pos, []⟩ s _ r hs)
    rw [tokens_of_some hnext, List.append_nil, token_of_seen, Kind.operand, hop]

theorem tokens_idle_digit (legacy : Bool) (pos : Nat) {c : Char} (r : List Char)
    (hc : isDigit c = true) :
    (idle legacy pos (c :: r)).tokens =
      Kind.token .movePrint (c :: (Kind.movePrint.operand legacy r).1) pos ::
        (idle legacy (pos + c.utf8Size + width (Kind.movePrint.operand legacy r).1)
          (Kind.movePrint.operand legacy r).2).tokens := by
  have hstep : step (idle legacy pos (c :: r)) c r =
      (none, ⟨legacy, r, pos + c.utf8Size, .moveDigits, some ⟨.movePrint, pos, [c]⟩⟩) := by
    simp only [step, idle, classify_eq_digit.mpr hc]
    rfl
  have hnext := (next_of_none rfl hstep).trans
    (next_within legacy ⟨.movePrint, pos, [c]⟩ .moveDigits _ r (by simp))
  rw [tokens_of_some hnext, ← List.reverse_cons, token_of_seen]
  rfl

theorem tokens_idle_command {legacy : Bool} (pos : Nat) {s a b : List Char} {k : Kind}
    (h : command? legacy s = some (k, a, b)) :
    (idle legacy pos s).tokens =
      k.token a pos :: (idle legacy (pos + width (k.letter?.toList ++ a)) b).tokens := by
  obtain ⟨c, r, rfl, hk, hab⟩ | ⟨c, r, rfl, hd, rfl, rfl, rfl⟩ := command?_eq_some h
  · obtain ⟨ha, hb⟩ : a = (k.operand legacy r).1 ∧ b = (k.operand legacy r).2 :=
      ⟨congrArg Prod.fst hab, congrArg Prod.snd hab⟩
    rw [tokens_idle_letter legacy pos r hk, hk, ha, hb]
    simp [Nat.add_assoc]
  · rw [tokens_idle_digit legacy pos r hd]
    simp [Kind.letter?, Nat.add_assoc]

end Tokenizer

end Galley.Token
