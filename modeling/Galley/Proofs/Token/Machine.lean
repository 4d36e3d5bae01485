import Mathlib.Data.String.Basic
import Galley.Proofs.Token.Reading
/-!
The tokenizer as a machine that goes over the bytes of a source. It knows its place, its state and
where the operand of the command that it holds begins, and it cuts the operand out of the source
when the command ends. The table says which state a letter leads to, and a list apart from it which
command the letter introduces. Nothing in the machine makes the two agree, keeps a command until it
ends or puts the ends of operands between characters. All this follows from what a turn does: it
keeps the machine in step with the tokenizer on the characters of the source.
-/
namespace Galley.Token
open Text

/-! The table and the list of commands. -/

/-- The columns of the table. Every command letter has a column of its own. -/
inductive Column where
  | endOfLine | blank | digit | sign | hash
  | upperC | upperD | upperH | upperN | upperV
  | lowerC | lowerF | lowerH | lowerM | lowerN | lowerP | lowerS | lowerT | lowerU | lowerV
  | lowerW | lowerX
  | letter | other

def column (c : Char) : Column :=
  match c with
  | '\n' => .endOfLine
  | '#' => .hash
  | 'C' => .upperC
  | 'D' => .upperD
  | 'H' => .upperH
  | 'N' => .upperN
  | 'V' => .upperV
  | 'c' => .lowerC
  | 'f' => .lowerF
  | 'h' => .lowerH
  | 'm' => .lowerM
  | 'n' => .lowerN
  | 'p' => .lowerP
  | 's' => .lowerS
  | 't' => .lowerT
  | 'u' => .lowerU
  | 'v' => .lowerV
  | 'w' => .lowerW
  | 'x' => .lowerX
  | c =>
    if isBlank c then .blank
    else if isDigit c then .digit
    else if isSign c then .sign
    else if isLetter c then .letter
    else .other

def Column.kind? : Column → Option Kind
  | .hash => some .comment
  | .upperC => some .charNamed
  | .upperD => some .drawing
  | .upperH => some .moveAbsH
  | .upperN => some .charIndexed
  | .upperV => some .moveAbsV
  | .lowerC => some .charLiteral
  | .lowerF => some .setFont
  | .lowerH => some .moveRelH
  | .lowerM => some .setColour
  | .lowerN => some .informEol
  | .lowerP => some .beginPage
  | .lowerS => some .setSize
  | .lowerT => some .textNormal
  | .lowerU => some .textTracked
  | .lowerV => some .moveRelV
  | .lowerW => some .wordSpace
  | .lowerX => some .deviceControl
  | _ => none

def Column.toClass (k : Column) : Class :=
  match k.kind?, k with
  | some kind, _ => .command kind
  | none, .endOfLine => .endOfLine
  | none, .blank => .blank
  | none, .digit => .digit
  | none, .sign => .sign
  | none, .letter => .letter
  | none, _ => .other

/-- An entry of the table: an action that does not say which command it is about. -/
inductive Entry where
  | skip
  | command (state : State)
  | niladic
  | beginMove
  | goto (state : State)
  | emit
  | emitWith

def Entry.ofAction : Action → Entry
  | .skip => .skip
  | .command _ s => .command s
  | .niladic _ => .niladic
  | .beginMove => .beginMove
  | .goto s => .goto s
  | .emit => .emit
  | .emitWith => .emitWith

/-- The row of the table between commands. -/
def Column.opening : Column → Entry
  | .digit => .beginMove
  | .hash => .command .line
  | .upperC => .command .name
  | .upperD => .command .line
  | .upperH => .command .numberLead
  | .upperN => .command .numberLead
  | .upperV => .command .numberLead
  | .lowerC => .command .literal
  | .lowerF => .command .numberLead
  | .lowerH => .command .numberLead
  | .lowerM => .command .line
  | .lowerN => .command .eolLead
  | .lowerP => .command .numberLead
  | .lowerS => .command .numberLead
  | .lowerT => .command .text
  | .lowerU => .command .line
  | .lowerV => .command .numberLead
  | .lowerW => .niladic
  | .lowerX => .command .line
  | _ => .skip

def entry (legacy : Bool) : State → Column → Entry
  | .start, k => k.opening
  | s, k => .ofAction (action legacy s k.toClass)

theorem toClass_column (c : Char) : (column c).toClass = classify c := by
  unfold column
  split
  case h_20 =>
    have hl : Kind.ofLetter? c = none := by
      apply ofLetter?_eq_none
      simp only [commandLetters, List.mem_cons, List.not_mem_nil, or_false, not_or]
      and_intros <;> assumption
    have hn : c ≠ '\n' := by assumption
    rw [classify_of_not_letter hl, if_neg hn]
    split_ifs <;> rfl
  all_goals rfl

/-- The table takes a column for that of a command just where the list has one, and then for the
same command. -/
theorem opening_of_column (legacy : Bool) (k : Column) :
    (k.opening = .skip ∧ action legacy .start k.toClass = .skip) ∨
    (k.opening = .beginMove ∧ action legacy .start k.toClass = .beginMove) ∨
    (∃ kind, k.kind? = some kind ∧ k.opening = .niladic ∧
      action legacy .start k.toClass = .niladic kind) ∨
    ∃ kind s, s ≠ .start ∧ k.kind? = some kind ∧ k.opening = .command s ∧
      action legacy .start k.toClass = .command kind s := by
  cases k <;> simp [Column.opening, Column.toClass, Column.kind?, action, Kind.opening]

theorem entry_of_ne_start (legacy : Bool) {s : State} (hs : s ≠ .start) (k : Column) :
    entry legacy s k = .ofAction (action legacy s k.toClass) := by
  cases s
  case start => exact absurd rfl hs
  all_goals rfl

/-! The machine. -/

structure Held where
  kind : Kind
  offset : Nat
  operandStart : Nat

structure Machine where
  /-- The byte at which the next character begins. -/
  pos : Nat
  state : State
  held : Option Held

namespace Machine

def initial : Machine := ⟨0, .start, none⟩

def peek? (source : String) (pos : Nat) : Option Char := String.Pos.Raw.get? source ⟨pos⟩

/-- The text between two bytes. They must be in order, and no character may lie across them. -/
def slice? (source : String) (start stop : Nat) : Option (List Char) :=
  if start ≤ stop ∧ String.Pos.Raw.IsValid source ⟨start⟩ ∧ String.Pos.Raw.IsValid source ⟨stop⟩
  then some (String.Pos.Raw.extract source ⟨start⟩ ⟨stop⟩).toList
  else none

/-- Ends the command that is held, if one is. It fails if the operand cannot be cut out. -/
def emit (source : String) (m : Machine) (stop : Nat) : Option (Option Token × Machine) :=
  match m.held with
  | none => some (none, { m with state := .start })
  | some p =>
    (slice? source p.operandStart stop).map fun text =>
      (some (p.kind.token text p.offset), { m with state := .start, held := none })

/-- One turn of the search for a token, which goes on if none is found before the end. A letter that
introduces no command is passed over. -/
def turn (legacy : Bool) (source : String) (m : Machine) : Option (Option Token × Machine) :=
  match peek? source m.pos with
  | none => m.emit source source.utf8ByteSize
  | some c =>
    let past := { m with pos := m.pos + c.utf8Size }
    match entry legacy m.state (column c) with
    | .skip => some (none, past)
    | .command s =>
      match (column c).kind? with
      | none => some (none, past)
      | some k => some (none, { past with state := s, held := some ⟨k, m.pos, past.pos⟩ })
    | .niladic =>
      match (column c).kind? with
      | none => some (none, past)
      | some k => some (some ⟨k, "", m.pos⟩, past)
    | .beginMove =>
      some (none, { past with state := .moveDigits, held := some ⟨.movePrint, m.pos, m.pos⟩ })
    | .goto s => some (none, { past with state := s })
    | .emit => m.emit source m.pos
    | .emitWith => past.emit source past.pos

/-- The byte before which a turn ends a command, if it ends one. -/
def stop? (legacy : Bool) (source : String) (m : Machine) : Option Nat :=
  match peek? source m.pos with
  | none => some source.utf8ByteSize
  | some c =>
    match entry legacy m.state (column c) with
    | .emit => some m.pos
    | .emitWith => some (m.pos + c.utf8Size)
    | _ => none

/-- A machine at a place of a source, and the tokenizer that is as far in its characters. While a
command is held, its operand has begun between characters. -/
inductive Follows (legacy : Bool) (source : String) : Machine → Tokenizer → Prop
  | between {a r : List Char} (h : source.toList = a ++ r) :
      Follows legacy source ⟨width a, .start, none⟩ (Tokenizer.idle legacy (width a) r)
  | within {a b r : List Char} {s : State} {k : Kind} {offset : Nat}
      (h : source.toList = a ++ b ++ r) (hs : s ≠ .start) :
      Follows legacy source ⟨width (a ++ b), s, some ⟨k, offset, width a⟩⟩
        ⟨legacy, r, width (a ++ b), s, some ⟨k, offset, b.reverse⟩⟩

variable {legacy : Bool} {source : String} {m u v : Machine} {t : Tokenizer} {o p : Option Token}

/-! Places of a source. -/

theorem width_concat (a : List Char) (c : Char) : width (a ++ [c]) = width a + c.utf8Size := by
  rw [width_append, width_cons, width_nil, Nat.add_zero]

theorem peek?_width {a r : List Char} (h : source.toList = a ++ r) :
    peek? source (width a) = r.head? := by
  have hsource : source = String.ofList (a ++ r) := by rw [← h, String.ofList_toList]
  rw [peek?, hsource, width, String.utf8ByteSize_ofList]
  exact String.get?_of_valid a r

theorem isValid_width {a r : List Char} (h : source.toList = a ++ r) :
    String.Pos.Raw.IsValid source ⟨width a⟩ := by
  refine String.Pos.Raw.isValid_iff_exists_take_toList.mpr ⟨a.length, ?_⟩
  rw [h, List.take_left', width]
  rfl

theorem slice?_width {a b r : List Char} (h : source.toList = a ++ b ++ r) :
    slice? source (width a) (width (a ++ b)) = some b := by
  have hstart := isValid_width (h.trans (List.append_assoc a b r))
  have hle : width a ≤ width (a ++ b) := by
    rw [width_append]
    exact Nat.le_add_right _ _
  have hsource : source = String.ofList (a ++ b ++ r) := by rw [← h, String.ofList_toList]
  rw [slice?, if_pos ⟨hle, hstart, isValid_width h⟩, width_append, hsource, width, width,
    String.utf8ByteSize_ofList, String.utf8ByteSize_ofList, String.extract_of_valid,
    String.toList_ofList]

theorem width_of_end {a : List Char} (h : source.toList = a ++ []) :
    source.utf8ByteSize = width a := by
  rw [← width_toList, h, List.append_nil]

theorem peek?_width_eq_none_iff {a r : List Char} (h : source.toList = a ++ r) :
    peek? source (width a) = none ↔ width a = source.utf8ByteSize := by
  have hsize : source.utf8ByteSize = width a + width r := by
    rw [← width_toList, h, width_append]
  rw [peek?_width h, hsize, List.head?_eq_none_iff]
  cases r with
  | nil => simp
  | cons c r =>
    have hpos := c.utf8Size_pos
    have hne : width a ≠ width a + width (c :: r) := by
      rw [width_cons]
      omega
    exact iff_of_false (List.cons_ne_nil c r) hne

/-! What a turn does, beside a step of the tokenizer. -/

theorem Follows.peek?_eq (h : Follows legacy source m t) : peek? source m.pos = t.rest.head? := by
  cases h with
  | between h => exact peek?_width h
  | within h => exact peek?_width h

theorem Follows.peek?_of_nil (h : Follows legacy source m t) (hr : t.rest = []) :
    peek? source m.pos = none := by
  rw [h.peek?_eq, hr, List.head?_nil]

theorem Follows.peek?_of_cons (h : Follows legacy source m t) {c : Char} {r : List Char}
    (hr : t.rest = c :: r) : peek? source m.pos = some c := by
  rw [h.peek?_eq, hr, List.head?_cons]

theorem Follows.peek?_eq_none_iff (h : Follows legacy source m t) :
    peek? source m.pos = none ↔ m.pos = source.utf8ByteSize := by
  cases h with
  | between h => exact peek?_width_eq_none_iff h
  | within h => exact peek?_width_eq_none_iff h

theorem emit_width {a b r : List Char} (h : source.toList = a ++ b ++ r) (pos : Nat) (s : State)
    (k : Kind) (offset : Nat) :
    emit source ⟨pos, s, some ⟨k, offset, width a⟩⟩ (width (a ++ b)) =
      some (some (k.token b offset), ⟨pos, .start, none⟩) := by
  simp only [emit, slice?_width h, Option.map_some]

theorem follows_past {a r : List Char} {c : Char} (h : source.toList = a ++ c :: r) :
    Follows legacy source ⟨width a + c.utf8Size, .start, none⟩
      (Tokenizer.idle legacy (width a + c.utf8Size) r) := by
  rw [← width_concat]
  apply Follows.between
  rw [h, List.append_assoc, List.singleton_append]

theorem follows_letter {a r : List Char} {c : Char} (h : source.toList = a ++ c :: r) {s : State}
    (hs : s ≠ .start) (k : Kind) (offset : Nat) :
    Follows legacy source
      ⟨width a + c.utf8Size, s, some ⟨k, offset, width a + c.utf8Size⟩⟩
      ⟨legacy, r, width a + c.utf8Size, s, some ⟨k, offset, []⟩⟩ := by
  have hsplit : source.toList = (a ++ [c]) ++ [] ++ r := by simp [h]
  simpa [width_concat] using Follows.within hsplit hs

theorem follows_operand {a b r : List Char} {c : Char} (h : source.toList = a ++ b ++ c :: r)
    {s : State} (hs : s ≠ .start) (k : Kind) (offset : Nat) :
    Follows legacy source
      ⟨width (a ++ b) + c.utf8Size, s, some ⟨k, offset, width a⟩⟩
      ⟨legacy, r, width (a ++ b) + c.utf8Size, s, some ⟨k, offset, c :: b.reverse⟩⟩ := by
  have hsplit : source.toList = a ++ (b ++ [c]) ++ r := by simp [h]
  have hfollows : Follows legacy source _ ⟨legacy, r, _, s, some ⟨k, offset, (b ++ [c]).reverse⟩⟩ :=
    .within hsplit hs
  rw [← List.append_assoc, width_concat, List.reverse_append] at hfollows
  exact hfollows

theorem turn_between {a r : List Char} {c : Char} (h : source.toList = a ++ c :: r) :
    ∃ o u t, turn legacy source ⟨width a, .start, none⟩ = some (o, u) ∧
      (Tokenizer.idle legacy (width a) (c :: r)).step c r = (o, t) ∧ Follows legacy source u t := by
  have hc : peek? source (width a) = some c := peek?_width h
  have hrow := opening_of_column legacy (column c)
  rw [toClass_column] at hrow
  obtain ⟨he, ha⟩ | ⟨he, ha⟩ | ⟨k, hk, he, ha⟩ | ⟨k, s, hs, hk, he, ha⟩ := hrow
  · refine ⟨none, _, _, ?_, ?_, follows_past h⟩
    · simp only [turn, hc, entry, he]
    · simp only [Tokenizer.step, Tokenizer.idle, ha]
      rfl
  · -- The first digit of a move is a part of its operand.
    have hnil : source.toList = a ++ [] ++ c :: r := by rw [h, List.append_nil]
    have hfollows : Follows legacy source _ ⟨legacy, r, _, .moveDigits, some ⟨.movePrint, _, [c]⟩⟩ :=
      follows_operand hnil (by simp) .movePrint (width a)
    rw [List.append_nil] at hfollows
    refine ⟨none, _, _, ?_, ?_, hfollows⟩
    · simp only [turn, hc, entry, he]
    · simp only [Tokenizer.step, Tokenizer.idle, ha]
      rfl
  · refine ⟨some ⟨k, "", width a⟩, _, _, ?_, ?_, follows_past h⟩
    · simp only [turn, hc, entry, he, hk]
    · simp only [Tokenizer.step, Tokenizer.idle, ha]
      rfl
  · refine ⟨none, _, _, ?_, ?_, follows_letter h hs k (width a)⟩
    · simp only [turn, hc, entry, he, hk]
    · simp only [Tokenizer.step, Tokenizer.idle, ha]
      rfl

theorem turn_within {a b r : List Char} {c : Char} (h : source.toList = a ++ b ++ c :: r)
    {s : State} (hs : s ≠ .start) (k : Kind) (offset : Nat) :
    ∃ o u t, turn legacy source ⟨width (a ++ b), s, some ⟨k, offset, width a⟩⟩ = some (o, u) ∧
      Tokenizer.step ⟨legacy, c :: r, width (a ++ b), s, some ⟨k, offset, b.reverse⟩⟩ c r = (o, t) ∧
      Follows legacy source u t := by
  have hc : peek? source (width (a ++ b)) = some c := peek?_width h
  have he := entry_of_ne_start legacy hs (column c)
  rw [toClass_column] at he
  obtain ⟨s', hs', ha⟩ | ha | ha := action_within legacy hs (classify c)
  · rw [ha, Entry.ofAction] at he
    refine ⟨none, _, _, ?_, ?_, follows_operand h hs' k offset⟩
    · simp only [turn, hc, he]
    · simp only [Tokenizer.step, ha]
      rfl
  · rw [ha, Entry.ofAction] at he
    refine ⟨some (k.token b offset), _, _, ?_, ?_, .between h⟩
    · simp only [turn, hc, he, emit_width h]
    · simp only [Tokenizer.step, ha, Tokenizer.emit, Option.map_some, Tokenizer.token_of_seen]
      rfl
  · rw [ha, Entry.ofAction] at he
    have hend : source.toList = a ++ (b ++ [c]) ++ r := by simp [h]
    have hemit := emit_width hend (width (a ++ b) + c.utf8Size) s k offset
    rw [← List.append_assoc, width_concat] at hemit
    refine ⟨some (k.token (b ++ [c]) offset), _, _, ?_, ?_, follows_past h⟩
    · simp only [turn, hc, he, hemit]
    · have hseen : c :: b.reverse = (b ++ [c]).reverse := by simp
      simp only [Tokenizer.step, ha, Tokenizer.emit, Tokenizer.push, Tokenizer.advance,
        Option.map_some, hseen, Tokenizer.token_of_seen]
      rfl

theorem Follows.turn_end (h : Follows legacy source m t) (hr : t.rest = []) :
    ∃ u, m.turn legacy source = some (t.emit.1, u) ∧ Follows legacy source u t.emit.2 := by
  have hc := h.peek?_of_nil hr
  cases h with
  | between h =>
    refine ⟨_, ?_, .between h⟩
    simp only [turn, hc, emit]
    rfl
  | @within a b r s k offset h hs =>
    obtain rfl : r = [] := hr
    refine ⟨_, ?_, .between h⟩
    simp only [turn, hc, width_of_end h, emit_width h, Tokenizer.emit, Option.map_some,
      Tokenizer.token_of_seen]

theorem Follows.turn_step (h : Follows legacy source m t) {c : Char} {r : List Char}
    (hr : t.rest = c :: r) :
    ∃ u, m.turn legacy source = some ((t.step c r).1, u) ∧
      Follows legacy source u (t.step c r).2 := by
  cases h with
  | between h =>
    obtain rfl : _ = c :: r := hr
    obtain ⟨o, u, t, hturn, hstep, hfollows⟩ := turn_between h
    exact ⟨u, by rw [hturn, hstep], by rwa [hstep]⟩
  | within h hs =>
    obtain rfl : _ = c :: r := hr
    obtain ⟨o, u, t, hturn, hstep, hfollows⟩ := turn_within h hs _ _
    exact ⟨u, by rw [hturn, hstep], by rwa [hstep]⟩

theorem Follows.exists_turn (h : Follows legacy source m t) :
    ∃ o u t', m.turn legacy source = some (o, u) ∧ Follows legacy source u t' := by
  cases hr : t.rest with
  | nil =>
    obtain ⟨u, hturn, hfollows⟩ := h.turn_end hr
    exact ⟨_, u, _, hturn, hfollows⟩
  | cons c r =>
    obtain ⟨u, hturn, hfollows⟩ := h.turn_step hr
    exact ⟨_, u, _, hturn, hfollows⟩

/-! No way out is taken. -/

theorem opening_ne_emit (k : Column) : k.opening ≠ .emit ∧ k.opening ≠ .emitWith := by
  cases k <;> simp [Column.opening]

theorem kind?_isSome_of_entry {s : State} {k : Column}
    (h : entry legacy s k = .niladic ∨ ∃ s', entry legacy s k = .command s') :
    k.kind?.isSome := by
  by_cases hs : s = .start
  · subst hs
    cases k <;> simp_all [entry, Column.opening, Column.kind?]
  · rw [entry_of_ne_start legacy hs] at h
    obtain ⟨s', -, ha⟩ | ha | ha := action_within legacy hs k.toClass <;>
      simp [ha, Entry.ofAction] at h

theorem Follows.place (h : Follows legacy source m t) : String.Pos.Raw.IsValid source ⟨m.pos⟩ := by
  cases h with
  | between h => exact isValid_width h
  | within h => exact isValid_width h

theorem Follows.held_iff (h : Follows legacy source m t) : m.held.isSome ↔ m.state ≠ .start := by
  cases h with
  | between h => simp
  | within h hs => simpa using hs

theorem emit_cases {stop : Nat} (h : m.emit source stop = some (o, u)) :
    (m.held = none ∧ o = none ∧ u = { m with state := .start }) ∨
      (m.held.isSome ∧ o.isSome ∧ u = { m with state := .start, held := none }) := by
  rw [emit] at h
  split at h
  · next hheld =>
    obtain ⟨rfl, rfl⟩ := Prod.mk.inj (Option.some.inj h)
    exact .inl ⟨hheld, rfl, rfl⟩
  · next p hheld =>
    obtain ⟨text, -, heq⟩ := Option.map_eq_some_iff.mp h
    obtain ⟨rfl, rfl⟩ := Prod.mk.inj heq
    exact .inr ⟨by rw [hheld]; rfl, rfl, rfl⟩

theorem eq_none_iff_of_emit {stop : Nat} (h : m.emit source stop = some (o, u)) :
    o = none ↔ m.held = none := by
  obtain ⟨hheld, rfl, -⟩ | ⟨hheld, hfound, -⟩ := emit_cases h
  · simp only [hheld]
  · simp only [Option.ne_none_iff_isSome.mpr hheld, Option.ne_none_iff_isSome.mpr hfound]

theorem state_of_stop? {c : Char} {stop : Nat} (hc : peek? source m.pos = some c)
    (h : m.stop? legacy source = some stop) : m.state ≠ .start := by
  intro hs
  simp only [stop?, hc, hs, entry] at h
  split at h
  · next he => exact (opening_ne_emit (column c)).1 he
  · next he => exact (opening_ne_emit (column c)).2 he
  · cases h

theorem turn_forward {c : Char} (hc : peek? source m.pos = some c)
    (ht : m.turn legacy source = some (o, u)) :
    u.pos = m.pos + c.utf8Size ∨ (u.pos = m.pos ∧ m.state ≠ .start ∧ u.state = .start) := by
  simp only [turn, hc] at ht
  split at ht
  case h_2 s he =>
    split at ht <;> obtain ⟨-, rfl⟩ := Prod.mk.inj (Option.some.inj ht) <;> exact .inl rfl
  case h_3 he =>
    split at ht <;> obtain ⟨-, rfl⟩ := Prod.mk.inj (Option.some.inj ht) <;> exact .inl rfl
  case h_6 he =>
    have hstop : m.stop? legacy source = some m.pos := by simp only [stop?, hc, he]
    have hs := state_of_stop? hc hstop
    obtain ⟨-, -, rfl⟩ | ⟨-, -, rfl⟩ := emit_cases ht <;> exact .inr ⟨rfl, hs, rfl⟩
  case h_7 he =>
    obtain ⟨-, -, rfl⟩ | ⟨-, -, rfl⟩ := emit_cases ht <;> exact .inl rfl
  all_goals
    obtain ⟨-, rfl⟩ := Prod.mk.inj (Option.some.inj ht)
    exact .inl rfl

theorem eq_none_iff_of_stop? {stop : Nat} (hstop : m.stop? legacy source = some stop)
    (ht : m.turn legacy source = some (o, u)) : o = none ↔ m.held = none := by
  cases hc : peek? source m.pos with
  | none =>
    simp only [turn, hc] at ht
    exact eq_none_iff_of_emit ht
  | some c =>
    simp only [stop?, hc] at hstop
    split at hstop
    case h_1 he =>
      simp only [turn, hc, he] at ht
      exact eq_none_iff_of_emit ht
    case h_2 he =>
      -- The character is passed first, and what is held stays the same.
      simp only [turn, hc, he] at ht
      have hfound := eq_none_iff_of_emit ht
      exact hfound
    case h_3 => cases hstop

theorem exists_width_of_stop? {a r : List Char} {stop : Nat} (h : source.toList = a ++ r)
    (hpos : m.pos = width a) (hstop : m.stop? legacy source = some stop) :
    ∃ b r', source.toList = a ++ b ++ r' ∧ stop = width (a ++ b) := by
  have hc : peek? source m.pos = r.head? := by rw [hpos, peek?_width h]
  cases r with
  | nil =>
    rw [List.head?_nil] at hc
    simp only [stop?, hc, Option.some.injEq] at hstop
    refine ⟨[], [], by simpa using h, ?_⟩
    rw [← hstop, width_of_end h, List.append_nil]
  | cons c r =>
    rw [List.head?_cons] at hc
    simp only [stop?, hc] at hstop
    split at hstop
    · refine ⟨[], c :: r, by rw [h, List.append_nil], ?_⟩
      rw [← Option.some.inj hstop, hpos, List.append_nil]
    · refine ⟨[c], r, by simp [h], ?_⟩
      rw [← Option.some.inj hstop, hpos, width_concat]
    · cases hstop

theorem Follows.operand (h : Follows legacy source m t) {stop : Nat}
    (hstop : m.stop? legacy source = some stop) {p : Held} (hp : m.held = some p) :
    p.operandStart ≤ stop ∧ String.Pos.Raw.IsValid source ⟨p.operandStart⟩ ∧
      String.Pos.Raw.IsValid source ⟨stop⟩ := by
  cases h with
  | between h => cases hp
  | @within a b r s k offset h hs =>
    obtain rfl := Option.some.inj hp
    obtain ⟨b', r', hsplit, rfl⟩ := exists_width_of_stop? h rfl hstop
    refine ⟨?_, isValid_width (h.trans (List.append_assoc a b r)), isValid_width hsplit⟩
    rw [List.append_assoc, width_append a]
    exact Nat.le_add_right _ _

end Machine

end Galley.Token
