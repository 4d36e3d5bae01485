import Galley.Token.Table
import Galley.Text.Space
/-!
Cutting source text into tokens. Nothing fails: characters between commands that cannot begin one
are passed over, and an operand that is cut short is kept as it is.
-/
namespace Galley.Token

/-- A command whose operand is still being read; its characters are kept latest first. -/
structure Pending where
  kind : Kind
  offset : Nat
  seen : List Char
  deriving DecidableEq

/-- A number followed by no character to print is a move and nothing more. -/
def settle (k : Kind) (operand : List Char) : Kind :=
  if k = .movePrint ∧ (operand.getLast?.map isDigit).getD false then .moveRelH else k

def Pending.token (p : Pending) : Token :=
  let operand := Text.trim p.seen.reverse
  ⟨settle p.kind operand, String.ofList operand, p.offset⟩

structure Tokenizer where
  /-- Whether a text command ends at the first blank. -/
  legacy : Bool
  rest : List Char
  /-- The byte at which the rest begins. -/
  pos : Nat
  state : State
  pending : Option Pending
  deriving DecidableEq

namespace Tokenizer

def ofString (legacy : Bool) (source : String) : Tokenizer :=
  ⟨legacy, source.toList, 0, .start, none⟩

def emit (t : Tokenizer) : Option Token × Tokenizer :=
  (t.pending.map Pending.token, { t with state := .start, pending := none })

def advance (t : Tokenizer) (c : Char) (r : List Char) : Tokenizer :=
  { t with rest := r, pos := t.pos + c.utf8Size }

def push (t : Tokenizer) (c : Char) : Tokenizer :=
  { t with pending := t.pending.map fun p => { p with seen := c :: p.seen } }

def step (t : Tokenizer) (c : Char) (r : List Char) : Option Token × Tokenizer :=
  match action t.legacy t.state (classify c) with
  | .skip => (none, t.advance c r)
  | .command k s => (none, { t.advance c r with state := s, pending := some ⟨k, t.pos, []⟩ })
  | .niladic k => (some ⟨k, "", t.pos⟩, t.advance c r)
  | .beginMove =>
    (none, { t.advance c r with state := .moveDigits, pending := some ⟨.movePrint, t.pos, [c]⟩ })
  | .goto s => (none, { (t.push c).advance c r with state := s })
  | .emit => t.emit
  | .emitWith => ((t.push c).advance c r).emit

/-- Every step uses up a character or goes back to the start. -/
def measure (t : Tokenizer) : Nat :=
  2 * t.rest.length + if t.state = .start ∧ t.pending = none then 0 else 1

theorem opening_ne_emit (k : Kind) : k.opening ≠ .emit := by
  cases k <;> simp [Kind.opening]

theorem action_start_ne_emit (l : Bool) (c : Class) : action l .start c ≠ .emit := by
  cases c <;> simp [action, opening_ne_emit]

theorem measure_step (t : Tokenizer) (c : Char) (r : List Char) (h : t.rest = c :: r) :
    (t.step c r).2.measure < t.measure := by
  have hs : 2 * r.length + 2 ≤ t.measure := by simp [measure, h]; omega
  have hlt : ∀ u : Tokenizer, u.rest = r → u.measure < t.measure := by
    intro u hu
    have : u.measure ≤ 2 * r.length + 1 := by simp only [measure, hu]; split <;> omega
    omega
  unfold step
  split
  case h_6 he =>
    have hne : t.state ≠ .start := fun hst => action_start_ne_emit _ _ (hst ▸ he)
    simp [emit, measure, hne]
  all_goals exact hlt _ rfl

def next (t : Tokenizer) : Option Token × Tokenizer :=
  match h : t.rest with
  | [] => t.emit
  | c :: r =>
    match hs : t.step c r with
    | (some token, u) => (some token, u)
    | (none, u) =>
      have : u.measure < t.measure := by simpa [hs] using measure_step t c r h
      u.next
termination_by t.measure

theorem measure_next (t : Tokenizer) {k : Token} {u : Tokenizer} (h : t.next = (some k, u)) :
    u.measure < t.measure := by
  fun_induction next t with
  | case1 t hr =>
    cases hp : t.pending with
    | none => simp [emit, hp] at h
    | some p =>
      obtain ⟨_, rfl⟩ := Prod.mk.inj h
      simp [measure, hp]
  | case2 t c r hr token v hs =>
    obtain ⟨_, rfl⟩ := Prod.mk.inj h
    simpa [hs] using measure_step t c r hr
  | case3 t c r hr v hs hlt ih => exact Nat.lt_trans (ih h) hlt

def tokens (t : Tokenizer) : List Token :=
  match h : t.next with
  | (none, _) => []
  | (some k, u) =>
    have : u.measure < t.measure := measure_next t h
    k :: u.tokens
termination_by t.measure

end Tokenizer

def tokenize (legacy : Bool) (source : String) : List Token :=
  (Tokenizer.ofString legacy source).tokens

end Galley.Token
