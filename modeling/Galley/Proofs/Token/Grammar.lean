import Mathlib.Computability.Language
import Galley.Proofs.Token.Reading
/-!
The grammar of commands. The transition table reads the longest operand that the grammar allows.
-/
namespace Galley.Token
open Text
open scoped Computability

def letters (p : Char → Bool) : Language Char := {s | ∃ c, p c = true ∧ s = [c]}

def blank : Language Char := letters isBlank

def digit : Language Char := letters isDigit

def sign : Language Char := letters isSign

/-- A sign and any digits, or digits. -/
def number : Language Char := sign * digit∗ + digit * digit∗

def inLine : Language Char := letters (· != '\n')

def inWord : Language Char := letters fun c => c != '\n' && !isBlank c

/-- A character that is printed after a move. -/
def glyph : Language Char := letters fun c => c != '\n' && !isBlank c && !isDigit c

/-- The text of a command of a kind after its letter. Blanks part the two numbers of a line end. -/
def grammar (legacy : Bool) : Kind → Language Char
  | .informEol => blank∗ * (1 + number * (1 + blank * blank∗ * (1 + number)))
  | .charLiteral => 1 + inLine
  | .charNamed => inWord∗
  | .wordSpace => 1
  | .movePrint => digit * digit∗ * (1 + glyph)
  | .textNormal => if legacy then inWord∗ else inLine∗
  | .comment | .drawing | .setColour | .textTracked | .deviceControl => inLine∗
  | .beginPage | .setSize | .setFont | .charIndexed | .moveAbsH | .moveAbsV | .moveRelH | .moveRelV =>
    blank∗ * (1 + sign) * digit∗

/-- The longest text of a language at the front of a text. -/
structure Longest (l : Language Char) (s r : List Char) : Prop where
  front : r <+: s
  mem : r ∈ l
  length_le : ∀ q ∈ l, q <+: s → q.length ≤ r.length

/-! What a state takes in. -/

def State.Fits (legacy : Bool) : State → List Char → Prop
  | _, [] => True
  | s, c :: r =>
    match action legacy s (classify c) with
    | .goto s' => s'.Fits legacy r
    | .emitWith => r = []
    | _ => False

theorem State.fits_cons {legacy : Bool} {s : State} {c : Char} {q : List Char} :
    s.Fits legacy (c :: q) ↔
      (∃ s', action legacy s (classify c) = .goto s' ∧ s'.Fits legacy q) ∨
        (action legacy s (classify c) = .emitWith ∧ q = []) := by
  rw [Fits]
  cases action legacy s (classify c) <;> simp

theorem State.fits_consume (legacy : Bool) (s : State) (r : List Char) :
    s.Fits legacy (s.consume legacy r).1 := by
  induction r generalizing s with
  | nil => trivial
  | cons c r ih =>
    rw [consume]
    cases h : action legacy s (classify c) with
    | goto s' => exact fits_cons.mpr (.inl ⟨s', h, ih s'⟩)
    | emitWith => exact fits_cons.mpr (.inr ⟨h, rfl⟩)
    | _ => trivial

theorem State.length_le_of_fits {legacy : Bool} {s : State} {q r : List Char}
    (h : s.Fits legacy q) (hq : q <+: r) : q.length ≤ (s.consume legacy r).1.length := by
  induction q generalizing s r with
  | nil => exact Nat.zero_le _
  | cons c q ih =>
    obtain ⟨t, rfl⟩ := hq
    rw [List.cons_append, consume]
    obtain ⟨s', ha, hfits⟩ | ⟨ha, rfl⟩ := fits_cons.mp h
    · rw [ha]
      exact Nat.succ_le_succ (ih hfits (List.prefix_append q t))
    · simp [ha]

def State.language (legacy : Bool) (s : State) : Language Char := {q | s.Fits legacy q}

theorem State.longest_consume (legacy : Bool) (s : State) (r : List Char) :
    Longest (s.language legacy) r (s.consume legacy r).1 where
  front := ⟨_, s.consume_append legacy r⟩
  mem := s.fits_consume legacy r
  length_le := fun _ hq hr => length_le_of_fits hq hr

/-! The languages of the states solve linear equations. -/

theorem nil_mem_letters_mul (p : Char → Bool) (l : Language Char) : [] ∉ letters p * l := by
  rintro ⟨a, ⟨c, -, rfl⟩, b, -, h⟩
  simp at h

theorem nil_not_mem_letters (p : Char → Bool) : [] ∉ letters p := by
  rintro ⟨c, -, h⟩
  simp at h

theorem cons_mem_letters_mul (p : Char → Bool) (l : Language Char) (c : Char) (r : List Char) :
    c :: r ∈ letters p * l ↔ p c = true ∧ r ∈ l := by
  constructor
  · rintro ⟨a, ⟨x, hx, rfl⟩, b, hb, h⟩
    obtain ⟨rfl, rfl⟩ := List.cons.inj h
    exact ⟨hx, hb⟩
  · rintro ⟨hc, hr⟩
    exact ⟨[c], ⟨c, hc, rfl⟩, r, hr, rfl⟩

theorem nil_mem_language (legacy : Bool) (s : State) : [] ∈ s.language legacy := trivial

theorem cons_mem_language (legacy : Bool) (s : State) (c : Char) (r : List Char) :
    c :: r ∈ s.language legacy ↔
      match action legacy s (classify c) with
      | .goto s' => r ∈ s'.language legacy
      | .emitWith => r = []
      | _ => False :=
  Iff.rfl

theorem cons_mem_letters (p : Char → Bool) (c : Char) (r : List Char) :
    c :: r ∈ letters p ↔ p c = true ∧ r = [] := by
  have h := cons_mem_letters_mul p 1 c r
  rwa [mul_one] at h

theorem isDigit_of_mem_glyph {x : Char} (h : [x] ∈ glyph) : isDigit x = false := by
  have hx := ((cons_mem_letters _ x []).mp h).1
  simp only [Bool.and_eq_true, Bool.not_eq_true'] at hx
  exact hx.2

theorem mem_letters_kstar {p : Char → Bool} {q : List Char} :
    q ∈ (letters p)∗ ↔ ∀ c ∈ q, p c = true := by
  induction q with
  | nil => simp [Language.nil_mem_kstar]
  | cons c q ih =>
    rw [← Language.one_add_self_mul_kstar_eq_kstar, Language.mem_add, cons_mem_letters_mul, ih]
    simp

theorem language_of_loop {legacy : Bool} {s : State} {p : Char → Bool} {l : Language Char}
    (h : s.language legacy = letters p * s.language legacy + l) :
    s.language legacy = (letters p)∗ * l :=
  (Language.self_eq_mul_add_iff (nil_not_mem_letters p)).mp h

theorem ext_cons {l m : Language Char} (hl : [] ∈ l) (hm : [] ∈ m)
    (h : ∀ c r, c :: r ∈ l ↔ c :: r ∈ m) : l = m := by
  ext q
  cases q with
  | nil => exact iff_of_true hl hm
  | cons c r => exact h c r

theorem nil_mem_add_right {l m : Language Char} (h : [] ∈ m) : [] ∈ l + m := .inr h

theorem nil_mem_one_add (l : Language Char) : [] ∈ 1 + l := .inl rfl

theorem language_digits {legacy : Bool} {s : State}
    (h : ∀ k, action legacy s k = match k with | .digit => .goto s | _ => .emit) :
    s.language legacy = digit∗ := by
  have hloop : s.language legacy = digit * s.language legacy + 1 := by
    refine ext_cons (nil_mem_language _ _) (nil_mem_add_right rfl) fun c r => ?_
    simp only [Language.mem_add, Language.mem_one, digit, cons_mem_letters_mul, cons_mem_language,
      ← classify_eq_digit, h]
    cases classify c <;> simp
  rw [language_of_loop hloop, mul_one]
  rfl

theorem language_lead {legacy : Bool} {s t : State}
    (h : ∀ k, action legacy s k =
      match k with | .blank => .goto s | .sign => .goto t | .digit => .goto t | _ => .emit) :
    s.language legacy = blank∗ * (1 + (sign + digit) * t.language legacy) := by
  apply language_of_loop
  refine ext_cons (nil_mem_language _ _) (nil_mem_add_right (nil_mem_one_add _)) fun c r => ?_
  simp only [Language.mem_add, Language.mem_one, add_mul, sign, digit, cons_mem_letters_mul,
    cons_mem_language, ← classify_eq_blank, ← classify_eq_sign, ← classify_eq_digit, h]
  cases classify c <;> simp

theorem language_eolFirst (legacy : Bool) :
    State.eolFirst.language legacy = digit∗ * (1 + blank * State.eolGap.language legacy) := by
  apply language_of_loop
  refine ext_cons (nil_mem_language _ _) (nil_mem_add_right (nil_mem_one_add _)) fun c r => ?_
  simp only [Language.mem_add, Language.mem_one, blank, cons_mem_letters_mul, cons_mem_language,
    ← classify_eq_blank, ← classify_eq_digit]
  cases classify c <;> simp [action]

theorem language_moveDigits (legacy : Bool) :
    State.moveDigits.language legacy = digit∗ * (1 + glyph) := by
  apply language_of_loop
  refine ext_cons (nil_mem_language _ _) (nil_mem_add_right (nil_mem_one_add _)) fun c r => ?_
  simp only [Language.mem_add, Language.mem_one, glyph, cons_mem_letters_mul, cons_mem_letters,
    cons_mem_language, Bool.and_eq_true, bne_iff_ne, Bool.not_eq_true', ← Bool.not_eq_true,
    ← classify_eq_endOfLine, ← classify_eq_blank, ← classify_eq_digit, ne_eq]
  cases classify c <;> simp [action]

theorem language_literal (legacy : Bool) : State.literal.language legacy = 1 + inLine := by
  refine ext_cons (nil_mem_language _ _) (nil_mem_one_add _) fun c r => ?_
  simp only [Language.mem_add, Language.mem_one, inLine, cons_mem_letters, cons_mem_language,
    bne_iff_ne, ne_eq, ← classify_eq_endOfLine]
  cases classify c <;> simp [action]

theorem language_inWord {legacy : Bool} {s : State}
    (h : ∀ k, action legacy s k = match k with | .endOfLine => .emit | .blank => .emit | _ => .goto s) :
    s.language legacy = inWord∗ := by
  have hloop : s.language legacy = inWord * s.language legacy + 1 := by
    refine ext_cons (nil_mem_language _ _) (nil_mem_add_right rfl) fun c r => ?_
    simp only [Language.mem_add, Language.mem_one, inWord, cons_mem_letters_mul, cons_mem_language,
      Bool.and_eq_true, bne_iff_ne, ne_eq, Bool.not_eq_true', ← Bool.not_eq_true,
      ← classify_eq_endOfLine, ← classify_eq_blank, h]
    cases classify c <;> simp
  rw [language_of_loop hloop, mul_one]
  rfl

theorem language_inLine {legacy : Bool} {s : State}
    (h : ∀ k, action legacy s k = match k with | .endOfLine => .emit | _ => .goto s) :
    s.language legacy = inLine∗ := by
  have hloop : s.language legacy = inLine * s.language legacy + 1 := by
    refine ext_cons (nil_mem_language _ _) (nil_mem_add_right rfl) fun c r => ?_
    simp only [Language.mem_add, Language.mem_one, inLine, cons_mem_letters_mul, cons_mem_language,
      bne_iff_ne, ne_eq, ← classify_eq_endOfLine, h]
    cases classify c <;> simp
  rw [language_of_loop hloop, mul_one]
  rfl

theorem number_eq : number = (sign + digit) * digit∗ := (add_mul _ _ _).symm

theorem one_add_number : 1 + number = (1 + sign) * digit∗ :=
  calc
    1 + number = sign * digit∗ + (1 + digit * digit∗) := add_left_comm _ _ _
    _ = sign * digit∗ + digit∗ := by rw [Language.one_add_self_mul_kstar_eq_kstar]
    _ = (1 + sign) * digit∗ := by rw [add_mul, one_mul, add_comm]

theorem language_numberLead (legacy : Bool) :
    State.numberLead.language legacy = blank∗ * (1 + sign) * digit∗ := by
  have hlead := @language_lead legacy .numberLead .number (by intro k; cases k <;> rfl)
  have hdigits := @language_digits legacy .number (by intro k; cases k <;> rfl)
  rw [hlead, hdigits, ← number_eq, one_add_number, mul_assoc]

theorem language_eolLead (legacy : Bool) :
    State.eolLead.language legacy =
      blank∗ * (1 + number * (1 + blank * blank∗ * (1 + number))) := by
  have hlead := @language_lead legacy .eolLead .eolFirst (by intro k; cases k <;> rfl)
  have hgap := @language_lead legacy .eolGap .eolSecond (by intro k; cases k <;> rfl)
  have hdigits := @language_digits legacy .eolSecond (by intro k; cases k <;> rfl)
  -- What is left is to gather the first character of each number with its digits.
  rw [hlead, language_eolFirst, hgap, hdigits, ← mul_assoc (sign + digit), ← number_eq, ← mul_assoc blank]

theorem language_opening {legacy : Bool} {k : Kind} {s : State} (h : k.opening = .command k s) :
    s.language legacy = grammar legacy k := by
  cases k <;> simp only [Kind.opening, reduceCtorEq, Action.command.injEq, true_and] at h <;> subst h
  case charNamed => exact language_inWord (by intro k; cases k <;> rfl)
  case charLiteral => exact language_literal legacy
  case informEol => exact language_eolLead legacy
  case textNormal =>
    cases legacy with
    | false => exact language_inLine (by intro k; cases k <;> rfl)
    | true => exact language_inWord (by intro k; cases k <;> rfl)
  case comment | drawing | setColour | textTracked | deviceControl =>
    exact language_inLine (by intro k; cases k <;> rfl)
  all_goals exact language_numberLead legacy

/-! The longest operand. -/

theorem Longest.congr {l m : Language Char} {s r : List Char} (h : Longest l s r) (hm : l = m) :
    Longest m s r := hm ▸ h

theorem longest_one (s : List Char) : Longest 1 s [] where
  front := List.nil_prefix
  mem := rfl
  length_le := by
    rintro q rfl -
    exact Nat.le_refl 0

theorem Longest.cons {p : Char → Bool} {l : Language Char} {c : Char} {s r : List Char}
    (hc : p c = true) (h : Longest l s r) : Longest (letters p * l) (c :: s) (c :: r) where
  front := (List.prefix_cons_inj c).mpr h.front
  mem := (cons_mem_letters_mul p l c r).mpr ⟨hc, h.mem⟩
  length_le := by
    intro q hq hs
    cases q with
    | nil => exact absurd hq (nil_mem_letters_mul p l)
    | cons x q =>
      obtain ⟨rfl, htail⟩ := List.cons_prefix_cons.mp hs
      exact Nat.succ_le_succ (h.length_le q ((cons_mem_letters_mul p l x q).mp hq).2 htail)

/-- A command takes in the longest operand that the grammar of its kind allows. -/
theorem longest_of_command? {legacy : Bool} {s a b : List Char} {k : Kind}
    (h : command? legacy s = some (k, a, b)) : Longest (grammar legacy k) (a ++ b) a := by
  obtain
    ⟨rfl, rfl⟩ | ⟨c, r, st, rfl, -, hop, -, rfl, rfl⟩ | ⟨c, r, rfl, hd, rfl, rfl, rfl⟩ :=
    command?_cases h
  · exact longest_one b
  · rw [State.consume_append]
    exact (st.longest_consume legacy r).congr (language_opening hop)
  · have hlong := State.longest_consume legacy .moveDigits r
    rw [language_moveDigits] at hlong
    rw [List.cons_append, State.consume_append]
    exact (hlong.cons hd).congr (mul_assoc _ _ _).symm

end Galley.Token
