import Mathlib.Tactic.SplitIfs
import Galley.Text.Space
import Galley.Token.Table
/-! The classes of characters told apart: command letters, line ends, blanks, digits and signs. -/
namespace Galley.Token

/-- The letters that begin a command. -/
def commandLetters : List Char :=
  ['p', 's', 'f', 'c', 'C', 'N', 'H', 'V', 'h', 'v', 'n', 'w', 'D', 'm', 't', 'u', 'x', '#']

def isSign (c : Char) : Bool := c = '-' || c = '+'

theorem letter?_of_ofLetter? {c : Char} {k : Kind} (h : Kind.ofLetter? c = some k) :
    k.letter? = some c := by
  unfold Kind.ofLetter? at h
  split at h
  case h_19 => exact absurd h (by simp)
  all_goals
    obtain rfl := Option.some.inj h
    rfl

theorem ofLetter?_of_letter? {c : Char} {k : Kind} (h : k.letter? = some c) :
    Kind.ofLetter? c = some k := by
  cases k
  case movePrint => exact absurd h (by simp [Kind.letter?])
  all_goals
    obtain rfl := Option.some.inj h
    rfl

theorem mem_commandLetters {c : Char} : c ∈ commandLetters ↔ ∃ k, Kind.ofLetter? c = some k := by
  constructor
  · intro h
    have hall : commandLetters.all (fun x => (Kind.ofLetter? x).isSome) = true := by decide
    exact Option.isSome_iff_exists.mp (List.all_eq_true.mp hall c h)
  · rintro ⟨k, h⟩
    have hl := letter?_of_ofLetter? h
    cases k
    case movePrint => exact absurd hl (by simp [Kind.letter?])
    all_goals
      obtain rfl := Option.some.inj hl
      decide

theorem ofLetter?_eq_none {c : Char} (h : c ∉ commandLetters) : Kind.ofLetter? c = none := by
  cases hk : Kind.ofLetter? c with
  | none => rfl
  | some k => exact absurd (mem_commandLetters.mpr ⟨k, hk⟩) h

/-! No character has two roles. -/

theorem isBlank_iff {c : Char} :
    isBlank c = true ↔ c = ' ' ∨ c = '\t' ∨ c = '\r' ∨ c = '\x0b' ∨ c = '\x0c' := by
  simp [isBlank, or_assoc]

theorem letter_roles {c : Char} (h : c ∈ commandLetters) :
    c ≠ '\n' ∧ isBlank c = false ∧ isDigit c = false ∧ isSign c = false := by
  have hall : commandLetters.all
      (fun x => x != '\n' && !isBlank x && !isDigit x && !isSign x) = true := by decide
  simpa [and_assoc] using List.all_eq_true.mp hall c h

theorem isDigit_of_isBlank {c : Char} (h : isBlank c = true) : isDigit c = false := by
  obtain rfl | rfl | rfl | rfl | rfl := isBlank_iff.mp h <;> decide

theorem isSpace_of_isBlank {c : Char} (h : isBlank c = true) : Text.isSpace c = true := by
  obtain rfl | rfl | rfl | rfl | rfl := isBlank_iff.mp h <;> decide

theorem isSign_iff {c : Char} : isSign c = true ↔ c = '-' ∨ c = '+' := by
  simp [isSign]

theorem isSpace_of_isSign {c : Char} (h : isSign c = true) : Text.isSpace c = false := by
  obtain rfl | rfl := isSign_iff.mp h <;> decide

theorem isSpace_of_isDigit {c : Char} (h : isDigit c = true) : Text.isSpace c = false := by
  obtain ⟨hlow, hhigh⟩ : 48 ≤ c.toNat ∧ c.toNat ≤ 57 := by
    simpa [isDigit, Char.le_def, UInt32.le_iff_toNat_le] using h
  simp only [Text.isSpace, Bool.or_eq_false_iff, Bool.and_eq_false_iff, decide_eq_false_iff_not,
    beq_eq_false_iff_ne]
  omega

/-! Classes tell the roles. -/

def Class.Role (c : Char) : Class → Prop
  | .endOfLine => c = '\n'
  | .blank => isBlank c = true
  | .digit => isDigit c = true
  | .sign => isSign c = true
  | .command k => Kind.ofLetter? c = some k
  | .letter => True
  | .other => True

theorem classify_of_not_letter {c : Char} (h : Kind.ofLetter? c = none) :
    classify c =
      if c = '\n' then .endOfLine
      else if isBlank c then .blank
      else if isDigit c then .digit
      else if isSign c then .sign
      else if isLetter c then .letter
      else .other := by
  simp [classify, h, isSign]

theorem role_classify (c : Char) : (classify c).Role c := by
  cases h : Kind.ofLetter? c with
  | some k =>
    rw [classify, h]
    exact h
  | none =>
    rw [classify_of_not_letter h]
    split_ifs <;> first | assumption | trivial

theorem role_of_classify {c : Char} {k : Class} (h : classify c = k) : k.Role c :=
  h ▸ role_classify c

theorem classify_eq_command {c : Char} {k : Kind} :
    classify c = .command k ↔ Kind.ofLetter? c = some k := by
  constructor
  · exact role_of_classify
  · intro h
    simp [classify, h]

theorem classify_eq_endOfLine {c : Char} : classify c = .endOfLine ↔ c = '\n' := by
  constructor
  · exact role_of_classify
  · rintro rfl
    rfl

theorem classify_eq_blank {c : Char} : classify c = .blank ↔ isBlank c = true := by
  constructor
  · exact role_of_classify
  · intro h
    obtain rfl | rfl | rfl | rfl | rfl := isBlank_iff.mp h <;> rfl

theorem classify_eq_sign {c : Char} : classify c = .sign ↔ isSign c = true := by
  constructor
  · exact role_of_classify
  · intro h
    obtain rfl | rfl := isSign_iff.mp h <;> rfl

theorem classify_eq_digit {c : Char} : classify c = .digit ↔ isDigit c = true := by
  constructor
  · exact role_of_classify
  · intro h
    have hl : Kind.ofLetter? c = none := by
      apply ofLetter?_eq_none
      intro hc
      simp [(letter_roles hc).2.2.1] at h
    have hn : c ≠ '\n' := by
      rintro rfl
      exact absurd h (by decide)
    have hb : ¬ isBlank c = true := fun hb => by simp [isDigit_of_isBlank hb] at h
    rw [classify_of_not_letter hl, if_neg hn, if_neg hb, if_pos h]

end Galley.Token
