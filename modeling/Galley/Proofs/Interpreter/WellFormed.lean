import Galley.Proofs.Interpreter.Places
/-!
Commands whose operands are well formed. They are the ones that are executed without a problem,
given the positions at which fonts are mounted.
-/
namespace Galley

namespace Token

/-- The text is a device number, blanks around it apart. -/
def Reads (s : List Char) (n : Int) : Prop := Number.coordinate? (Text.trim s) = some n

def IsNumber (s : List Char) : Prop := ∃ n, Reads s n

def IsFinite (s : List Char) : Prop :=
  ∃ x, Number.float? (Text.trim s) = some x ∧ x.isFinite = true

def schemeLetters : List Char := ['c', 'd', 'g', 'k', 'r']

/-- The text is the letter of a colour scheme and finite numbers. -/
def IsColour (s : List Char) : Prop :=
  ∃ letter rest, Text.trimStart s = letter :: rest ∧ letter ∈ schemeLetters ∧
    ∀ w ∈ Text.words rest, IsFinite w

def shapeLetters : List Char := ['l', 'c', 'C', 'e', 'E', 'a', '~', 'p', 'P', 't']

def IsDrawing : List Char → Prop
  | [] => False
  | 'f' :: s => IsFinite ((Text.words s)[0]?.getD [])
  | 'F' :: s => IsColour s
  | letter :: s => letter ∈ shapeLetters ∧ ∀ w ∈ Text.words s, IsNumber w

def mount? (t : Token) : Option (Int × String) :=
  if t.kind = .deviceControl then
    match Control.parse t.operand with
    | .mountFont n name => some (n, name)
    | _ => none
  else none

/-- A font is mounted at a position by one of the commands. -/
def Mounts (before : List Token) (n : Int) : Prop := ∃ b ∈ before, ∃ name, b.mount? = some (n, name)

/-- The operand is one of its kind. That of a font is the position of one mounted before. -/
def WellFormed (before : List Token) (t : Token) : Prop :=
  let s := t.operand.toList
  match t.kind with
  | .beginPage | .setSize | .moveAbsH | .moveRelH | .moveAbsV | .moveRelV => IsNumber s
  | .setFont => ∃ n, Reads s n ∧ Mounts before n
  | .charIndexed => ∃ n, Reads s n ∧ 0 ≤ n ∧ n.toNat.isValidChar
  | .movePrint => IsNumber (s.takeWhile Number.isDigit)
  | .informEol => IsNumber ((Text.words s)[0]?.getD []) ∧ IsNumber ((Text.words s)[1]?.getD [])
  | .textTracked => IsNumber (s.takeWhile fun c => !Text.isSpace c)
  | .charNamed => ∃ glyph, Glyph.resolve t.operand = some glyph
  | .setColour => IsColour s
  | .drawing => IsDrawing s
  | .comment | .charLiteral | .wordSpace | .textNormal | .deviceControl => True

end Token

theorem Text.cut_fst (p : Char → Bool) (s : List Char) :
    ((Text.cut p s).getD (s, [])).1 = s.takeWhile fun c => !p c := by
  induction s with
  | nil => rfl
  | cons c s ih =>
    by_cases hc : p c = true
    · simp [Text.cut, hc]
    · rw [Text.cut, if_neg hc, List.takeWhile_cons_of_pos (by simpa using hc), ← ih]
      cases Text.cut p s <;> rfl

theorem Colour.mem_schemeLetters {letter : Char} {args : List Float}
    (h : (Colour.ofScheme? (String.ofList [letter]) args).isSome) :
    letter ∈ Token.schemeLetters := by
  have hletter {c : Char} (hs : String.ofList [letter] = String.ofList [c])
      (hc : c ∈ Token.schemeLetters) : letter ∈ Token.schemeLetters := by
    rw [String.ofList_inj, List.singleton_inj] at hs
    rwa [hs]
  unfold Colour.ofScheme? at h
  split at h
  case h_1 hs => exact hletter (c := 'd') hs (by decide)
  case h_2 hs => exact hletter (c := 'c') hs (by decide)
  case h_3 hs => exact hletter (c := 'k') hs (by decide)
  case h_4 hs => exact hletter (c := 'r') hs (by decide)
  case h_5 hs => exact hletter (c := 'g') hs (by decide)
  case h_6 => cases h

theorem Colour.ofScheme?_isSome (s : List Char) (args : List Float) :
    (Colour.ofScheme? (String.ofList (s.take 1)) args).isSome ↔
      ∃ letter rest, s = letter :: rest ∧ letter ∈ Token.schemeLetters := by
  cases s with
  | nil => exact ⟨nofun, nofun⟩
  | cons letter rest =>
    constructor
    · exact fun h => ⟨letter, rest, rfl, mem_schemeLetters h⟩
    · rintro ⟨_, _, hs, hmem⟩
      obtain ⟨rfl, rfl⟩ := List.cons.inj hs
      simp only [Token.schemeLetters, List.mem_cons, List.not_mem_nil, or_false] at hmem
      obtain rfl | rfl | rfl | rfl | rfl := hmem <;> rfl

theorem Drawing.ofLetter?_isSome (letter : Char) (args : List Int) :
    (Drawing.ofLetter? letter args).isSome ↔ letter ∈ Token.shapeLetters := by
  unfold Drawing.ofLetter?
  split <;> simp_all [Token.shapeLetters]

namespace Interpreter
open Token

/-! Operands are read without a problem just if they are well formed. -/

theorem readInt_snd_eq_nil {s : List Char} : (readInt s).2 = [] ↔ IsNumber s := by
  rw [readInt, IsNumber]
  unfold Reads
  cases Number.coordinate? (Text.trim s) <;> simp

theorem readFloat_snd_eq_nil {s : List Char} : (readFloat s).2 = [] ↔ IsFinite s := by
  rw [readFloat, IsFinite]
  cases Number.float? (Text.trim s) with
  | none => simp
  | some x => by_cases hx : x.isFinite = true <;> simp [Option.filter, hx]

theorem readAll_snd_eq_nil {α : Type} {read : List Char → α × Problems} {ws : List (List Char)} :
    (readAll read ws).2 = [] ↔ ∀ w ∈ ws, (read w).2 = [] := List.flatMap_eq_nil_iff

theorem readColour_snd_eq_nil {s : List Char} : (readColour s).2 = [] ↔ IsColour s := by
  have hscheme := Colour.ofScheme?_isSome (Text.trimStart s)
  rw [readColour, IsColour]
  generalize Text.trimStart s = s at hscheme ⊢
  dsimp only
  cases hc : Colour.ofScheme? (String.ofList (s.take 1))
      (readAll readFloat (Text.words (s.drop 1))).1 with
  | none =>
    have hletter := mt (hscheme _).mpr (by rw [hc]; simp)
    simp only [List.append_eq_nil_iff, List.cons_ne_nil, and_false, false_iff]
    rintro ⟨letter, rest, hs, hmem, -⟩
    exact hletter ⟨letter, rest, hs, hmem⟩
  | some c =>
    obtain ⟨letter, rest, rfl, hmem⟩ := (hscheme _).mp (by rw [hc]; rfl)
    simp only [List.drop_succ_cons, List.drop_zero, readAll_snd_eq_nil, readFloat_snd_eq_nil]
    constructor
    · exact fun hwords => ⟨letter, rest, rfl, hmem, hwords⟩
    · rintro ⟨_, _, hs, -, hwords⟩
      obtain ⟨-, rfl⟩ := List.cons.inj hs
      exact hwords

theorem problems_drawShape {st : Interpreter} {letter : Char} {s : List Char} :
    (st.drawShape letter s).problems = [] ↔
      letter ∈ shapeLetters ∧ ∀ w ∈ Text.words s, IsNumber w := by
  have hletter := Drawing.ofLetter?_isSome letter (readAll readInt (Text.words s)).1
  rw [← hletter, drawShape]
  dsimp only
  cases Drawing.ofLetter? letter (readAll readInt (Text.words s)).1 with
  | none => simp
  | some d => simp [readAll_snd_eq_nil, readInt_snd_eq_nil]

theorem problems_drawing {st : Interpreter} {s : List Char} :
    (st.drawing s).problems = [] ↔ IsDrawing s := by
  unfold drawing
  split
  case h_1 => simp [IsDrawing]
  case h_2 => exact readFloat_snd_eq_nil
  case h_3 => exact readColour_snd_eq_nil
  case h_4 letter s hf hF =>
    rw [IsDrawing]
    · exact problems_drawShape
    · exact hf
    · exact hF

theorem problems_namedGlyph {st : Interpreter} {name : String} :
    (st.namedGlyph name).problems = [] ↔ ∃ glyph, Glyph.resolve name = some glyph := by
  rw [namedGlyph]
  cases Glyph.resolve name <;> simp

theorem exists_reads_and {s : List Char} {P : Int → Prop} :
    (∃ n, Reads s n ∧ P n) ↔ (readInt s).2 = [] ∧ P (readInt s).1 := by
  rw [readInt]
  unfold Reads
  cases Number.coordinate? (Text.trim s) <;> simp

theorem indexed?_isSome (n : Int) : (indexed? n).isSome ↔ 0 ≤ n ∧ n.toNat.isValidChar := by
  rw [indexed?, Text.char?]
  split
  case isTrue h => simp only [h, true_and]; split <;> simp [*]
  case isFalse h => simp [h]

theorem problems_indexedGlyph {st : Interpreter} {s : List Char} :
    (st.indexedGlyph s).problems = [] ↔ ∃ n, Reads s n ∧ 0 ≤ n ∧ n.toNat.isValidChar := by
  simp only [← indexed?_isSome, exists_reads_and]
  rw [indexedGlyph]
  dsimp only
  cases indexed? (readInt s).1 <;> simp

theorem problems_selectFont {st : Interpreter} {s : List Char} :
    (st.selectFont s).problems = [] ↔ ∃ n, Reads s n ∧ (st.mounted? n).isSome := by
  rw [exists_reads_and, selectFont]
  dsimp only
  cases st.mounted? (readInt s).1 <;> simp

def Knows (st : Interpreter) (before : List Token) : Prop :=
  ∀ n, (st.mounted? n).isSome ↔ Mounts before n

theorem problems_perform {st : Interpreter} {before : List Token} (h : st.Knows before) (t : Token) :
    (st.perform t).problems = [] ↔ t.WellFormed before := by
  unfold perform WellFormed
  dsimp only
  cases t.kind <;> dsimp only
  case setFont => simp [problems_selectFont, h _]
  case charNamed => exact problems_namedGlyph
  case charIndexed => exact problems_indexedGlyph
  case movePrint => exact readInt_snd_eq_nil
  case informEol => simp [endOfLine, readInt_snd_eq_nil]
  case drawing => exact problems_drawing
  case setColour => exact readColour_snd_eq_nil
  case textTracked => simp [trackedText, readInt_snd_eq_nil, Text.cut_fst]
  case comment => simp
  case charLiteral => simp
  case wordSpace => simp
  case textNormal => simp
  case deviceControl => simp [Effect.ofPair]
  all_goals exact readInt_snd_eq_nil

end Interpreter
end Galley
