import Mathlib.Data.List.Infix
import Galley.Proofs.Number.Numeral
import Galley.Proofs.Pdf.Writing
/-!
The ways to encode a text as a string: as it is, with parentheses escaped or balanced, or as bytes
of UTF-8 or UTF-16, which are written as octal escapes or in base 16. Each is read as the text.
-/
namespace Galley.Pdf

/-! Texts as bytes. -/

def utf16Units (c : Char) : List Nat :=
  if c.toNat < 0x10000 then [c.toNat]
  else [0xD800 + (c.toNat - 0x10000) / 0x400, 0xDC00 + (c.toNat - 0x10000) % 0x400]

def bigEndian (n : Nat) : List UInt8 := [UInt8.ofNat (n / 256), UInt8.ofNat (n % 256)]

/-- A text in UTF-16 behind a byte order mark. -/
def utf16 (s : List Char) : List UInt8 := 0xFE :: 0xFF :: (s.flatMap utf16Units).flatMap bigEndian

theorem bigEndianPairs_flatMap {ns : List Nat} (h : ∀ n ∈ ns, n < 0x10000) :
    Text.bigEndianPairs (ns.flatMap bigEndian) = ns := by
  induction ns with
  | nil => rfl
  | cons n ns ih =>
    have hn : n < 0x10000 := h n List.mem_cons_self
    have hhigh : n / 256 % 256 = n / 256 := by omega
    have hlow : n / 256 * 256 + n % 256 = n := by omega
    rw [List.flatMap_cons, bigEndian, List.cons_append, List.singleton_append,
      Text.bigEndianPairs, ih fun m hm => h m (List.mem_cons_of_mem n hm)]
    simp only [UInt8.toNat_ofNat', Nat.reducePow, hhigh, Nat.mod_mod, hlow]

theorem toNat_bounds (c : Char) :
    c.toNat < 0xD800 ∨ (0xDFFF < c.toNat ∧ c.toNat < 0x110000) := by
  have h : c.toNat.isValidChar := c.valid
  unfold Nat.isValidChar at h
  omega

theorem lt_of_mem_utf16Units {c : Char} {n : Nat} (h : n ∈ utf16Units c) : n < 0x10000 := by
  have hc := toNat_bounds c
  rw [utf16Units] at h
  split at h
  case isTrue hlt =>
    rw [List.mem_singleton] at h
    omega
  case isFalse hge =>
    rw [List.mem_cons, List.mem_singleton] at h
    omega

theorem ofUtf16_cons {n : Nat} (hh : Text.isHighSurrogate n = false)
    (hl : Text.isLowSurrogate n = false) (r : List Nat) :
    Text.ofUtf16 (n :: r) = Char.ofNat n :: Text.ofUtf16 r := by
  cases r with
  | nil => simp [Text.ofUtf16, hh, hl]
  | cons m r => simp [Text.ofUtf16, hh, hl]

theorem ofUtf16_utf16Units (c : Char) (r : List Nat) :
    Text.ofUtf16 (utf16Units c ++ r) = c :: Text.ofUtf16 r := by
  have hc := toNat_bounds c
  rw [utf16Units]
  split
  case isTrue h =>
    have hh : Text.isHighSurrogate c.toNat = false := by
      simp only [Text.isHighSurrogate, Bool.and_eq_false_iff, decide_eq_false_iff_not]
      omega
    have hl : Text.isLowSurrogate c.toNat = false := by
      simp only [Text.isLowSurrogate, Bool.and_eq_false_iff, decide_eq_false_iff_not]
      omega
    rw [List.singleton_append, ofUtf16_cons hh hl, Char.ofNat_toNat]
  case isFalse h =>
    generalize hd : c.toNat - 0x10000 = d
    have hh : Text.isHighSurrogate (0xD800 + d / 0x400) = true := by
      simp only [Text.isHighSurrogate, Bool.and_eq_true, decide_eq_true_eq]
      omega
    have hl : Text.isLowSurrogate (0xDC00 + d % 0x400) = true := by
      simp only [Text.isLowSurrogate, Bool.and_eq_true, decide_eq_true_eq]
      omega
    have hchar : Text.ofSurrogates (0xD800 + d / 0x400) (0xDC00 + d % 0x400) = c := by
      have hn : 0x10000 + (0xD800 + d / 0x400 - 0xD800) * 0x400 +
          (0xDC00 + d % 0x400 - 0xDC00) = c.toNat := by omega
      rw [Text.ofSurrogates, hn, Char.ofNat_toNat]
    rw [List.cons_append, List.singleton_append, Text.ofUtf16, if_pos hh, if_pos hl, hchar]

theorem decodeText_utf16 (s : List Char) : decodeText (utf16 s) = s := by
  have hunits : Text.ofUtf16 (s.flatMap utf16Units) = s := by
    induction s with
    | nil => rfl
    | cons c s ih => rw [List.flatMap_cons, ofUtf16_utf16Units, ih]
  have hbound : ∀ n ∈ s.flatMap utf16Units, n < 0x10000 := by
    intro n hn
    obtain ⟨c, -, hc⟩ := List.mem_flatMap.mp hn
    exact lt_of_mem_utf16Units hc
  rw [utf16, decodeText, bigEndianPairs_flatMap hbound, hunits]

/-- The bytes by which a text can be given. -/
def Encoded (s : List Char) (b : List UInt8) : Prop := b = utf8 s ∨ b = utf16 s

theorem decodeText_of_encoded {s : List Char} {b : List UInt8} (h : Encoded s b) :
    decodeText b = s := by
  obtain rfl | rfl := h
  · exact decodeText_utf8 s
  · exact decodeText_utf16 s

/-! Strings between parentheses. -/

theorem prepend_prepend (a b : List UInt8) (p : List UInt8 × List Char) :
    prepend a (prepend b p) = prepend (a ++ b) p := by
  simp [prepend]

/-- No parenthesis closes before it opens, and all that open are closed. -/
def BalancedParens (s : List Char) : Prop :=
  s.count '(' = s.count ')' ∧ ∀ p, p <+: s → p.count ')' ≤ p.count '('

instance (s : List Char) : Decidable (BalancedParens s) :=
  decidable_of_iff (s.count '(' = s.count ')' ∧ ∀ p ∈ s.inits, p.count ')' ≤ p.count '(')
    (by simp [BalancedParens])

def escapeBackslashes (s : List Char) : List Char :=
  s.flatMap fun c => if c = '\\' then ['\\', c] else [c]

/-- The depth of parentheses before and after a text that closes none it finds unopened. -/
inductive Nests : Nat → List Char → Nat → Prop
  | nil {d : Nat} : Nests d [] d
  | opening {d e : Nat} {s : List Char} (h : Nests (d + 1) s e) : Nests d ('(' :: s) e
  | closing {d e : Nat} {s : List Char} (h : Nests d s e) : Nests (d + 1) (')' :: s) e
  | other {d e : Nat} {c : Char} {s : List Char} (ho : c ≠ '(') (hc : c ≠ ')') (h : Nests d s e) :
      Nests d (c :: s) e

theorem nests_of_prefix {d e : Nat} {s : List Char}
    (h : ∀ p, p <+: s → p.count ')' ≤ d + p.count '(')
    (he : d + s.count '(' = e + s.count ')') : Nests d s e := by
  induction s generalizing d with
  | nil =>
    obtain rfl : d = e := he
    exact .nil
  | cons c s ih =>
    have htail : ∀ p, p <+: s → (c :: p).count ')' ≤ d + (c :: p).count '(' :=
      fun p hp => h (c :: p) (List.cons_prefix_cons.mpr ⟨rfl, hp⟩)
    simp only [List.count_cons] at htail he
    by_cases ho : c = '('
    · subst ho
      refine .opening (ih (fun p hp => ?_) ?_)
      · have := htail p hp
        simp at this
        omega
      · simp at he
        omega
    by_cases hc : c = ')'
    · subst hc
      -- The prefix of one parenthesis shows that it closes an open one.
      have hdepth : 1 ≤ d := by
        have := htail [] List.nil_prefix
        simpa using this
      obtain ⟨k, rfl⟩ := Nat.exists_eq_add_of_le' hdepth
      refine .closing (ih (fun p hp => ?_) ?_)
      · have := htail p hp
        simp at this
        omega
      · simp at he
        omega
    · refine .other ho hc (ih (fun p hp => ?_) ?_)
      · simpa [ho, hc] using htail p hp
      · simpa [ho, hc] using he

theorem nests_of_balancedParens {s : List Char} (h : BalancedParens s) : Nests 0 s 0 :=
  nests_of_prefix (fun p hp => by simpa using h.2 p hp) (by simpa using h.1)

theorem literal_backslash (depth : Nat) (r : List Char) :
    literal depth ('\\' :: '\\' :: r) = prepend (Text.utf8Bytes '\\') (literal depth r) := by
  rw [literal_escaped depth (by decide) (by decide)]
  rfl

theorem literal_escapeBackslashes {d e : Nat} {s : List Char} (h : Nests d s e) (r : List Char) :
    literal d (escapeBackslashes s ++ r) = prepend (utf8 s) (literal e r) := by
  induction h with
  | nil => simp [escapeBackslashes, utf8, prepend]
  | @opening d e s h ih =>
    have htext : escapeBackslashes ('(' :: s) ++ r = '(' :: (escapeBackslashes s ++ r) := rfl
    rw [htext, literal, ih, utf8_cons, ← prepend_prepend]
    rfl
  | @closing d e s h ih =>
    have htext : escapeBackslashes (')' :: s) ++ r = ')' :: (escapeBackslashes s ++ r) := rfl
    rw [htext, literal, ih, utf8_cons, ← prepend_prepend]
    rfl
  | @other d e c s ho hc h ih =>
    rw [utf8_cons, ← prepend_prepend, ← ih]
    by_cases hb : c = '\\'
    · subst hb
      exact literal_backslash d _
    · have htext : escapeBackslashes (c :: s) ++ r = c :: (escapeBackslashes s ++ r) := by
        simp [escapeBackslashes, hb]
      rw [htext, literal_char d ho hc hb]

theorem literal_balanced {s : List Char} (h : BalancedParens s) (r : List Char) :
    literal 0 (escapeBackslashes s ++ ')' :: r) = (utf8 s, r) := by
  rw [literal_escapeBackslashes (nests_of_balancedParens h), literal_close]
  simp [prepend]

def octalEscape (b : UInt8) : List Char :=
  '\\' :: [b.toNat / 64, b.toNat / 8 % 8, b.toNat % 8].map Nat.digitChar

theorem octal_digitChar : ∀ n < 8, isOctal (Nat.digitChar n) = true ∧
    Nat.digitChar n ≠ '\r' ∧ Number.digit? 8 (Nat.digitChar n) = some n := by
  decide

theorem octalByte_digits (b : UInt8) :
    octalByte ([b.toNat / 64, b.toNat / 8 % 8, b.toNat % 8].map Nat.digitChar) = b := by
  have hb := b.toNat_lt
  have hdigit : ∀ n < 8, Number.digit? 8 (Nat.digitChar n) = some n :=
    fun n hn => (octal_digitChar n hn).2.2
  have hvalue : (b.toNat / 64 * 8 + b.toNat / 8 % 8) * 8 + b.toNat % 8 = b.toNat := by omega
  have hmap : ([b.toNat / 64, b.toNat / 8 % 8, b.toNat % 8].map Nat.digitChar).mapM
      (Number.digit? 8) = some [b.toNat / 64, b.toNat / 8 % 8, b.toNat % 8] := by
    simp only [List.map_cons, List.map_nil, List.mapM_cons, List.mapM_nil,
      hdigit (b.toNat / 64) (by omega), hdigit (b.toNat / 8 % 8) (by omega),
      hdigit (b.toNat % 8) (by omega)]
    rfl
  rw [octalByte, Number.digits?, hmap]
  simp [Number.ofDigits, hvalue]

theorem literal_octalEscape (depth : Nat) (b : UInt8) (r : List Char) :
    literal depth (octalEscape b ++ r) = prepend [b] (literal depth r) := by
  have hb := b.toNat_lt
  have h1 := octal_digitChar (b.toNat / 64) (by omega)
  have h2 := octal_digitChar (b.toNat / 8 % 8) (by omega)
  have h3 := octal_digitChar (b.toNat % 8) (by omega)
  have hbyte := octalByte_digits b
  simp only [octalEscape, List.map_cons, List.map_nil, List.cons_append, List.nil_append] at hbyte ⊢
  rw [literal, if_pos h1.1]
  · simp [octalRun, h1.1, h2.1, h3.1, hbyte]
  · exact fun _ h => absurd h h1.2.1
  · exact h1.2.1

theorem literal_octal (b : List UInt8) (r : List Char) :
    literal 0 (b.flatMap octalEscape ++ ')' :: r) = (b, r) := by
  induction b with
  | nil => exact literal_close r
  | cons x b ih => rw [List.flatMap_cons, List.append_assoc, literal_octalEscape, ih]; rfl

/-! Strings in base 16. -/

def IsHexDigit (n : Nat) (c : Char) : Prop := c = Nat.digitChar n ∨ c = (Nat.digitChar n).toUpper

inductive HexText : List UInt8 → List Char → Prop
  | nil : HexText [] []
  | cons {x : UInt8} {b : List UInt8} {c d : Char} {t : List Char}
      (hc : IsHexDigit (x.toNat / 16) c) (hd : IsHexDigit (x.toNat % 16) d) (h : HexText b t) :
      HexText (x :: b) (c :: d :: t)

theorem IsHexDigit.digit? {n : Nat} {c : Char} (h : IsHexDigit n c) (hn : n < 16) :
    Number.digit? 16 c = some n := (Number.digit?_eq_some_iff le_rfl).mpr ⟨hn, h⟩

theorem ne_of_digit? {c d : Char} {n : Nat} (hc : Number.digit? 16 c = some n)
    (hd : Number.digit? 16 d = none) : c ≠ d := by
  rintro rfl
  simp [hc] at hd

theorem hexString_digits {x : UInt8} {c d : Char} (hc : IsHexDigit (x.toNat / 16) c)
    (hd : IsHexDigit (x.toNat % 16) d) (r : List Char) :
    hexString (c :: d :: r) = prepend [x] (hexString r) := by
  have hx := x.toNat_lt
  have hhigh := hc.digit? (by omega)
  have hlow := hd.digit? (by omega)
  have hc' : c ≠ '>' := ne_of_digit? hhigh (by decide)
  have hd' : d ≠ '>' := ne_of_digit? hlow (by decide)
  have hvalue : x.toNat / 16 * 16 + x.toNat % 16 = x.toNat := by omega
  simp [hexString, prepend, hc', hd', hhigh, hlow, hexBytes, hvalue]

theorem hexString_hexText {b : List UInt8} {t : List Char} (h : HexText b t) (r : List Char) :
    hexString (t ++ '>' :: r) = (b, r) := by
  induction h with
  | nil => simp [hexString, hexBytes]
  | cons hc hd h ih => rw [List.cons_append, List.cons_append, hexString_digits hc hd, ih]; rfl

/-! Strings as lexemes. -/

/-- The encodings of a text as a string. -/
inductive Encodes (s : List Char) : List Char → Prop
  | escaped : Encodes s ('(' :: escape s ++ [')'])
  | balanced (h : BalancedParens s) : Encodes s ('(' :: escapeBackslashes s ++ [')'])
  | octal {b : List UInt8} (h : Encoded s b) : Encodes s ('(' :: b.flatMap octalEscape ++ [')'])
  | hex {b : List UInt8} {t : List Char} (h : Encoded s b) (ht : HexText b t) :
      Encodes s ('<' :: t ++ ['>'])

theorem lex_literal {b : List UInt8} {t r rest : List Char} (h : literal 0 (t ++ r) = (b, rest)) :
    lex ('(' :: t ++ r) = stringLexeme b :: lex rest := by
  rw [List.cons_append]
  apply lex_some
  unfold lexeme
  rw [if_neg (by decide), if_neg (by decide), if_pos rfl, h]

theorem lex_hex {b : List UInt8} {t : List Char} (h : HexText b t) (r : List Char) :
    lex ('<' :: t ++ '>' :: r) = stringLexeme b :: lex r := by
  rw [List.cons_append]
  apply lex_some
  unfold lexeme
  rw [if_neg (by decide), if_neg (by decide), if_neg (by decide), if_pos rfl]
  -- Neither a digit nor the closing bracket makes a second opening bracket.
  split
  case h_1 s hs =>
    cases h with
    | nil => exact absurd (List.cons.inj hs).1 (by decide)
    | @cons x b c d t hc hd h =>
      have hx := x.toNat_lt
      exact absurd (List.cons.inj hs).1 (ne_of_digit? (hc.digit? (by omega)) (by decide))
  case h_2 => rw [hexString_hexText h]

theorem lex_encodes {s t : List Char} (h : Encodes s t) (r : List Char) :
    lex (t ++ r) = .string (String.ofList s) :: lex r := by
  cases h with
  | escaped =>
    rw [List.append_assoc, List.singleton_append, lex_literal (literal_escape s r), stringLexeme,
      decodeText_utf8]
  | balanced h =>
    rw [List.append_assoc, List.singleton_append, lex_literal (literal_balanced h r), stringLexeme,
      decodeText_utf8]
  | @octal b h =>
    rw [List.append_assoc, List.singleton_append, lex_literal (literal_octal b r), stringLexeme,
      decodeText_of_encoded h]
  | hex h ht =>
    rw [List.append_assoc, List.singleton_append, lex_hex ht, stringLexeme,
      decodeText_of_encoded h]

/-- Every encoding of a text is parsed as one string, which is the text. -/
theorem parse_of_encodes {s source : String} (h : Encodes s.toList source.toList) :
    parse source = [.string s] := by
  have hlex := lex_encodes h []
  rw [List.append_nil, lex_nil, String.ofList_toList] at hlex
  have hobject := parseAll_lexemes [.string s]
  rw [parse, hlex]
  exact hobject

/-- A backslash between parentheses, and a pair of surrogates in octal and in base 16. -/
theorem parse_of_encodes_surrogates :
    Encodes "(\\)".toList "(\\(\\\\\\))".toList ∧
    parse "(\\(\\\\\\))" = [.string "(\\)"] ∧
    Encodes "(\\)".toList "((\\\\))".toList ∧
    parse "((\\\\))" = [.string "(\\)"] ∧
    Encodes "😀".toList "(\\376\\377\\330\\075\\336\\000)".toList ∧
    parse "(\\376\\377\\330\\075\\336\\000)" = [.string "😀"] ∧
    Encodes "😀".toList "<f09F9880>".toList ∧
    parse "<f09F9880>" = [.string "😀"] := by
  have hescaped : Encodes "(\\)".toList "(\\(\\\\\\))".toList := .escaped
  have hbalanced : Encodes "(\\)".toList "((\\\\))".toList := .balanced (by decide)
  have hoctal : Encodes "😀".toList "(\\376\\377\\330\\075\\336\\000)".toList := .octal (.inr rfl)
  have hdigits : HexText (utf8 "😀".toList) "f09F9880".toList :=
    .cons (.inl rfl) (.inl rfl) (.cons (.inl rfl) (.inr rfl) (.cons (.inl rfl) (.inl rfl)
      (.cons (.inl rfl) (.inl rfl) .nil)))
  have hhex : Encodes "😀".toList "<f09F9880>".toList := .hex (.inl rfl) hdigits
  exact ⟨hescaped, parse_of_encodes hescaped, hbalanced, parse_of_encodes hbalanced, hoctal,
    parse_of_encodes hoctal, hhex, parse_of_encodes hhex⟩

end Galley.Pdf
