import Galley.Pdf.Lexeme
/-! Strings between parentheses are read back as the text that was written. -/
namespace Galley.Pdf

def utf8 (s : List Char) : List UInt8 := s.flatMap Text.utf8Bytes

theorem utf8_cons (c : Char) (s : List Char) : utf8 (c :: s) = Text.utf8Bytes c ++ utf8 s :=
  List.flatMap_cons

theorem ofUtf8?_utf8 (s : List Char) : Text.ofUtf8? (utf8 s) = some s := by
  have h : (utf8 s).toByteArray.utf8Decode? = some s.toArray := List.utf8Decode?_utf8Encode
  rw [Text.ofUtf8?, h]
  rfl

theorem head?_utf8 (s : List Char) : (utf8 s).head? ≠ some 0xFE := by
  cases s with
  | nil => simp [utf8]
  | cons c s =>
    have hne : String.utf8EncodeChar c ≠ [] := String.utf8EncodeChar_ne_nil
    obtain ⟨b, bs, hb⟩ := List.exists_cons_of_ne_nil hne
    have hfirst := UInt8.isUTF8FirstByte_getElem_zero_utf8EncodeChar (c := c)
    simp only [hb, List.getElem_cons_zero] at hfirst
    simp only [utf8, List.flatMap_cons, Text.utf8Bytes, hb, List.cons_append, List.head?_cons,
      ne_eq, Option.some.injEq]
    rintro rfl
    exact absurd hfirst (by decide)

theorem decodeText_utf8 (s : List Char) : decodeText (utf8 s) = s := by
  -- No character begins with a byte of the byte order mark.
  have hmark : ∀ r, utf8 s ≠ 0xFE :: 0xFF :: r := by
    intro r h
    exact head?_utf8 s (by rw [h]; rfl)
  rw [decodeText, ofUtf8?_utf8]
  · rfl
  · exact hmark

/-- A text with a backslash before each parenthesis and each backslash. -/
def escape (s : List Char) : List Char :=
  s.flatMap fun c => if c = '(' ∨ c = ')' ∨ c = '\\' then ['\\', c] else [c]

theorem literal_close (r : List Char) : literal 0 (')' :: r) = ([], r) := by
  rw [literal]

theorem literal_char (depth : Nat) {c : Char} (ho : c ≠ '(') (hc : c ≠ ')') (hb : c ≠ '\\')
    (r : List Char) : literal depth (c :: r) = prepend (Text.utf8Bytes c) (literal depth r) := by
  rw [literal] <;> simp [ho, hc, hb]

theorem literal_escaped (depth : Nat) {c : Char} (hr : c ≠ '\r') (ho : isOctal c = false)
    (r : List Char) : literal depth ('\\' :: c :: r) = prepend (escaped c) (literal depth r) := by
  rw [literal, if_neg] <;> simp [ho, hr]

theorem literal_escape (s r : List Char) : literal 0 (escape s ++ ')' :: r) = (utf8 s, r) := by
  induction s with
  | nil => exact literal_close r
  | cons c s ih =>
    by_cases hc : c = '(' ∨ c = ')' ∨ c = '\\'
    · have htext : escape (c :: s) ++ ')' :: r = '\\' :: c :: (escape s ++ ')' :: r) := by
        simp [escape, hc]
      have hplain : c ≠ '\r' ∧ isOctal c = false ∧ escaped c = Text.utf8Bytes c := by
        obtain rfl | rfl | rfl := hc <;> exact ⟨by decide, by decide, rfl⟩
      rw [htext, literal_escaped 0 hplain.1 hplain.2.1, hplain.2.2, ih, prepend, utf8_cons]
    · have htext : escape (c :: s) ++ ')' :: r = c :: (escape s ++ ')' :: r) := by
        simp [escape, hc]
      rw [not_or, not_or] at hc
      rw [htext, literal_char 0 hc.1 hc.2.1 hc.2.2, ih, prepend, utf8_cons]

end Galley.Pdf
