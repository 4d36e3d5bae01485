import Mathlib.Data.List.Forall2
import Galley.Proofs.Pdf.Parsing
import Galley.Proofs.Pdf.Strings
/-!
Objects written as text. Lexemes with spaces between them are read back one by one, so the text of
objects is parsed as these objects.
-/
namespace Galley.Pdf

def IsRegular (s : List Char) : Prop := ∀ c ∈ s, isDelimiter c = false

instance (s : List Char) : Decidable (IsRegular s) :=
  decidable_of_iff (s.all (!isDelimiter ·) = true) (by simp [IsRegular])

/-- The ways to write a lexeme. A number is any text that begins with a digit, a sign or a point
and reads as this number. -/
def Lexeme.Written : Lexeme → List Char → Prop
  | .name s, t => IsRegular s.toList ∧ t = '/' :: s.toList
  | .string s, t => t = '(' :: escape s.toList ++ [')']
  | .number x, t => IsRegular t ∧ (∃ c r, t = c :: r ∧ startsNumber c = true) ∧
      Number.float? t = some x
  | .word s, t => IsRegular t ∧ (∃ c r, t = c :: r ∧ startsNumber c = false) ∧ t = s.toList
  | .arrayOpen, t => t = ['[']
  | .arrayClose, t => t = [']']
  | .dictOpen, t => t = ['<', '<']
  | .dictClose, t => t = ['>', '>']

/-- Lexemes written one after the other with single spaces between them. -/
def Spaced (xs : List Lexeme) (text : List Char) : Prop :=
  ∃ ts, List.Forall₂ Lexeme.Written xs ts ∧ text = [' '].intercalate ts

/-- What can stand behind a name, a number or a word: nothing, or a delimiter. -/
def Ends (r : List Char) : Prop := ∀ c ∈ r.head?, isDelimiter c = true

theorem regular_append {s r : List Char} (hs : IsRegular s) (hr : Ends r) :
    regular (s ++ r) = s ∧ afterRegular (s ++ r) = r := by
  have hfront : ∀ c ∈ s, (!isDelimiter c) = true := by
    intro c hc
    simp [hs c hc]
  rw [regular, afterRegular, List.takeWhile_append_of_pos hfront,
    List.dropWhile_append_of_pos hfront]
  cases r with
  | nil => simp
  | cons c r =>
    have hc : isDelimiter c = true := hr c rfl
    simp [hc]

theorem lex_space (r : List Char) : lex (' ' :: r) = lex r := lex_none rfl

theorem lexeme_regular {c : Char} {s r : List Char} (hs : IsRegular (c :: s)) (hr : Ends r) :
    lexeme c (s ++ r) = (some (ofRegular c s), r) := by
  have hc : isDelimiter c = false := hs c List.mem_cons_self
  have hne : ∀ d : Char, isDelimiter d = true → c ≠ d := by
    rintro d hd rfl
    exact absurd hd (by simp [hc])
  obtain ⟨hfront, hback⟩ := regular_append (fun d hd => hs d (List.mem_cons_of_mem c hd)) hr
  unfold lexeme
  rw [if_neg (hne '%' (by decide)), if_neg (hne '/' (by decide)), if_neg (hne '(' (by decide)),
    if_neg (hne '<' (by decide)), if_neg (hne '>' (by decide)), if_neg (hne '[' (by decide)),
    if_neg (hne ']' (by decide)), hc, if_neg Bool.false_ne_true, hfront, hback]

theorem lex_written {x : Lexeme} {t r : List Char} (h : x.Written t) (hr : Ends r) :
    lex (t ++ r) = x :: lex r := by
  cases x with
  | name s =>
    obtain ⟨hs, rfl⟩ := h
    obtain ⟨hfront, hback⟩ := regular_append hs hr
    rw [List.cons_append]
    apply lex_some
    unfold lexeme
    rw [if_neg (by decide), if_pos rfl, hfront, hback, String.ofList_toList]
  | string s =>
    obtain rfl : t = '(' :: escape s.toList ++ [')'] := h
    rw [List.append_assoc, List.cons_append, List.singleton_append]
    apply lex_some
    unfold lexeme
    rw [if_neg (by decide), if_neg (by decide), if_pos rfl, literal_escape, stringLexeme,
      decodeText_utf8, String.ofList_toList]
  | number x =>
    obtain ⟨hs, ⟨c, s, rfl, hc⟩, hx⟩ := h
    have hnumber : ofRegular c s = .number x := by simp [ofRegular, hx, hc]
    rw [List.cons_append]
    apply lex_some
    rw [lexeme_regular hs hr, hnumber]
  | word w =>
    obtain ⟨hs, ⟨c, s, rfl, hc⟩, hw⟩ := h
    have hword : ofRegular c s = .word w := by
      rw [ofRegular, hw, String.ofList_toList]
      split <;> simp [hc]
    rw [List.cons_append]
    apply lex_some
    rw [lexeme_regular hs hr, hword]
  | arrayOpen =>
    obtain rfl : t = ['['] := h
    exact lex_some rfl
  | arrayClose =>
    obtain rfl : t = [']'] := h
    exact lex_some rfl
  | dictOpen =>
    obtain rfl : t = ['<', '<'] := h
    exact lex_some rfl
  | dictClose =>
    obtain rfl : t = ['>', '>'] := h
    exact lex_some rfl

theorem lex_spaced {xs : List Lexeme} {text : List Char} (h : Spaced xs text) : lex text = xs := by
  obtain ⟨ts, hts, rfl⟩ := h
  -- The space behind a lexeme, or the end of the text, is where its reading stops.
  induction hts with
  | nil => exact lex_nil
  | @cons x t xs ts hx hrest ih =>
    cases ts with
    | nil =>
      obtain rfl : xs = [] := List.forall₂_nil_right_iff.mp hrest
      have hlast := lex_written (r := []) hx (by simp [Ends])
      rw [List.append_nil, lex_nil] at hlast
      rwa [List.intercalate_singleton]
    | cons u ts =>
      have hends : Ends (' ' :: [' '].intercalate (u :: ts)) := by
        intro c hc
        obtain rfl : ' ' = c := by simpa using hc
        decide
      rw [List.intercalate_cons_cons, List.append_assoc, List.singleton_append,
        lex_written hx hends, lex_space, ih]

/-- Objects, and likewise keys with values, are parsed from their text: names, strings with
escapes, numbers and words, in arrays and dictionaries to any depth, with spaces between them. -/
theorem parse_of_spaced :
    (∀ (os : List Object) (source : String),
      Spaced (lexemesOf os) source.toList → parse source = os) ∧
    (∀ (entries : Entries) (source : String),
      Spaced (lexemesOfEntries entries) source.toList → parseEntries source = entries) := by
  constructor
  · intro os source h
    rw [parse, lex_spaced h, parseAll_lexemes]
  · intro entries source h
    rw [parseEntries, parse, lex_spaced h, ← lexemesOf_unpaired, parseAll_lexemes, pair_unpaired]

/-- A number and an empty name in an array in a dictionary, and a string with a parenthesis. -/
theorem parse_of_spaced_nested :
    let elements : Object := .array [.number (-Number.scaled 25 (-1)), .name ""]
    Spaced (lexemesOf [.dict [("A", elements)], .string "a(b"])
      "<< /A [ -2.5 / ] >> (a\\(b)".toList ∧
    parse "<< /A [ -2.5 / ] >> (a\\(b)" = [.dict [("A", elements)], .string "a(b"] ∧
    Spaced (lexemesOfEntries [("A", elements)]) "/A [ -2.5 / ]".toList ∧
    parseEntries "/A [ -2.5 / ]" = [("A", elements)] := by
  intro elements
  have hkey : (Lexeme.name "A").Written "/A".toList := ⟨by decide, rfl⟩
  have hempty : (Lexeme.name "").Written "/".toList := ⟨by decide, rfl⟩
  have hnumber : (Lexeme.number (-Number.scaled 25 (-1))).Written "-2.5".toList :=
    ⟨by decide, ⟨'-', "2.5".toList, rfl, rfl⟩, rfl⟩
  have hstring : (Lexeme.string "a(b").Written "(a\\(b)".toList := rfl
  have helements : List.Forall₂ Lexeme.Written elements.lexemes
      ["[".toList, "-2.5".toList, "/".toList, "]".toList] :=
    .cons rfl (.cons hnumber (.cons hempty (.cons rfl .nil)))
  have hentry := List.Forall₂.cons hkey helements
  have hentries : Spaced (lexemesOfEntries [("A", elements)]) "/A [ -2.5 / ]".toList :=
    ⟨_, hentry, rfl⟩
  have hdict : List.Forall₂ Lexeme.Written (Object.dict [("A", elements)]).lexemes
      ["<<".toList, "/A".toList, "[".toList, "-2.5".toList, "/".toList, "]".toList, ">>".toList] :=
    .cons rfl (List.rel_append hentry (.cons rfl .nil))
  have hobjects : Spaced (lexemesOf [.dict [("A", elements)], .string "a(b"])
      "<< /A [ -2.5 / ] >> (a\\(b)".toList :=
    ⟨_, List.rel_append hdict (.cons hstring .nil), rfl⟩
  exact ⟨hobjects, parse_of_spaced.1 _ _ hobjects, hentries, parse_of_spaced.2 _ _ hentries⟩

end Galley.Pdf
