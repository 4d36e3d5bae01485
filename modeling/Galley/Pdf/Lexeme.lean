import Galley.Number.Decimal
import Galley.Text.Encoding
import Galley.Text.Space
/-!
The lexemes of PDF syntax. Strings are read as bytes, in which escapes stand for single bytes, and
the bytes are then decoded as text.
-/
namespace Galley.Pdf

inductive Lexeme where
  | name (s : String)
  | string (s : String)
  | number (n : Float)
  | word (s : String)
  | arrayOpen | arrayClose
  | dictOpen | dictClose

/-- The characters that end a name or a word. -/
def isDelimiter (c : Char) : Bool := Text.isSpace c || "()<>[]\x7b\x7d/%".toList.contains c

/-- The text of the bytes of a string: UTF-16 after a byte order mark, else UTF-8, else Latin-1. -/
def decodeText : List UInt8 → List Char
  | 0xFE :: 0xFF :: r => Text.ofUtf16 (Text.bigEndianPairs r)
  | b => (Text.ofUtf8? b).getD (Text.ofLatin1 b)

def isOctal (c : Char) : Bool := '0' ≤ c && c ≤ '7'

def octalRun (s : List Char) : List Char := (s.take 3).takeWhile isOctal

/-- The byte of octal digits; what does not fit in a byte is lost. -/
def octalByte (ds : List Char) : UInt8 := UInt8.ofNat ((Number.digits? 8 ds).getD 0)

def escaped (c : Char) : List UInt8 :=
  match c with
  | 'n' => [0x0A]
  | 'r' => [0x0D]
  | 't' => [0x09]
  | 'b' => [0x08]
  | 'f' => [0x0C]
  | '\n' => []
  | c => Text.utf8Bytes c

def prepend (b : List UInt8) (p : List UInt8 × List Char) : List UInt8 × List Char :=
  (b ++ p.1, p.2)

/-- Reads a string from behind its opening parenthesis, at a depth of nested parentheses. -/
def literal (depth : Nat) : List Char → List UInt8 × List Char
  | [] => ([], [])
  | '(' :: r => prepend [0x28] (literal (depth + 1) r)
  | ')' :: r =>
    match depth with
    | 0 => ([], r)
    | d + 1 => prepend [0x29] (literal d r)
  | '\\' :: [] => ([], [])
  | '\\' :: '\r' :: '\n' :: r => literal depth r
  | '\\' :: '\r' :: r => literal depth r
  | '\\' :: e :: r =>
    if isOctal e then
      let ds := octalRun (e :: r)
      prepend [octalByte ds] (literal depth ((e :: r).drop ds.length))
    else prepend (escaped e) (literal depth r)
  | c :: r => prepend (Text.utf8Bytes c) (literal depth r)
termination_by s => s.length
decreasing_by all_goals simp <;> omega

theorem literal_suffix (depth : Nat) (s : List Char) : (literal depth s).2 <:+ s := by
  fun_induction literal depth s with
  | case1 | case5 => exact List.nil_suffix
  | case2 depth r ih => exact ih.trans (List.suffix_cons '(' r)
  | case3 r => exact List.suffix_cons ')' r
  | case4 r d ih => exact ih.trans (List.suffix_cons ')' r)
  | case6 depth r ih => exact ih.trans (List.suffix_append ['\\', '\r', '\n'] r)
  | case7 depth r _ ih => exact ih.trans (List.suffix_append ['\\', '\r'] r)
  | case8 depth e r _ _ _ ds ih =>
    exact (ih.trans (List.drop_suffix ds.length (e :: r))).trans (List.suffix_cons '\\' (e :: r))
  | case9 depth e r _ _ _ ih => exact ih.trans (List.suffix_append ['\\', e] r)
  | case10 depth c r _ _ _ _ _ _ ih => exact ih.trans (List.suffix_cons c r)

/-- Bytes from digits of base 16 two by two; a missing last digit is 0. -/
def hexBytes : List Nat → List UInt8
  | [] => []
  | [a] => [UInt8.ofNat (a * 16)]
  | a :: b :: r => UInt8.ofNat (a * 16 + b) :: hexBytes r

/-- Reads a string in base 16 up to its closing bracket, without regard to other characters. -/
def hexString (s : List Char) : List UInt8 × List Char :=
  (hexBytes ((s.takeWhile (· ≠ '>')).filterMap (Number.digit? 16)), (s.dropWhile (· ≠ '>')).drop 1)

def regular (s : List Char) : List Char := s.takeWhile (!isDelimiter ·)

def afterRegular (s : List Char) : List Char := s.dropWhile (!isDelimiter ·)

def startsNumber (c : Char) : Bool := Number.isDigit c || c == '+' || c == '-' || c == '.'

def ofRegular (c : Char) (r : List Char) : Lexeme :=
  match Number.float? (c :: r) with
  | some n => if startsNumber c then .number n else .word (String.ofList (c :: r))
  | none => .word (String.ofList (c :: r))

def stringLexeme (b : List UInt8) : Lexeme := .string (String.ofList (decodeText b))

/-- The lexeme that begins with a character, if one does, and the text after it. -/
def lexeme (c : Char) (r : List Char) : Option Lexeme × List Char :=
  if c = '%' then (none, (r.dropWhile (· ≠ '\n')).drop 1)
  else if c = '/' then (some (.name (String.ofList (regular r))), afterRegular r)
  else if c = '(' then (some (stringLexeme (literal 0 r).1), (literal 0 r).2)
  else if c = '<' then
    match r with
    | '<' :: s => (some .dictOpen, s)
    | _ => (some (stringLexeme (hexString r).1), (hexString r).2)
  else if c = '>' then
    match r with
    | '>' :: s => (some .dictClose, s)
    | _ => (none, r)
  else if c = '[' then (some .arrayOpen, r)
  else if c = ']' then (some .arrayClose, r)
  else if isDelimiter c then (none, r)
  else (some (ofRegular c (regular r)), afterRegular r)

theorem afterRegular_suffix (s : List Char) : afterRegular s <:+ s := List.dropWhile_suffix _

theorem hexString_suffix (s : List Char) : (hexString s).2 <:+ s :=
  (List.drop_suffix 1 _).trans (List.dropWhile_suffix _)

theorem lexeme_suffix (c : Char) (r : List Char) : (lexeme c r).2 <:+ r := by
  unfold lexeme
  split
  · exact (List.drop_suffix 1 _).trans (List.dropWhile_suffix _)
  split
  · exact afterRegular_suffix r
  split
  · exact literal_suffix 0 r
  split
  · split
    · exact List.suffix_cons '<' _
    · exact hexString_suffix r
  split
  · split
    · exact List.suffix_cons '>' _
    · exact List.suffix_rfl
  split
  · exact List.suffix_rfl
  split
  · exact List.suffix_rfl
  split
  · exact List.suffix_rfl
  · exact afterRegular_suffix r

theorem lexeme_length_le (c : Char) (r : List Char) : (lexeme c r).2.length ≤ r.length :=
  (lexeme_suffix c r).length_le

def lex : List Char → List Lexeme
  | [] => []
  | c :: r =>
    have : (lexeme c r).2.length < (c :: r).length := Nat.lt_succ_of_le (lexeme_length_le c r)
    match (lexeme c r).1 with
    | some x => x :: lex (lexeme c r).2
    | none => lex (lexeme c r).2
termination_by s => s.length
decreasing_by all_goals exact this

theorem lex_nil : lex [] = [] := by
  rw [lex]

theorem lex_some {c : Char} {r rest : List Char} {x : Lexeme} (h : lexeme c r = (some x, rest)) :
    lex (c :: r) = x :: lex rest := by
  rw [lex, h]

theorem lex_none {c : Char} {r rest : List Char} (h : lexeme c r = (none, rest)) :
    lex (c :: r) = lex rest := by
  rw [lex, h]

end Galley.Pdf
