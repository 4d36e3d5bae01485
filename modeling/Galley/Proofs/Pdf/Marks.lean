import Galley.Proofs.Pdf.Encodings
import Galley.Proofs.Pdf.Words
/-!
Marks written in brackets are found in any text of lexemes around them, each once and in order, and
nothing else is taken for a mark.
-/
namespace Galley.Pdf

/-! Lexemes laid out as text. -/

/-- The texts of a lexeme: as it is written, a string in any encoding, or a word that begins like
a number without being one. -/
inductive Lexeme.Spelled : Lexeme → List Char → Prop
  | written {x : Lexeme} {t : List Char} (h : x.Written t) : Spelled x t
  | string {s : String} {t : List Char} (h : Encodes s.toList t) : Spelled (.string s) t
  | word {c : Char} {r : List Char} (h : IsRegular (c :: r)) (hn : Number.float? (c :: r) = none) :
      Spelled (.word (String.ofList (c :: r))) (c :: r)

/-- Names, numbers and words end only at a delimiter. -/
def Lexeme.IsOpenEnded : Lexeme → Prop
  | .name _ | .number _ | .word _ => True
  | _ => False

/-- Lexemes one after the other, with blanks wherever they are needed, or more. -/
inductive Laid : List Lexeme → List Char → Prop
  | nil : Laid [] []
  | blank {c : Char} {xs : List Lexeme} {r : List Char} (hc : Text.isSpace c = true)
      (h : Laid xs r) : Laid xs (c :: r)
  | lexeme {x : Lexeme} {xs : List Lexeme} {t r : List Char} (hx : x.Spelled t)
      (hr : x.IsOpenEnded → Ends r) (h : Laid xs r) : Laid (x :: xs) (t ++ r)

theorem lex_blank {c : Char} (hc : Text.isSpace c = true) (r : List Char) :
    lex (c :: r) = lex r := by
  have hne : ∀ d : Char, Text.isSpace d = false → c ≠ d := by
    rintro d hd rfl
    exact absurd hc (by simp [hd])
  have hdelimiter : isDelimiter c = true := by simp [isDelimiter, hc]
  apply lex_none
  unfold lexeme
  rw [if_neg (hne '%' (by decide)), if_neg (hne '/' (by decide)), if_neg (hne '(' (by decide)),
    if_neg (hne '<' (by decide)), if_neg (hne '>' (by decide)), if_neg (hne '[' (by decide)),
    if_neg (hne ']' (by decide)), if_pos hdelimiter]

theorem lex_spelled {x : Lexeme} {t r : List Char} (h : x.Spelled t)
    (hr : x.IsOpenEnded → Ends r) : lex (t ++ r) = x :: lex r := by
  cases h with
  | written h =>
    cases x with
    | name s => exact lex_written h (hr trivial)
    | number n => exact lex_written h (hr trivial)
    | word w => exact lex_written h (hr trivial)
    | string s =>
      obtain rfl : t = '(' :: escape s.toList ++ [')'] := h
      rw [lex_encodes .escaped, String.ofList_toList]
    | _ =>
      obtain rfl := h
      exact lex_some rfl
  | string h => rw [lex_encodes h, String.ofList_toList]
  | @word c s h hn =>
    have hword : ofRegular c s = .word (String.ofList (c :: s)) := by rw [ofRegular, hn]
    rw [List.cons_append]
    apply lex_some
    rw [lexeme_regular h (hr trivial), hword]

theorem lex_laid {xs : List Lexeme} {text : List Char} (h : Laid xs text) : lex text = xs := by
  induction h with
  | nil => exact lex_nil
  | blank hc h ih => rw [lex_blank hc, ih]
  | lexeme hx hr h ih => rw [lex_spelled hx hr, ih]

/-! Lexemes that are passed over. -/

/-- Lexemes without the mark operator in which every array is closed. -/
inductive Inert : List Lexeme → Prop
  | nil : Inert []
  | plain {x : Lexeme} {ls : List Lexeme} (hmark : x ≠ .word markWord) (hopen : x ≠ .arrayOpen)
      (hclose : x ≠ .arrayClose) (h : Inert ls) : Inert (x :: ls)
  | array {es ls : List Lexeme} (hes : Inert es) (h : Inert ls) :
      Inert (.arrayOpen :: es ++ .arrayClose :: ls)

theorem Inert.append {ls ms : List Lexeme} (hls : Inert ls) (hms : Inert ms) :
    Inert (ls ++ ms) := by
  induction hls with
  | nil => exact hms
  | plain hmark hopen hclose h ih => exact .plain hmark hopen hclose ih
  | @array es ls hes h _ ih =>
    rw [List.append_assoc]
    exact .array hes ih

theorem not_mem_of_inert {ls : List Lexeme} (h : Inert ls) : .word markWord ∉ ls := by
  induction h with
  | nil => exact List.not_mem_nil
  | plain hmark hopen hclose h ih => simp [hmark.symm, ih]
  | array hes h hes' ih => simp [hes', ih]

theorem marksFrom_plain {x : Lexeme} (hmark : x ≠ .word markWord) (hopen : x ≠ .arrayOpen)
    (hclose : x ≠ .arrayClose) (opens : List (List Lexeme)) (r : List Lexeme) :
    marksFrom opens (x :: r) = marksFrom (opens.map (x :: ·)) r := by
  rw [marksFrom.eq_def]
  dsimp only
  rw [isMark_eq_false hmark, if_neg Bool.false_ne_true]
  cases x with
  | arrayOpen => exact absurd rfl hopen
  | arrayClose => exact absurd rfl hclose
  | _ => rfl

theorem marksFrom_arrayOpen (opens : List (List Lexeme)) (r : List Lexeme) :
    marksFrom opens (.arrayOpen :: r) = marksFrom ([] :: opens.map (.arrayOpen :: ·)) r := rfl

theorem marksFrom_arrayClose (body : List Lexeme) (outer : List (List Lexeme)) (r : List Lexeme) :
    marksFrom (body :: outer) (.arrayClose :: r) = marksFrom (outer.map (.arrayClose :: ·)) r := rfl

theorem marksFrom_markWord (body : List Lexeme) (outer : List (List Lexeme)) (r : List Lexeme) :
    marksFrom (body :: outer) (.word markWord :: r) =
      (Mark.ofLexemes? body.reverse).toList ++ marksFrom (outer.map (.word markWord :: ·)) r := rfl

theorem marksFrom_inert {ls : List Lexeme} (h : Inert ls) (opens : List (List Lexeme))
    (r : List Lexeme) :
    marksFrom opens (ls ++ r) = marksFrom (opens.map (ls.reverse ++ ·)) r := by
  induction h generalizing opens r with
  | nil => simp
  | @plain x ls hmark hopen hclose h ih =>
    rw [List.cons_append, marksFrom_plain hmark hopen hclose, ih]
    simp [Function.comp_def]
  | @array es ls hes h ihes ih =>
    rw [List.append_assoc, List.cons_append, List.cons_append, marksFrom_arrayOpen, ihes,
      List.map_cons, marksFrom_arrayClose, ih]
    simp [Function.comp_def]

mutual

theorem Object.inert (o : Object) (h : .word markWord ∉ o.lexemes) : Inert o.lexemes := by
  cases o with
  | array es =>
    have hes : .word markWord ∉ lexemesOf es := by
      simpa [Object.lexemes] using h
    exact .array (inert_lexemesOf es hes) .nil
  | dict entries =>
    have hentries : .word markWord ∉ lexemesOfEntries entries := by
      simpa [Object.lexemes] using h
    have hclose : Inert [.dictClose] := .plain (by simp) (by simp) (by simp) .nil
    exact .plain (by simp) (by simp) (by simp)
      ((inert_lexemesOfEntries entries hentries).append hclose)
  | word s => exact .plain (by simpa [Object.lexemes, eq_comm] using h) (by simp) (by simp) .nil
  | _ => exact .plain (by simp) (by simp) (by simp) .nil

theorem inert_lexemesOf (os : List Object) (h : .word markWord ∉ lexemesOf os) :
    Inert (lexemesOf os) := by
  cases os with
  | nil => exact .nil
  | cons o os =>
    rw [lexemesOf, List.mem_append, not_or] at h
    exact (o.inert h.1).append (inert_lexemesOf os h.2)

theorem inert_lexemesOfEntries (entries : List (String × Object))
    (h : .word markWord ∉ lexemesOfEntries entries) : Inert (lexemesOfEntries entries) := by
  cases entries with
  | nil => exact .nil
  | cons e entries =>
    obtain ⟨k, v⟩ := e
    have hv : .word markWord ∉ v.lexemes ∧ .word markWord ∉ lexemesOfEntries entries := by
      simpa [lexemesOfEntries] using h
    exact .plain (by simp) (by simp) (by simp)
      ((v.inert hv.1).append (inert_lexemesOfEntries entries hv.2))

end

/-! Marks. -/

/-- A mark behind an open bracket, which only the mark operator closes. -/
def Mark.lexemes (m : Mark) : List Lexeme :=
  .arrayOpen :: lexemesOfEntries m.entries ++ [.name m.kind, .word markWord]

theorem Mark.ofLexemes?_body (m : Mark) :
    Mark.ofLexemes? (lexemesOfEntries m.entries ++ [.name m.kind]) = some m := by
  rw [ofLexemes?, List.getLast?_concat, List.dropLast_concat, ← lexemesOf_unpaired,
    parseAll_lexemes, pair_unpaired]

theorem marksFrom_mark {m : Mark} (h : .word markWord ∉ lexemesOfEntries m.entries)
    (opens : List (List Lexeme)) (r : List Lexeme) :
    marksFrom opens (m.lexemes ++ r) = m :: marksFrom (opens.map (m.lexemes.reverse ++ ·)) r := by
  have hbody : Inert (lexemesOfEntries m.entries ++ [.name m.kind]) :=
    (inert_lexemesOfEntries m.entries h).append (.plain (by simp) (by simp) (by simp) .nil)
  have htext : m.lexemes ++ r =
      .arrayOpen :: ((lexemesOfEntries m.entries ++ [.name m.kind]) ++ .word markWord :: r) := by
    simp [Mark.lexemes]
  rw [htext, marksFrom_arrayOpen, marksFrom_inert hbody, List.map_cons, marksFrom_markWord,
    List.append_nil, List.reverse_reverse, m.ofLexemes?_body]
  simp [Mark.lexemes, Function.comp_def]

theorem marks_eq_marksFrom {xs : List Lexeme} {source : String} (h : Laid xs source.toList) :
    marks source = marksFrom [] xs := by
  rw [marks_eq, lex_laid h]

/-- The marks of a text are the marks written in it, whatever lexemes are before, between and
behind them. -/
theorem marks_of_laid {pieces : List (List Lexeme × Mark)} {last : List Lexeme} {source : String}
    (hpieces : ∀ p ∈ pieces, Inert p.1 ∧ .word markWord ∉ lexemesOfEntries p.2.entries)
    (hlast : Inert last)
    (h : Laid (pieces.flatMap (fun p => p.1 ++ p.2.lexemes) ++ last) source.toList) :
    marks source = pieces.map (·.2) := by
  rw [marks_eq_marksFrom h]
  clear h
  -- No bracket is open between two marks.
  induction pieces with
  | nil => exact marksFrom_eq_nil (not_mem_of_inert hlast) []
  | cons p pieces ih =>
    obtain ⟨hbefore, hvalues⟩ := hpieces p List.mem_cons_self
    have hrest := ih fun q hq => hpieces q (List.mem_cons_of_mem p hq)
    rw [List.flatMap_cons, List.append_assoc, List.append_assoc, marksFrom_inert hbefore,
      List.map_nil, marksFrom_mark hvalues, List.map_nil, hrest, List.map_cons]

/-- An array before the marks, and a string that spells the operator in the first of them. -/
theorem marks_of_laid_adjacent :
    let pieces : List (List Lexeme × Mark) :=
      [([.arrayOpen, .word "a", .arrayClose], ⟨"B", [("A", .string "pdfmark")]⟩), ([], ⟨"C", []⟩)]
    (∀ p ∈ pieces, Inert p.1 ∧ .word markWord ∉ lexemesOfEntries p.2.entries) ∧ Inert [] ∧
    Laid (pieces.flatMap (fun p => p.1 ++ p.2.lexemes) ++ [])
      "[a] [/A (pdfmark) /B pdfmark[/C pdfmark".toList ∧
    marks "[a] [/A (pdfmark) /B pdfmark[/C pdfmark" = pieces.map (·.2) := by
  intro pieces
  have hmark : (Lexeme.word markWord).Spelled "pdfmark".toList :=
    .written ⟨by decide, ⟨'p', "dfmark".toList, rfl, by decide⟩, rfl⟩
  have hword : (Lexeme.word "a").Spelled "a".toList :=
    .written ⟨by decide, ⟨'a', [], rfl, by decide⟩, rfl⟩
  have hname : ∀ s : String, IsRegular s.toList → (Lexeme.name s).Spelled ('/' :: s.toList) :=
    fun s hs => .written ⟨hs, rfl⟩
  have hstring : (Lexeme.string "pdfmark").Spelled "(pdfmark)".toList := .written rfl
  have hopen : Lexeme.arrayOpen.Spelled ['['] := .written rfl
  have hclose : Lexeme.arrayClose.Spelled [']'] := .written rfl
  have hbefore : ∀ {x t c r xs}, x.Spelled t → isDelimiter c = true → Laid xs (c :: r) →
      Laid (x :: xs) (t ++ c :: r) := by
    intro x t c r xs hx hc h
    refine .lexeme hx ?_ h
    intro _ d hd
    obtain rfl : c = d := by simpa using hd
    exact hc
  have hspace : ∀ {r xs}, Laid xs r → Laid xs (' ' :: r) := fun h => .blank (by decide) h
  have hlast : Laid [.word markWord] ("pdfmark".toList ++ []) :=
    .lexeme hmark (by simp [Ends]) .nil
  have hsecond : Laid [.arrayOpen, .name "C", .word markWord]
      (['['] ++ ('/' :: "C".toList ++ ' ' :: ("pdfmark".toList ++ []))) :=
    .lexeme hopen False.elim (hbefore (hname "C" (by decide)) (by decide) (hspace hlast))
  have hkind := hspace (hbefore (hname "B" (by decide)) (by decide)
    (hspace (hbefore hmark (by decide) hsecond)))
  have hfirst := Laid.lexeme hopen False.elim (hbefore (hname "A" (by decide)) (by decide)
    (hspace (.lexeme hstring False.elim hkind)))
  have htext : Laid (pieces.flatMap (fun p => p.1 ++ p.2.lexemes) ++ [])
      "[a] [/A (pdfmark) /B pdfmark[/C pdfmark".toList :=
    .lexeme hopen False.elim (hbefore hword (by decide)
      (.lexeme hclose False.elim (hspace hfirst)))
  have hpieces : ∀ p ∈ pieces, Inert p.1 ∧ .word markWord ∉ lexemesOfEntries p.2.entries := by
    have hinert : Inert [.arrayOpen, .word "a", .arrayClose] :=
      .array (.plain (by simp [markWord]) (by simp) (by simp) .nil) .nil
    simp [pieces, hinert, Inert.nil, lexemesOfEntries, Object.lexemes]
  exact ⟨hpieces, .nil, htext, marks_of_laid hpieces .nil htext⟩

end Galley.Pdf
