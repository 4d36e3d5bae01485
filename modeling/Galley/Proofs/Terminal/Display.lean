import Mathlib.Data.List.SplitBy
import Galley.Proofs.Number.Integer
import Galley.Proofs.Text.Space
import Galley.Terminal.Document
/-!
What a terminal shows of a document. Pages are written as markup and the markup is turned into
escape sequences; a terminal that reads these shows the cells of the pages in their styles, and
writes every line end in the plain style.
-/
namespace Galley.Terminal

/-! The terminal. -/

/-- The style in which a terminal writes; no colour is its default colour. -/
structure Pen where
  bold : Bool
  underline : Bool
  colour : Option Nat
  deriving DecidableEq

namespace Pen

def plain : Pen := ⟨false, false, none⟩

/-- The style after the codes of an escape sequence, if they are all known. -/
def change? : Pen → List Nat → Option Pen
  | p, [] => some p
  | p, 1 :: codes => change? { p with bold := true } codes
  | p, 22 :: codes => change? { p with bold := false } codes
  | p, 4 :: codes => change? { p with underline := true } codes
  | p, 24 :: codes => change? { p with underline := false } codes
  | p, 39 :: codes => change? { p with colour := none } codes
  | p, 38 :: 5 :: n :: codes => change? { p with colour := some n } codes
  | _, _ => none

end Pen

def codes? (s : List Char) : Option (List Nat) := (s.splitOn ';').mapM (Number.digits? 10)

/-- The characters that a terminal shows, each with its style, and the style at the end. There is
no result if an escape sequence is not known. -/
def display? (p : Pen) (s : List Char) : Option (List (Char × Pen) × Pen) :=
  match s with
  | [] => some ([], p)
  | c :: r =>
    if c = '\x1b' then
      match h : Text.cut (· == 'm') r with
      | some ('[' :: codes, rest) =>
        have : rest.length < r.length := Text.cut_length h
        ((codes? codes).bind p.change?).bind fun q => display? q rest
      | _ => none
    else (display? p r).map fun (shown, q) => ((c, p) :: shown, q)
termination_by s.length
decreasing_by all_goals simp <;> omega

theorem display?_nil (p : Pen) : display? p [] = some ([], p) := by
  rw [display?]

theorem display?_char (p : Pen) {c : Char} (h : c ≠ '\x1b') (r : List Char) :
    display? p (c :: r) = (display? p r).map fun (shown, q) => ((c, p) :: shown, q) := by
  rw [display?, if_neg h]

def codesText (codes : List Nat) : List Char := [';'].intercalate (codes.map (Nat.toDigits 10))

theorem codesText_singleton (n : Nat) : codesText [n] = Nat.toDigits 10 n := by
  simp [codesText]

theorem codesText_cons (n m : Nat) (codes : List Nat) :
    codesText (n :: m :: codes) = Nat.toDigits 10 n ++ ';' :: codesText (m :: codes) := by
  rw [codesText, List.map_cons, List.map_cons, List.intercalate_cons_cons, List.append_assoc]
  rfl

theorem codes?_codesText {codes : List Nat} (h : codes ≠ []) :
    codes? (codesText codes) = some codes := by
  have hsplit : (codesText codes).splitOn ';' = codes.map (Nat.toDigits 10) := by
    apply List.splitOn_intercalate
    · intro ds hds hsemi
      obtain ⟨n, -, rfl⟩ := List.mem_map.mp hds
      exact absurd (Number.isDigit_of_mem_toDigits hsemi) (by decide)
    · simpa using h
  have hread : ∀ ns : List Nat,
      (ns.map (Nat.toDigits 10)).mapM (Number.digits? 10) = some ns := by
    intro ns
    induction ns with
    | nil => rfl
    | cons n ns ih =>
      rw [List.map_cons, List.mapM_cons, Number.digits?_toDigits, ih]
      rfl
  rw [codes?, hsplit, hread]

theorem not_mem_codesText {c : Char} (hc : c.isDigit = false) (hsemi : c ≠ ';')
    (codes : List Nat) : c ∉ codesText codes := by
  have hdigits : ∀ n, c ∉ Nat.toDigits 10 n := by
    intro n hn
    rw [Number.isDigit_of_mem_toDigits hn] at hc
    exact absurd hc (by decide)
  induction codes with
  | nil => simp [codesText]
  | cons n codes ih =>
    cases codes with
    | nil =>
      rw [codesText_singleton]
      exact hdigits n
    | cons m codes =>
      rw [codesText_cons, List.mem_append, List.mem_cons]
      simp [hdigits n, hsemi, ih]

theorem display?_sequence (p : Pen) {codes : List Nat} (h : codes ≠ []) (r : List Char) :
    display? p ('\x1b' :: '[' :: codesText codes ++ 'm' :: r) =
      (p.change? codes).bind fun q => display? q r := by
  have hm : 'm' ∉ '[' :: codesText codes := by
    simp [not_mem_codesText (c := 'm') (by decide) (by decide) codes]
  have hcut := Text.cut_of_not_mem hm r
  rw [List.cons_append, List.cons_append, display?, if_pos rfl]
  split
  · next h' =>
    rw [← List.cons_append, hcut] at h'
    cases h'
    rw [codes?_codesText h]
    rfl
  · next h' => exact absurd hcut (h' _ _)

namespace Pen

def Takes (p : Pen) (sequence : String) (q : Pen) : Prop :=
  ∀ r, display? p (sequence.toList ++ r) = display? q r

theorem Takes.append {p q r : Pen} {s t : String} (hs : p.Takes s q) (ht : q.Takes t r) :
    p.Takes (s ++ t) r := by
  intro rest
  rw [String.toList_append, List.append_assoc, hs, ht]

theorem takes_sgrSequence {p q : Pen} {s : String} (codes : List Nat) (h : codes ≠ [])
    (hs : s.toList = codesText codes) (hq : p.change? codes = some q) :
    p.Takes (sgrSequence s) q := by
  intro r
  have htext : (sgrSequence s).toList ++ r = '\x1b' :: '[' :: codesText codes ++ 'm' :: r := by
    simp [sgrSequence, hs]
  rw [htext, display?_sequence p h, hq, Option.bind_some]

end Pen

/-! Markup as the terminal sees it. -/

theorem ansiFrom_tag (name : List Char) {bold still : List Bool} {sequence : String}
    (hname : '>' ∉ name) (h : tag? name bold = some (sequence, still))
    (r : List Char) :
    ansiFrom bold ('<' :: name ++ '>' :: r) = sequence.toList ++ ansiFrom still r := by
  have hcut := Text.cut_of_not_mem hname r
  rw [List.cons_append, ansiFrom, if_pos rfl]
  split
  · next h' =>
    rw [hcut] at h'
    cases h'
  · next h' =>
    rw [hcut] at h'
    cases h'
    rw [h]

theorem ansiFrom_entity (name : List Char) {c : Char} (bold : List Bool)
    (hname : ';' ∉ name) (h : entity? name = some c) (r : List Char) :
    ansiFrom bold ('&' :: name ++ ';' :: r) = c :: ansiFrom bold r := by
  have hcut := Text.cut_of_not_mem hname r
  rw [List.cons_append, ansiFrom, if_neg (by decide), if_pos rfl]
  split
  · next h' =>
    rw [hcut] at h'
    cases h'
  · next h' =>
    rw [hcut] at h'
    cases h'
    rw [h]

theorem ansiFrom_char {c : Char} (bold : List Bool) (hopen : c ≠ '<') (hamp : c ≠ '&')
    (r : List Char) : ansiFrom bold (c :: r) = c :: ansiFrom bold r := by
  rw [ansiFrom, if_neg hopen, if_neg hamp]

theorem ansiFrom_markupChar (c : Char) (bold : List Bool) (r : List Char) :
    ansiFrom bold (markupChar c ++ r) = c :: ansiFrom bold r := by
  by_cases hlt : c = '<'
  · subst hlt
    exact ansiFrom_entity "lt".toList bold (by decide) rfl r
  by_cases hgt : c = '>'
  · subst hgt
    exact ansiFrom_entity "gt".toList bold (by decide) rfl r
  by_cases hamp : c = '&'
  · subst hamp
    exact ansiFrom_entity "amp".toList bold (by decide) rfl r
  have hself : markupChar c = [c] := by
    rw [markupChar]
    · exact hlt
    · exact hgt
    · exact hamp
  rw [hself]
  exact ansiFrom_char bold hlt hamp r

/-! Texts and what is read of them, put together from parts. -/

section
variable {α β γ : Type} {P : List α → List β → Prop}

theorem flatMap_of_append (hnil : P [] [])
    (happend : ∀ {m n a b}, P m a → P n b → P (m ++ n) (a ++ b)) {xs : List γ} {f : γ → List α}
    {g : γ → List β} (h : ∀ x ∈ xs, P (f x) (g x)) : P (xs.flatMap f) (xs.flatMap g) := by
  induction xs with
  | nil => exact hnil
  | cons x xs ih =>
    obtain ⟨hx, hxs⟩ := List.forall_mem_cons.mp h
    exact happend hx (ih hxs)

theorem intercalate_of_append (hnil : P [] [])
    (happend : ∀ {m n a b}, P m a → P n b → P (m ++ n) (a ++ b)) {xs : List γ} {f : γ → List α}
    {g : γ → List β} {m : List α} {a : List β} (hm : P m a) (h : ∀ x ∈ xs, P (f x) (g x)) :
    P (m.intercalate (xs.map f)) (a.intercalate (xs.map g)) := by
  induction xs with
  | nil => exact hnil
  | cons x xs ih =>
    obtain ⟨hx, hxs⟩ := List.forall_mem_cons.mp h
    cases xs with
    | nil => simpa using hx
    | cons y ys =>
      simp only [List.map_cons, List.intercalate_cons_cons]
      exact happend (happend hx hm) (ih hxs)

end

/-- A terminal while it is shown markup: its style, and the open bold elements of the markup, each
with whether it set a colour. -/
structure Reader where
  pen : Pen
  bold : List Bool

namespace Reader

def read? (s : Reader) (markup : List Char) : Option (List (Char × Pen) × Pen) :=
  display? s.pen (ansiFrom s.bold markup)

def Reads (s : Reader) (markup : List Char) (shown : List (Char × Pen)) (t : Reader) : Prop :=
  ∀ r, s.read? (markup ++ r) = (t.read? r).map fun (more, q) => (shown ++ more, q)

theorem reads_nil (s : Reader) : s.Reads [] [] s := by
  intro r
  simp

theorem Reads.append {s t u : Reader} {m n : List Char} {a b : List (Char × Pen)}
    (hm : s.Reads m a t) (hn : t.Reads n b u) : s.Reads (m ++ n) (a ++ b) u := by
  intro r
  rw [List.append_assoc, hm, hn, Option.map_map]
  congr 1
  funext x
  simp

theorem reads_flatMap {α : Type} {s : Reader} {xs : List α} {f : α → List Char}
    {g : α → List (Char × Pen)} (h : ∀ x ∈ xs, s.Reads (f x) (g x) s) :
    s.Reads (xs.flatMap f) (xs.flatMap g) s :=
  flatMap_of_append (P := (s.Reads · · s)) (reads_nil s) Reads.append h

theorem reads_intercalate {α : Type} {s : Reader} {xs : List α} {f : α → List Char}
    {g : α → List (Char × Pen)} {m : List Char} {a : List (Char × Pen)} (hm : s.Reads m a s)
    (h : ∀ x ∈ xs, s.Reads (f x) (g x) s) :
    s.Reads (m.intercalate (xs.map f)) (a.intercalate (xs.map g)) s :=
  intercalate_of_append (P := (s.Reads · · s)) (reads_nil s) Reads.append hm h

theorem reads_char (s : Reader) {c : Char} (h : c ≠ '\x1b') :
    s.Reads (markupChar c) [(c, s.pen)] s := by
  intro r
  rw [read?, ansiFrom_markupChar, display?_char s.pen h]
  rfl

theorem reads_tag {p q : Pen} {bold still : List Bool} (name : List Char) {sequence : String}
    (hname : '>' ∉ name) (htag : tag? name bold = some (sequence, still))
    (hq : p.Takes sequence q) :
    (⟨p, bold⟩ : Reader).Reads ('<' :: name ++ ['>']) [] ⟨q, still⟩ := by
  intro r
  rw [read?, List.append_assoc, List.singleton_append, ansiFrom_tag name hname htag, hq]
  simp [read?]

end Reader

/-! Tags. -/

theorem tag?_of_blank {name : List Char} (bold : List Bool) (h : ' ' ∈ name) :
    tag? name bold = colourTag? name bold := by
  -- None of the tags that are matched as they stand has a blank in it.
  have hne : ∀ s : String, ' ' ∉ s.toList → String.ofList name ≠ s := by
    rintro s hs rfl
    rw [String.toList_ofList] at hs
    exact hs h
  unfold tag?
  split
  · next hb => exact absurd hb (hne _ (by decide))
  · next hu => exact absurd hu (hne _ (by decide))
  · next hb => exact absurd hb (hne _ (by decide))
  · next hu => exact absurd hu (hne _ (by decide))
  · next hs => exact absurd hs (hne _ (by decide))
  · rfl

def colourName (element : String) (n : Nat) : List Char :=
  (element ++ " data-sgr=\"").toList ++ Nat.toDigits 10 n ++ "\"".toList

theorem colourIn?_colourName (element : String) {n : Nat} (h : n < 256) :
    colourIn? element (colourName element n) = some n := by
  have hfront : (element ++ " data-sgr=\"").toList.isPrefixOf? (colourName element n) =
      some (Nat.toDigits 10 n ++ "\"".toList) := by
    rw [List.isPrefixOf?_eq_some_iff_append_eq, colourName, List.append_assoc]
  have hback : "\"".toList.isSuffixOf? (Nat.toDigits 10 n ++ "\"".toList) =
      some (Nat.toDigits 10 n) := by
    rw [List.isSuffixOf?_eq_some_iff_append_eq]
  rw [colourIn?, hfront, Option.bind_some, hback, Option.bind_some, Number.below?_toDigits h]

theorem blank_mem_colourName (element : String) (n : Nat) : ' ' ∈ colourName element n := by
  simp [colourName]

theorem tag?_bold {n : Nat} (bold : List Bool) (h : n < 256) :
    tag? (colourName "b" n) bold = some (sgrSequence s!"1;38;5;{n}", true :: bold) := by
  rw [tag?_of_blank bold (blank_mem_colourName "b" n), colourTag?, colourIn?_colourName "b" h]

theorem tag?_span {n : Nat} (bold : List Bool) (h : n < 256) :
    tag? (colourName "span" n) bold = some (sgrSequence s!"38;5;{n}", bold) := by
  have hb : colourIn? "b" (colourName "span" n) = none := rfl
  rw [tag?_of_blank bold (blank_mem_colourName "span" n), colourTag?, hb,
    colourIn?_colourName "span" h]
  rfl

/-- The style in which a cell is to be shown. -/
def penOf (sgr : Bool) (c : Cell) : Pen where
  bold := c.face.isBold
  underline := c.face.isItalic
  colour := if sgr && 0 ≤ c.colour then some c.colour.toNat else none

theorem not_mem_colourName {element : String} (h : '>' ∉ element.toList) (n : Nat) :
    '>' ∉ colourName element n := by
  have hdigits : '>' ∉ Nat.toDigits 10 n :=
    fun hn => absurd (Number.isDigit_of_mem_toDigits hn) (by decide)
  simp [colourName, h, hdigits]

theorem toList_toString (n : Nat) : (toString (n : Int)).toList = Nat.toDigits 10 n :=
  Nat.toList_repr

theorem toList_colourTag (element : String) {opening : String} (n : Nat)
    (h : opening.toList = '<' :: (element ++ " data-sgr=\"").toList) :
    (opening ++ toString (n : Int) ++ "\">").toList = '<' :: colourName element n ++ ['>'] := by
  rw [String.toList_append, String.toList_append, toList_toString, h, colourName]
  simp only [List.append_assoc, List.cons_append]
  rfl

namespace Pen

theorem takes_code {p q : Pen} (n : Nat) (h : p.change? [n] = some q) :
    p.Takes (sgrSequence (toString n)) q :=
  takes_sgrSequence [n] (by simp) (by simp [codesText_singleton]) h

theorem takes_colour (p : Pen) (n : Nat) :
    p.Takes (sgrSequence s!"38;5;{n}") { p with colour := some n } := by
  refine takes_sgrSequence [38, 5, n] (by simp) ?_ rfl
  rw [codesText_cons, codesText_cons, codesText_singleton, ← Nat.toList_repr (n := n)]
  simp only [String.toList_append]
  rfl

theorem takes_boldColour (p : Pen) (n : Nat) :
    p.Takes (sgrSequence s!"1;38;5;{n}") { p with bold := true, colour := some n } := by
  refine takes_sgrSequence [1, 38, 5, n] (by simp) ?_ rfl
  rw [codesText_cons, codesText_cons, codesText_cons, codesText_singleton,
    ← Nat.toList_repr (n := n)]
  simp only [String.toList_append]
  rfl

end Pen

namespace Reader

def inside (sgr : Bool) (style : Cell) (bold : List Bool) : Reader where
  pen := { penOf sgr style with underline := false }
  bold := if style.face.isBold then (sgr && 0 ≤ style.colour) :: bold else bold

theorem reads_spanTag {n : Nat} (bold : List Bool) (h : n < 256) :
    (⟨.plain, bold⟩ : Reader).Reads (s!"<span data-sgr=\"{(n : Int)}\">").toList []
      ⟨⟨false, false, some n⟩, bold⟩ := by
  have htext : (s!"<span data-sgr=\"{(n : Int)}\">").toList =
      '<' :: colourName "span" n ++ ['>'] := toList_colourTag "span" n rfl
  rw [htext]
  exact reads_tag _ (not_mem_colourName (by decide) n)
    (tag?_span bold h) (Pen.takes_colour _ n)

theorem reads_boldColourTag {n : Nat} (bold : List Bool) (h : n < 256) :
    (⟨.plain, bold⟩ : Reader).Reads (s!"<b data-sgr=\"{(n : Int)}\">").toList []
      ⟨⟨true, false, some n⟩, true :: bold⟩ := by
  have htext : (s!"<b data-sgr=\"{(n : Int)}\">").toList =
      '<' :: colourName "b" n ++ ['>'] := toList_colourTag "b" n rfl
  rw [htext]
  exact reads_tag _ (not_mem_colourName (by decide) n)
    (tag?_bold bold h) (Pen.takes_boldColour _ n)

theorem reads_boldColourEnd (n : Nat) (bold : List Bool) :
    (⟨⟨true, false, some n⟩, true :: bold⟩ : Reader).Reads "</b>".toList [] ⟨.plain, bold⟩ := by
  have hpen : (⟨true, false, some n⟩ : Pen).Takes (sgrSequence "22" ++ sgrSequence "39") .plain :=
    (Pen.takes_code 22 rfl).append (Pen.takes_code 39 rfl)
  have htag : tag? "/b".toList (true :: bold) =
      some (sgrSequence "22" ++ sgrSequence "39", bold) := rfl
  exact reads_tag "/b".toList (by decide) htag hpen

theorem reads_colourTags (sgr : Bool) {style : Cell} (hcolour : style.colour ≤ 255)
    (bold : List Bool) :
    (⟨.plain, bold⟩ : Reader).Reads (colourTags style sgr).1.toList [] (inside sgr style bold) ∧
    (inside sgr style bold).Reads (colourTags style sgr).2.toList [] ⟨.plain, bold⟩ := by
  -- The end tag of a bold element does not say whether there was a colour; the entry that the
  -- opening tag left on the list of open elements does.
  by_cases hc : (sgr && decide (0 ≤ style.colour)) = true
  · obtain ⟨rfl, hn⟩ : sgr = true ∧ 0 ≤ style.colour := by simpa using hc
    obtain ⟨n, hn⟩ := Int.eq_ofNat_of_zero_le hn
    have hlt : n < 256 := by omega
    cases hb : style.face.isBold
    case false =>
      have htags : colourTags style true = (s!"<span data-sgr=\"{(n : Int)}\">", "</span>") := by
        simp [colourTags, hb, hn]
      have hinside : inside true style bold = ⟨⟨false, false, some n⟩, bold⟩ := by
        simp [inside, penOf, hb, hn]
      have hend : (⟨⟨false, false, some n⟩, bold⟩ : Reader).Reads "</span>".toList []
          ⟨.plain, bold⟩ := reads_tag "/span".toList (by decide) rfl (Pen.takes_code 39 rfl)
      rw [hinside, htags]
      exact ⟨reads_spanTag bold hlt, hend⟩
    case true =>
      have htags : colourTags style true = (s!"<b data-sgr=\"{(n : Int)}\">", "</b>") := by
        simp [colourTags, hb, hn]
      have hinside : inside true style bold = ⟨⟨true, false, some n⟩, true :: bold⟩ := by
        simp [inside, penOf, hb, hn]
      rw [hinside, htags]
      exact ⟨reads_boldColourTag bold hlt, reads_boldColourEnd n bold⟩
  · rw [Bool.not_eq_true] at hc
    cases hb : style.face.isBold
    case false =>
      have htags : colourTags style sgr = ("", "") := by simp only [colourTags, hb, hc]
      have hinside : inside sgr style bold = ⟨.plain, bold⟩ := by
        simp [inside, penOf, hb, hc, Pen.plain]
      rw [hinside, htags]
      exact ⟨reads_nil _, reads_nil _⟩
    case true =>
      have htags : colourTags style sgr = ("<b>", "</b>") := by simp only [colourTags, hb, hc]
      have hinside : inside sgr style bold = ⟨⟨true, false, none⟩, false :: bold⟩ := by
        simp [inside, penOf, hb, hc]
      rw [hinside, htags]
      exact ⟨reads_tag "b".toList (by decide) rfl (Pen.takes_code 1 rfl),
        reads_tag "/b".toList (by decide) rfl (Pen.takes_code 22 rfl)⟩

def within (sgr : Bool) (style : Cell) (bold : List Bool) : Reader :=
  { inside sgr style bold with pen := penOf sgr style }

theorem reads_underlineTags (sgr : Bool) (style : Cell) (bold : List Bool) :
    (inside sgr style bold).Reads (underlineTags style).1.toList [] (within sgr style bold) ∧
    (within sgr style bold).Reads (underlineTags style).2.toList [] (inside sgr style bold) := by
  cases hi : style.face.isItalic
  case false =>
    have hsame : within sgr style bold = inside sgr style bold := by
      simp [within, inside, penOf, hi]
    rw [hsame, underlineTags, hi, if_neg Bool.false_ne_true]
    exact ⟨reads_nil _, reads_nil _⟩
  case true =>
    have hwithin : within sgr style bold =
        { inside sgr style bold with pen := { penOf sgr style with underline := true } } := by
      simp [within, penOf, hi]
    rw [hwithin, underlineTags, hi, if_pos rfl]
    exact ⟨reads_tag "u".toList (by decide) rfl (Pen.takes_code 4 rfl),
      reads_tag "/u".toList (by decide) rfl (Pen.takes_code 24 rfl)⟩

end Reader

/-! Cells, rows and pages. -/

def shownCell (sgr : Bool) (c : Cell) : Char × Pen := (c.ch, penOf sgr c)

def shownRow (sgr : Bool) (row : List Cell) : List (Char × Pen) :=
  row.map (shownCell sgr) ++ [('\n', .plain)]

def shownPage (trim sgr : Bool) (g : Grid) : List (Char × Pen) :=
  (g.outputRows trim).flatMap (shownRow sgr)

/-- Cells that a terminal can show: their colours are in its palette, and their characters do not
begin an escape sequence. -/
def Cell.Showable (c : Cell) : Prop := -1 ≤ c.colour ∧ c.colour ≤ 255 ∧ c.ch ≠ '\x1b'

namespace Reader

theorem reads_cells {s : Reader} {cells : List Cell} (h : ∀ c ∈ cells, c.ch ≠ '\x1b') :
    s.Reads (cells.flatMap fun c => markupChar c.ch) (cells.map fun c => (c.ch, s.pen)) s := by
  have hmap : (cells.map fun c => (c.ch, s.pen)) = cells.flatMap fun c => [(c.ch, s.pen)] :=
    List.map_eq_flatMap
  rw [hmap]
  exact reads_flatMap fun c hc => s.reads_char (h c hc)

theorem reads_run {sgr : Bool} {style : Cell} {cells : List Cell} (bold : List Bool)
    (hstyle : ∀ c ∈ style :: cells, Cell.sameStyle style c = true)
    (hshow : ∀ c ∈ style :: cells, c.Showable) :
    (⟨.plain, bold⟩ : Reader).Reads (runMarkup sgr (style :: cells)).toList
      ((style :: cells).map (shownCell sgr)) ⟨.plain, bold⟩ := by
  have hcolour : style.colour ≤ 255 := (hshow style List.mem_cons_self).2.1
  obtain ⟨hopen, hclose⟩ := reads_colourTags sgr hcolour bold
  obtain ⟨hline, hlineEnd⟩ := reads_underlineTags sgr style bold
  have hcells : (within sgr style bold).Reads
      ((style :: cells).flatMap fun c => markupChar c.ch)
      ((style :: cells).map (shownCell sgr)) (within sgr style bold) := by
    have h := reads_cells (s := within sgr style bold) fun c hc => (hshow c hc).2.2
    -- The tags are those of the first cell, whose style all the others have.
    have hsame : (style :: cells).map (shownCell sgr) =
        (style :: cells).map fun c => (c.ch, (within sgr style bold).pen) := by
      apply List.map_congr_left
      intro c hc
      have hc := hstyle c hc
      simp only [Cell.sameStyle, decide_eq_true_eq] at hc
      simp [shownCell, within, penOf, hc.1, hc.2]
    rwa [hsame]
  have hrun := (((hopen.append hline).append hcells).append hlineEnd).append hclose
  simpa [runMarkup] using hrun

theorem sameStyle_of_isChain {style : Cell} {cells : List Cell}
    (h : (style :: cells).IsChain fun a b => Cell.sameStyle a b = true) :
    ∀ c ∈ style :: cells, Cell.sameStyle style c = true := by
  induction cells generalizing style with
  | nil => simp [Cell.sameStyle]
  | cons d cells ih =>
    obtain ⟨hd, hrest⟩ := List.isChain_cons_cons.mp h
    have hds := ih hrest
    simp only [Cell.sameStyle, decide_eq_true_eq] at hd hds ⊢
    intro c hc
    obtain rfl | hc := List.mem_cons.mp hc
    · exact ⟨rfl, rfl⟩
    · exact ⟨hd.1.trans (hds c hc).1, hd.2.trans (hds c hc).2⟩

theorem reads_row {sgr : Bool} {row : List Cell} (bold : List Bool)
    (hshow : ∀ c ∈ row, c.Showable) :
    (⟨.plain, bold⟩ : Reader).Reads (rowMarkup sgr row).toList (row.map (shownCell sgr))
      ⟨.plain, bold⟩ := by
  have hruns : row.map (shownCell sgr) =
      (row.splitBy Cell.sameStyle).flatMap fun run => run.map (shownCell sgr) := by
    rw [List.flatMap_def, ← List.map_flatten, List.flatten_splitBy]
  have htext : (rowMarkup sgr row).toList =
      (row.splitBy Cell.sameStyle).flatMap fun run => (runMarkup sgr run).toList := by
    rw [rowMarkup, String.toList_join, List.flatMap_map]
  rw [hruns, htext]
  apply reads_flatMap
  intro run hrun
  have hchain := List.isChain_of_mem_splitBy hrun
  have hcells : ∀ c ∈ run, c.Showable := by
    intro c hc
    apply hshow
    rw [← List.flatten_splitBy Cell.sameStyle row]
    exact List.mem_flatten.mpr ⟨run, hrun, hc⟩
  cases run with
  | nil => exact absurd rfl (List.ne_nil_of_mem_splitBy hrun)
  | cons style cells => exact reads_run bold (sameStyle_of_isChain hchain) hcells

theorem reads_newline (s : Reader) : s.Reads "\n".toList [('\n', s.pen)] s :=
  s.reads_char (c := '\n') (by decide)

theorem reads_page {trim sgr : Bool} {g : Grid} (bold : List Bool)
    (hshow : ∀ row ∈ g.outputRows trim, ∀ c ∈ row, c.Showable) :
    (⟨.plain, bold⟩ : Reader).Reads (pageMarkup trim sgr g).toList (shownPage trim sgr g)
      ⟨.plain, bold⟩ := by
  have htext : (pageMarkup trim sgr g).toList =
      (g.outputRows trim).flatMap fun row => (rowMarkup sgr row).toList ++ "\n".toList := by
    rw [pageMarkup, String.toList_join, List.flatMap_map]
    simp only [String.toList_append]
  rw [htext]
  apply reads_flatMap
  intro row hrow
  exact (reads_row bold (hshow row hrow)).append (reads_newline _)

end Reader

theorem Grid.mem_of_mem_dropEnd {α : Type} {p : α → Bool} {l : List α} {x : α}
    (h : x ∈ dropEnd p l) : x ∈ l := by
  rw [dropEnd, List.mem_reverse] at h
  exact List.mem_reverse.mp ((List.dropWhile_sublist p).subset h)

theorem Grid.exists_mem_of_mem_outputRows {g : Grid} {trim : Bool} {row : List Cell} {c : Cell}
    (hrow : row ∈ g.outputRows trim) (hc : c ∈ row) : ∃ r ∈ g.rows, c ∈ r := by
  have hrows : ∃ r ∈ g.rows, ∀ c ∈ row, c ∈ r := by
    rw [outputRows] at hrow
    cases trim with
    | false =>
      simp only [Bool.false_eq_true, if_false, List.mem_map] at hrow
      obtain ⟨r, hr, rfl⟩ := hrow
      exact ⟨r, Array.mem_toList_iff.mp hr, fun c hc => Array.mem_toList_iff.mp hc⟩
    | true =>
      simp only [if_true, List.map_map] at hrow
      obtain ⟨r, hr, rfl⟩ := List.mem_map.mp (mem_of_mem_dropEnd hrow)
      exact ⟨r, Array.mem_toList_iff.mp hr,
        fun c hc => Array.mem_toList_iff.mp (mem_of_mem_dropEnd hc)⟩
  obtain ⟨r, hr, hcells⟩ := hrows
  exact ⟨r, hr, hcells c hc⟩

/-- A terminal that reads a document with escape sequences shows the rows of its pages, cell by
cell in the style of each cell, and an empty line between two pages. It ends every line, and the
whole, in the plain style. -/
theorem display_toAnsi (d : Document) (h : ∀ g ∈ d.pages, ∀ r ∈ g.rows, ∀ c ∈ r, c.Showable) :
    display? .plain d.toAnsi.toList =
      some ([('\n', .plain)].intercalate (d.pages.map (shownPage d.options.trim d.screen.sgr)),
        .plain) := by
  have hpages : ∀ g ∈ d.pages, (⟨.plain, []⟩ : Reader).Reads
      (pageMarkup d.options.trim d.screen.sgr g).toList
      (shownPage d.options.trim d.screen.sgr g) ⟨.plain, []⟩ := by
    intro g hg
    apply Reader.reads_page
    intro row hrow c hc
    obtain ⟨r, hr, hmem⟩ := Grid.exists_mem_of_mem_outputRows hrow hc
    exact h g hg r hr c hmem
  have hall := Reader.reads_intercalate (Reader.reads_newline ⟨.plain, []⟩) hpages []
  have htext : d.toHtml.toList = "\n".toList.intercalate
      (d.pages.map fun g => (pageMarkup d.options.trim d.screen.sgr g).toList) := by
    rw [Document.toHtml, Document.joinPages, String.toList_intercalate, List.map_map]
    rfl
  rw [Document.toAnsi, ansiOfMarkup, String.toList_ofList, htext]
  simpa [Reader.read?, ansiFrom, display?_nil] using hall

/-- Text that looks like markup, in two styles. -/
theorem display_toAnsi_bold_bracket :
    let page : Grid := ⟨#[#[⟨'<', .boldItalic, 196⟩, ⟨'b', .regular, -1⟩]]⟩
    let d : Document := ⟨{}, { Screen.initial ⟨240, 24, 40⟩ true with pages := [page] }, [], none⟩
    (∀ g ∈ d.pages, ∀ r ∈ g.rows, ∀ c ∈ r, c.Showable) ∧
    display? .plain d.toAnsi.toList =
      some ([('<', ⟨true, true, some 196⟩), ('b', .plain), ('\n', .plain)], .plain) := by
  intro page d
  have h : ∀ g ∈ d.pages, ∀ r ∈ g.rows, ∀ c ∈ r, c.Showable := by
    simp [d, page, Document.pages, Cell.Showable]
  exact ⟨h, (display_toAnsi d h).trans rfl⟩

end Galley.Terminal
