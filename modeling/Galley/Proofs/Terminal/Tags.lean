import Galley.Proofs.Terminal.Display
/-!
The tags in the markup of pages. Characters of cells are written so that they begin no tag, so all
the tags are those of the styles of runs, and only they say something about colour.
-/
namespace Galley.Terminal

/-! Texts that are read part by part. -/

section
variable {σ β γ : Type} {f : σ → List Char → List β} {s t u : σ}

/-- A part of a text gives some results and leads from one state of a reader to another. -/
def Emits (f : σ → List Char → List β) (s : σ) (part : List Char) (out : List β) (t : σ) : Prop :=
  ∀ r, f s (part ++ r) = out ++ f t r

theorem emits_nil : Emits f s [] [] s := fun _ => rfl

theorem Emits.append {m n : List Char} {a b : List β} (hm : Emits f s m a t)
    (hn : Emits f t n b u) : Emits f s (m ++ n) (a ++ b) u := by
  intro r
  rw [List.append_assoc, hm, hn, List.append_assoc]

theorem emits_flatMap {xs : List γ} {g : γ → List Char} {out : γ → List β}
    (h : ∀ x ∈ xs, Emits f s (g x) (out x) s) : Emits f s (xs.flatMap g) (xs.flatMap out) s :=
  flatMap_of_append (P := (Emits f s · · s)) emits_nil Emits.append h

theorem emits_intercalate {xs : List γ} {g : γ → List Char} {out : γ → List β} {m : List Char}
    {a : List β} (hm : Emits f s m a s) (h : ∀ x ∈ xs, Emits f s (g x) (out x) s) :
    Emits f s (m.intercalate (xs.map g)) (a.intercalate (xs.map out)) s :=
  intercalate_of_append (P := (Emits f s · · s)) emits_nil Emits.append hm h

theorem Emits.eq {m : List Char} {a : List β} (h : Emits f s m a t) (hnil : f t [] = []) :
    f s m = a := by
  have hm := h []
  rwa [hnil, List.append_nil, List.append_nil] at hm

end

/-! Tags. -/

/-- The texts between angle brackets, given what is read of an open tag, last character first. -/
def tagsFrom : Option (List Char) → List Char → List (List Char)
  | _, [] => []
  | none, c :: r => if c = '<' then tagsFrom (some []) r else tagsFrom none r
  | some t, c :: r => if c = '>' then t.reverse :: tagsFrom none r else tagsFrom (some (c :: t)) r

def tags (markup : String) : List (List Char) := tagsFrom none markup.toList

theorem emits_tag (name : List Char) (h : '>' ∉ name) :
    Emits tagsFrom none ('<' :: name ++ ['>']) [name] none := by
  have hinside : ∀ seen,
      Emits tagsFrom (some seen) (name ++ ['>']) [seen.reverse ++ name] none := by
    induction name with
    | nil => simp [Emits, tagsFrom]
    | cons c name ih =>
      intro seen r
      have hc : c ≠ '>' := by
        rintro rfl
        exact h List.mem_cons_self
      have hrest := ih (fun hmem => h (List.mem_cons_of_mem c hmem)) (c :: seen) r
      rw [List.cons_append, List.cons_append, tagsFrom, if_neg hc, hrest]
      simp
  exact hinside []

theorem emits_markupChar (c : Char) : Emits tagsFrom none (markupChar c) [] none := by
  unfold markupChar
  split
  · exact fun _ => rfl
  · exact fun _ => rfl
  · exact fun _ => rfl
  · next hlt _ _ => exact fun r => if_neg hlt

def colourNames (sgr : Bool) (style : Cell) : List (List Char) × List (List Char) :=
  match style.face.isBold, sgr && 0 ≤ style.colour with
  | true, true => ([colourName "b" style.colour.toNat], ["/b".toList])
  | true, false => (["b".toList], ["/b".toList])
  | false, true => ([colourName "span" style.colour.toNat], ["/span".toList])
  | false, false => ([], [])

def underlineNames (style : Cell) : List (List Char) × List (List Char) :=
  if style.face.isItalic then (["u".toList], ["/u".toList]) else ([], [])

def runNames (sgr : Bool) (style : Cell) : List (List Char) :=
  (colourNames sgr style).1 ++ (underlineNames style).1 ++ (underlineNames style).2 ++
    (colourNames sgr style).2

theorem emits_colourTag {element opening : String} (n : Nat) (hname : '>' ∉ element.toList)
    (h : opening.toList = '<' :: (element ++ " data-sgr=\"").toList) :
    Emits tagsFrom none (opening ++ toString (n : Int) ++ "\">").toList
      [colourName element n] none := by
  rw [toList_colourTag element n h]
  exact emits_tag _ (not_mem_colourName hname n)

theorem emits_colourTags (sgr : Bool) (style : Cell) :
    Emits tagsFrom none (colourTags style sgr).1.toList (colourNames sgr style).1 none ∧
    Emits tagsFrom none (colourTags style sgr).2.toList (colourNames sgr style).2 none := by
  by_cases hc : (sgr && decide (0 ≤ style.colour)) = true
  · obtain ⟨rfl, hn⟩ : sgr = true ∧ 0 ≤ style.colour := by simpa using hc
    obtain ⟨n, hn⟩ := Int.eq_ofNat_of_zero_le hn
    cases hb : style.face.isBold
    case false =>
      have htags : colourTags style true = (s!"<span data-sgr=\"{(n : Int)}\">", "</span>") := by
        simp [colourTags, hb, hn]
      have hnames : colourNames true style = ([colourName "span" n], ["/span".toList]) := by
        simp [colourNames, hb, hn]
      have hend : Emits tagsFrom none "</span>".toList ["/span".toList] none :=
        emits_tag "/span".toList (by decide)
      rw [htags, hnames]
      exact ⟨emits_colourTag n (by decide) rfl, hend⟩
    case true =>
      have htags : colourTags style true = (s!"<b data-sgr=\"{(n : Int)}\">", "</b>") := by
        simp [colourTags, hb, hn]
      have hnames : colourNames true style = ([colourName "b" n], ["/b".toList]) := by
        simp [colourNames, hb, hn]
      have hend : Emits tagsFrom none "</b>".toList ["/b".toList] none :=
        emits_tag "/b".toList (by decide)
      rw [htags, hnames]
      exact ⟨emits_colourTag n (by decide) rfl, hend⟩
  · rw [Bool.not_eq_true] at hc
    cases hb : style.face.isBold <;> simp only [colourTags, colourNames, hb, hc]
    · exact ⟨emits_nil, emits_nil⟩
    · exact ⟨emits_tag "b".toList (by decide), emits_tag "/b".toList (by decide)⟩

theorem emits_underlineTags (style : Cell) :
    Emits tagsFrom none (underlineTags style).1.toList (underlineNames style).1 none ∧
    Emits tagsFrom none (underlineTags style).2.toList (underlineNames style).2 none := by
  rw [underlineTags, underlineNames]
  split
  · exact ⟨emits_tag "u".toList (by decide), emits_tag "/u".toList (by decide)⟩
  · exact ⟨emits_nil, emits_nil⟩

theorem emits_run (sgr : Bool) (cells : List Cell) :
    Emits tagsFrom none (runMarkup sgr cells).toList (runNames sgr (cells.headD .blank)) none := by
  obtain ⟨hopen, hclose⟩ := emits_colourTags sgr (cells.headD .blank)
  obtain ⟨hline, hlineEnd⟩ := emits_underlineTags (cells.headD .blank)
  have hcells : Emits tagsFrom none (cells.flatMap fun c => markupChar c.ch)
      [] none := by
    have hnone := emits_flatMap fun c (_ : c ∈ cells) => emits_markupChar c.ch
    rwa [List.flatMap_eq_nil_iff.mpr fun _ _ => rfl] at hnone
  have hrun := (((hopen.append hline).append hcells).append hlineEnd).append hclose
  simpa [runMarkup, runNames] using hrun

def rowNames (sgr : Bool) (row : List Cell) : List (List Char) :=
  (row.splitBy Cell.sameStyle).flatMap fun run => runNames sgr (run.headD .blank)

theorem emits_row (sgr : Bool) (row : List Cell) :
    Emits tagsFrom none (rowMarkup sgr row).toList (rowNames sgr row) none := by
  have htext : (rowMarkup sgr row).toList =
      (row.splitBy Cell.sameStyle).flatMap fun run => (runMarkup sgr run).toList := by
    rw [rowMarkup, String.toList_join, List.flatMap_map]
  rw [htext]
  exact emits_flatMap fun run _ => emits_run sgr run

theorem emits_page (trim sgr : Bool) (g : Grid) :
    Emits tagsFrom none (pageMarkup trim sgr g).toList ((g.outputRows trim).flatMap (rowNames sgr))
      none := by
  have htext : (pageMarkup trim sgr g).toList =
      (g.outputRows trim).flatMap fun row => (rowMarkup sgr row).toList ++ "\n".toList := by
    rw [pageMarkup, String.toList_join, List.flatMap_map]
    simp only [String.toList_append]
  have hline : Emits tagsFrom none "\n".toList [] none := emits_markupChar '\n'
  rw [htext]
  refine emits_flatMap fun row _ => ?_
  simpa using (emits_row sgr row).append hline

theorem toList_joinPages (d : Document) (f : Grid → String) :
    (d.joinPages f).toList = "\n".toList.intercalate (d.pages.map fun g => (f g).toList) := by
  rw [Document.joinPages, String.toList_intercalate, List.map_map]
  rfl

theorem nil_intercalate {α : Type} (xss : List (List α)) : [].intercalate xss = xss.flatten := by
  induction xss with
  | nil => rfl
  | cons xs xss ih =>
    cases xss with
    | nil => simp
    | cons ys xss =>
      rw [List.intercalate_cons_cons, ih, List.append_nil]
      rfl

theorem tags_toHtml (d : Document) :
    tags d.toHtml = d.pages.flatMap fun g =>
      (g.outputRows d.options.trim).flatMap (rowNames d.screen.sgr) := by
  have hline : Emits tagsFrom none "\n".toList [] none := emits_markupChar '\n'
  have hpages := emits_intercalate hline
    fun g (_ : g ∈ d.pages) => emits_page d.options.trim d.screen.sgr g
  rw [← toList_joinPages] at hpages
  rw [tags, Document.toHtml, hpages.eq rfl, nil_intercalate, List.flatMap_def]

/-! Colour. -/

def mentionsColour (tag : List Char) : Bool := Text.occursIn "data-sgr".toList tag

theorem mentionsColour_colourName (n : Nat) :
    mentionsColour (colourName "b" n) = true ∧ mentionsColour (colourName "span" n) = true :=
  ⟨rfl, rfl⟩

def Cell.coloured (sgr : Bool) (c : Cell) : Bool := sgr && 0 ≤ c.colour

theorem runNames_uncoloured_iff (sgr : Bool) (style : Cell) :
    (∀ tag ∈ runNames sgr style, mentionsColour tag = false) ↔ style.coloured sgr = false := by
  have hline : (∀ tag ∈ (underlineNames style).1, mentionsColour tag = false) ∧
      ∀ tag ∈ (underlineNames style).2, mentionsColour tag = false := by
    rw [underlineNames]
    split <;> decide
  have hcolour : ((∀ tag ∈ (colourNames sgr style).1, mentionsColour tag = false) ∧
      ∀ tag ∈ (colourNames sgr style).2, mentionsColour tag = false) ↔
      style.coloured sgr = false := by
    obtain ⟨hbold, hspan⟩ := mentionsColour_colourName style.colour.toNat
    rw [colourNames, Cell.coloured]
    cases style.face.isBold <;> cases sgr && decide (0 ≤ style.colour)
    case false.false => simp
    case false.true => simp [hspan]
    case true.false =>
      have hplain : mentionsColour ['b'] = false ∧ mentionsColour ['/', 'b'] = false := by decide
      simp [hplain]
    case true.true => simp [hbold]
  simp only [runNames, List.forall_mem_append, ← hcolour]
  constructor
  · rintro ⟨⟨⟨hopen, -⟩, -⟩, hclose⟩
    exact ⟨hopen, hclose⟩
  · rintro ⟨hopen, hclose⟩
    exact ⟨⟨⟨hopen, hline.1⟩, hline.2⟩, hclose⟩

theorem coloured_of_mem_splitBy {row run : List Cell} (sgr : Bool)
    (hrun : run ∈ row.splitBy Cell.sameStyle) :
    ∀ c ∈ run, c.coloured sgr = (run.headD .blank).coloured sgr := by
  have hchain := List.isChain_of_mem_splitBy hrun
  cases run with
  | nil => simp
  | cons style cells =>
    intro c hc
    have hsame := Reader.sameStyle_of_isChain hchain c hc
    simp only [Cell.sameStyle, decide_eq_true_eq] at hsame
    simp only [Cell.coloured, List.headD_cons, hsame.2]

theorem uncoloured_heads_iff (sgr : Bool) (row : List Cell) :
    (∀ run ∈ row.splitBy Cell.sameStyle, (run.headD .blank).coloured sgr = false) ↔
      ∀ c ∈ row, c.coloured sgr = false := by
  have hflat := List.flatten_splitBy Cell.sameStyle row
  constructor
  · intro h c hc
    rw [← hflat] at hc
    obtain ⟨run, hrun, hmem⟩ := List.mem_flatten.mp hc
    rw [coloured_of_mem_splitBy sgr hrun c hmem]
    exact h run hrun
  · intro h run hrun
    cases run with
    | nil => exact absurd rfl (List.ne_nil_of_mem_splitBy hrun)
    | cons style cells =>
      refine h style ?_
      rw [← hflat]
      exact List.mem_flatten.mpr ⟨_, hrun, List.mem_cons_self⟩

theorem tags_uncoloured_iff (d : Document) :
    (∀ tag ∈ tags d.toHtml, mentionsColour tag = false) ↔
      ∀ g ∈ d.pages, ∀ row ∈ g.outputRows d.options.trim, ∀ c ∈ row,
        c.coloured d.screen.sgr = false := by
  rw [tags_toHtml]
  simp only [List.forall_mem_flatMap, rowNames, runNames_uncoloured_iff, uncoloured_heads_iff]

/-! Pages without colour as a terminal gets them. -/

def boldSequences (style : Cell) : String × String :=
  if style.face.isBold then (sgrSequence "1", sgrSequence "22") else ("", "")

def lineSequences (style : Cell) : String × String :=
  if style.face.isItalic then (sgrSequence "4", sgrSequence "24") else ("", "")

def plainRun (cells : List Cell) : String :=
  let style := cells.headD .blank
  (boldSequences style).1 ++ (lineSequences style).1 ++ String.ofList (cells.map Cell.ch) ++
    (lineSequences style).2 ++ (boldSequences style).2

def plainRow (row : List Cell) : String := String.join ((row.splitBy Cell.sameStyle).map plainRun)

def plainPage (trim : Bool) (g : Grid) : String :=
  String.join ((g.outputRows trim).map fun row => plainRow row ++ "\n")

theorem emits_sequence {bold still : List Bool} {sequence : String} (name : List Char)
    (hname : '>' ∉ name) (htag : tag? name bold = some (sequence, still)) :
    Emits ansiFrom bold ('<' :: name ++ ['>']) sequence.toList still := by
  intro r
  rw [List.append_assoc, List.singleton_append, ansiFrom_tag name hname htag]

def within (style : Cell) (bold : List Bool) : List Bool :=
  if style.face.isBold then false :: bold else bold

theorem emits_boldSequences {sgr : Bool} {style : Cell} (h : style.coloured sgr = false)
    (bold : List Bool) :
    Emits ansiFrom bold (colourTags style sgr).1.toList (boldSequences style).1.toList
      (within style bold) ∧
    Emits ansiFrom (within style bold) (colourTags style sgr).2.toList
      (boldSequences style).2.toList bold := by
  rw [Cell.coloured] at h
  rw [boldSequences, within]
  cases hb : style.face.isBold <;> simp only [colourTags, hb, h]
  · exact ⟨emits_nil, emits_nil⟩
  · exact ⟨emits_sequence "b".toList (by decide) rfl, emits_sequence "/b".toList (by decide) rfl⟩

theorem emits_lineSequences (style : Cell) (bold : List Bool) :
    Emits ansiFrom bold (underlineTags style).1.toList (lineSequences style).1.toList bold ∧
    Emits ansiFrom bold (underlineTags style).2.toList (lineSequences style).2.toList bold := by
  rw [underlineTags, lineSequences]
  split
  · exact ⟨emits_sequence "u".toList (by decide) rfl, emits_sequence "/u".toList (by decide) rfl⟩
  · exact ⟨emits_nil, emits_nil⟩

theorem emits_character (c : Char) (bold : List Bool) :
    Emits ansiFrom bold (markupChar c) [c] bold :=
  ansiFrom_markupChar c bold

theorem emits_plainRun {sgr : Bool} {cells : List Cell}
    (h : (cells.headD .blank).coloured sgr = false) (bold : List Bool) :
    Emits ansiFrom bold (runMarkup sgr cells).toList (plainRun cells).toList bold := by
  obtain ⟨hopen, hclose⟩ := emits_boldSequences h bold
  obtain ⟨hline, hlineEnd⟩ := emits_lineSequences (cells.headD .blank)
    (within (cells.headD .blank) bold)
  have hcells : Emits ansiFrom (within (cells.headD .blank) bold)
      (cells.flatMap fun c => markupChar c.ch) (cells.map Cell.ch)
      (within (cells.headD .blank) bold) := by
    rw [List.map_eq_flatMap]
    exact emits_flatMap fun c _ => emits_character c.ch _
  have hrun := (((hopen.append hline).append hcells).append hlineEnd).append hclose
  simpa [runMarkup, plainRun] using hrun

theorem emits_plainRow {sgr : Bool} {row : List Cell} (h : ∀ c ∈ row, c.coloured sgr = false)
    (bold : List Bool) :
    Emits ansiFrom bold (rowMarkup sgr row).toList (plainRow row).toList bold := by
  simp only [rowMarkup, plainRow, String.toList_join, List.flatMap_map]
  exact emits_flatMap fun run hrun =>
    emits_plainRun ((uncoloured_heads_iff sgr row).mpr h run hrun) bold

theorem emits_plainPage {trim sgr : Bool} {g : Grid}
    (h : ∀ row ∈ g.outputRows trim, ∀ c ∈ row, c.coloured sgr = false) (bold : List Bool) :
    Emits ansiFrom bold (pageMarkup trim sgr g).toList (plainPage trim g).toList bold := by
  simp only [pageMarkup, plainPage, String.toList_join, List.flatMap_map, String.toList_append]
  exact emits_flatMap fun row hrow =>
    (emits_plainRow (h row hrow) bold).append (emits_character '\n' bold)

theorem toAnsi_of_uncoloured {d : Document}
    (h : ∀ g ∈ d.pages, ∀ row ∈ g.outputRows d.options.trim, ∀ c ∈ row,
      c.coloured d.screen.sgr = false) : d.toAnsi = d.joinPages (plainPage d.options.trim) := by
  have hpages : Emits ansiFrom [] d.toHtml.toList
      (d.joinPages (plainPage d.options.trim)).toList [] := by
    rw [Document.toHtml, toList_joinPages, toList_joinPages]
    exact emits_intercalate (emits_character '\n' []) fun g hg => emits_plainPage (h g hg) []
  rw [Document.toAnsi, ansiOfMarkup, hpages.eq (by rw [ansiFrom]), String.ofList_toList]

end Galley.Terminal
