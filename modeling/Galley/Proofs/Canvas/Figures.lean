import Galley.Proofs.Canvas.Pages
import Galley.Proofs.Number.Double
/-!
What is between the beginning and the end of a page: shapes and texts, one after another. A shape
is a path that is painted once, and a text that is turned leaves the surface upright.
-/
namespace Galley.Canvas

/-! The transform of a text, moved to where the text begins, is the identity only if it was. -/

namespace Transform
open Double

theorem isIdentity_iff (t : Transform Float) :
    t.isIdentity = true ↔
      Scalar.same t.a Scalar.one = true ∧ Scalar.same t.b Scalar.zero = true ∧
      Scalar.same t.c Scalar.zero = true ∧ Scalar.same t.d Scalar.one = true ∧
      Scalar.same t.e Scalar.zero = true ∧ Scalar.same t.f Scalar.zero = true := by
  simp only [isIdentity, Bool.and_eq_true, and_assoc]

theorem isIdentity_of_before_shift {t : Transform Float} (he : Vanishes t.e) (hf : Vanishes t.f)
    {o : Point Float} (h : (t.before (shift o)).isIdentity = true) : t.isIdentity = true := by
  obtain ⟨ha, hb, hc, hd, he', hf'⟩ := (isIdentity_iff _).mp h
  simp only [before, shift, identity, one_mul] at ha hb hc hd he' hf'
  refine (isIdentity_iff t).mpr ⟨?_, ?_, ?_, ?_, ?_, ?_⟩
  · exact same_of_same_add (vanishes_zero_mul t.b) ha
  · exact same_of_same_add_left (vanishes_zero_mul t.a) hb
  · exact same_of_same_add (vanishes_zero_mul t.d) hc
  · exact same_of_same_add_left (vanishes_zero_mul t.c) hd
  -- The offset is a zero, unless it is not a number, and that would show.
  · refine he.same_zero fun hnan => ?_
    rw [hnan, nan_add, nan_add, same_nan] at he'
    cases he'
  · refine hf.same_zero fun hnan => ?_
    rw [hnan, add_comm_of_vanishes (vanishes_zero_mul t.e), nan_add, nan_add, same_nan] at hf'
    cases hf'

theorem vanishes_before {t u : Transform Float} (he : t.e = Scalar.zero) (hf : t.f = Scalar.zero)
    (hu : u.e = Scalar.zero) (hu' : u.f = Scalar.zero) :
    Vanishes (t.before u).e ∧ Vanishes (t.before u).f := by
  simp only [before, he, hf, hu, hu']
  exact ⟨((vanishes_mul_zero _).add (vanishes_mul_zero _)).add vanishes_zero,
    ((vanishes_mul_zero _).add (vanishes_mul_zero _)).add vanishes_zero⟩

end Transform

theorem Painter.vanishes_textTransform (p : Painter Float) :
    Double.Vanishes p.textTransform.e ∧ Double.Vanishes p.textTransform.f := by
  rw [textTransform]
  split
  · exact ⟨Double.vanishes_zero, Double.vanishes_zero⟩
  · exact Transform.vanishes_before rfl rfl rfl rfl

/-! Shapes and texts. -/

section
variable {α : Type}

def Call.buildsPath : Call α → Bool
  | .moveTo _ | .lineTo _ | .arc .. | .ellipse .. | .bezierTo .. | .closePath => true
  | _ => false

def Call.paintsPath : Call α → Bool
  | .stroke _ | .fill _ => true
  | _ => false

def Call.framesPage : Call α → Bool
  | .beginPage .. | .endPage => true
  | _ => false

variable [Scalar α]

/-- What is drawn in one go: a shape, or a text as it stands or turned about its start. -/
inductive Figure (α : Type) [Scalar α] where
  | shape (path : List (Call α)) (paint : Call α) (hpath : ∀ c ∈ path, c.buildsPath = true)
      (hpaint : paint.paintsPath = true)
  | text (s : String) (origin : Point α) (font : FontSpec α) (colour : Rgb)
  | turned (t : Transform α) (ht : t.isIdentity = false) (s : String) (font : FontSpec α)
      (colour : Rgb)

def Figure.calls : Figure α → List (Call α)
  | .shape path paint _ _ => .beginPath :: path ++ [paint]
  | .text s origin font colour => [.fillText s origin font colour]
  | .turned t _ s font colour =>
    [.setTransform t, .fillText s .origin font colour, .setTransform .identity]

def Drawn (cs : List (Call α)) : Prop :=
  ∃ figures : List (Figure α), cs = figures.flatMap Figure.calls

theorem Drawn.nil : Drawn ([] : List (Call α)) := ⟨[], rfl⟩

theorem Drawn.figure (f : Figure α) : Drawn f.calls := ⟨[f], by simp⟩

theorem Drawn.append {cs ds : List (Call α)} (hc : Drawn cs) (hd : Drawn ds) :
    Drawn (cs ++ ds) := by
  obtain ⟨figures, rfl⟩ := hc
  obtain ⟨more, rfl⟩ := hd
  exact ⟨figures ++ more, List.flatMap_append.symm⟩

theorem Figure.framesPage_eq_false (f : Figure α) : ∀ c ∈ f.calls, c.framesPage = false := by
  cases f with
  | shape path paint hpath hpaint =>
    have hbuilds : ∀ c ∈ path, c.framesPage = false := by
      intro c hc
      have hb := hpath c hc
      cases c <;> first | rfl | cases hb
    refine List.forall_mem_cons.mpr ⟨rfl, List.forall_mem_append.mpr ⟨hbuilds, ?_⟩⟩
    refine List.forall_mem_singleton.mpr ?_
    cases paint <;> first | rfl | cases hpaint
  | text => simp [calls, Call.framesPage]
  | turned => simp [calls, Call.framesPage]

theorem Drawn.framesPage_eq_false {cs : List (Call α)} (h : Drawn cs) :
    ∀ c ∈ cs, c.framesPage = false := by
  obtain ⟨figures, rfl⟩ := h
  intro c hc
  obtain ⟨f, -, hf⟩ := List.mem_flatMap.mp hc
  exact f.framesPage_eq_false c hf

/-! The state of the surface. -/

/-- A surface with nothing begun, in the middle of a path, or with a transform. -/
inductive Sheet where
  | clear | path | turned
  deriving DecidableEq

namespace Sheet

/-- The state after a call. A path is begun on a clear surface only, is painted once, and nothing
else is drawn meanwhile. -/
def after? : Sheet → Call α → Option Sheet
  | .path, c => if c.buildsPath then some .path else if c.paintsPath then some .clear else none
  | _, .setTransform t => some (if t.isIdentity then .clear else .turned)
  | s, .fillText .. => some s
  | .clear, .beginPath => some .path
  | _, _ => none

def afterAll? (s : Sheet) (cs : List (Call α)) : Option Sheet := cs.foldlM after? s

theorem afterAll?_append (s : Sheet) (cs ds : List (Call α)) :
    s.afterAll? (cs ++ ds) = (s.afterAll? cs).bind (·.afterAll? ds) := List.foldlM_append

theorem afterAll?_path {cs : List (Call α)} (h : ∀ c ∈ cs, c.buildsPath = true) :
    path.afterAll? cs = some path := by
  induction cs with
  | nil => rfl
  | cons c cs ih =>
    obtain ⟨hc, hcs⟩ := List.forall_mem_cons.mp h
    have hstep : path.after? c = some path := by rw [after?, if_pos hc]
    rw [afterAll?, List.foldlM_cons, hstep]
    exact ih hcs

end Sheet

end

namespace Painter

theorem buildsPath_polygon {α : Type} (ps : List (Point α)) :
    ∀ c ∈ polygon ps, c.buildsPath = true := by
  cases ps with
  | nil => simp [polygon]
  | cons p ps =>
    refine List.forall_mem_cons.mpr ⟨rfl, List.forall_mem_append.mpr ⟨?_, ?_⟩⟩
    · exact List.forall_mem_map.mpr fun _ _ => rfl
    · exact List.forall_mem_singleton.mpr rfl

theorem drawn_paintPath (p : Painter Float) (filled : Bool) {path : List (Canvas.Call Float)}
    (h : ∀ c ∈ path, c.buildsPath = true) : Drawn (p.paintPath filled path) :=
  .figure (.shape path (if filled then .fill p.fillColour else .stroke p.pen) h
    (by split <;> rfl))

theorem drawn_shapeCalls (p : Painter Float) (d : Drawing) : Drawn (p.shapeCalls d) := by
  cases d with
  | line => exact p.drawn_paintPath _ (by simp [Call.buildsPath])
  | circle => exact p.drawn_paintPath _ (by simp [Call.buildsPath])
  | ellipse => exact p.drawn_paintPath _ (by simp [Call.buildsPath])
  | arc c1 c2 =>
    refine p.drawn_paintPath _ ?_
    cases arc p.position c1 c2 <;> simp [arcPath, Call.buildsPath]
  | spline offsets =>
    refine p.drawn_paintPath _ (List.forall_mem_cons.mpr ⟨rfl, ?_⟩)
    refine List.forall_mem_map.mpr fun s _ => ?_
    cases s <;> rfl
  | polygon => exact p.drawn_paintPath _ (buildsPath_polygon _)
  | thickness => exact .nil

theorem drawn_showCalls (p : Painter Float) (text : String) (width : Float) :
    Drawn (p.showCalls text width) := by
  rw [showCalls]
  split
  case isTrue => exact .nil
  case isFalse =>
    split
    case isTrue => exact .figure (.text text p.position p.font _)
    case isFalse ht =>
      obtain ⟨he, hf⟩ := p.vanishes_textTransform
      have hmoved : (p.textTransform.before (.shift (p.textOrigin width))).isIdentity = false := by
        rw [← Bool.not_eq_true]
        exact fun h => ht (Transform.isIdentity_of_before_shift he hf h)
      exact .figure (.turned _ hmoved text p.font _)

variable (measure : Measure Float)

theorem drawn_advance (p : Painter Float) (text : String) (tracking : Option Float) :
    Drawn (p.advance measure text tracking).2 := p.drawn_showCalls text _

theorem drawn_advanceEach (tracking : Float) (p : Painter Float) (cs : List Char) :
    Drawn (p.advanceEach measure tracking cs).2 := by
  induction cs generalizing p with
  | nil => exact .nil
  | cons c cs ih =>
    exact (p.drawn_advance measure (String.singleton c) (some tracking)).append (ih _)

theorem drawn_printText (p : Painter Float) (text : String) (tracking : Int) :
    Drawn (p.printText measure text tracking).2 := by
  rw [printText]
  split
  · exact p.drawn_advance measure text none
  · exact p.drawn_advanceEach measure _ _

theorem drawn_release (p : Painter Float) (held : String) (stop : Option Float) :
    Drawn (p.release measure held stop).2 := by
  rw [release]
  by_cases h : held.isEmpty = true
  · rw [if_pos h]
    exact .nil
  · rw [if_neg h]
    exact p.drawn_advance measure held none

theorem drawn_printRun (p : Painter Float) (held : String) (stop : Option Float)
    (run : List Device.RunPiece) : Drawn (p.printRun measure held stop run).2 := by
  induction run generalizing p held stop with
  | nil => exact p.drawn_release measure held stop
  | cons piece run ih =>
    have hreleased := p.drawn_release measure held stop
    cases piece with
    | text s => exact ih p _ none
    | wordSpace =>
      rw [printRun]
      · exact hreleased.append (ih _ "" none)
      · nofun
    | _ =>
      rw [printRun]
      · dsimp only [target?]
        split
        · exact ih p held _
        · exact hreleased.append (ih _ "" none)
      · nofun

theorem drawn_receive (p : Painter Float) (c : Device.Call) : Drawn (p.receive measure c).2 := by
  cases c with
  | printGlyph text => exact p.drawn_showCalls text _
  | printText text tracking => exact p.drawn_printText measure text tracking
  | textRun run => exact p.drawn_printRun measure "" none run
  | draw d =>
    show Drawn (if (p.setThickness d).visible then (p.setThickness d).shapeCalls d else [])
    split
    · exact drawn_shapeCalls _ d
    · exact .nil
  | _ => exact .nil

theorem drawn_receiveAll (p : Painter Float) (cs : List Device.Call) :
    Drawn (p.receiveAll measure cs).2 := by
  induction cs generalizing p with
  | nil => exact .nil
  | cons c cs ih => exact (p.drawn_receive measure c).append (ih _)

end Painter

/-! Whole pages. -/

theorem Figure.afterAll?_calls (f : Figure Float) :
    Sheet.clear.afterAll? f.calls = some .clear := by
  cases f with
  | shape path paint hpath hpaint =>
    have hpaints : Sheet.path.afterAll? [paint] = some .clear := by
      cases paint <;> first | rfl | cases hpaint
    show Sheet.path.afterAll? (path ++ [paint]) = _
    rw [Sheet.afterAll?_append, Sheet.afterAll?_path hpath]
    exact hpaints
  | text => rfl
  | turned t ht =>
    have hset : Sheet.clear.after? (.setTransform t) = some .turned := by
      simp [Sheet.after?, ht]
    rw [calls, Sheet.afterAll?, List.foldlM_cons, hset]
    rfl

theorem Drawn.afterAll? {cs : List (Call Float)} (h : Drawn cs) :
    Sheet.clear.afterAll? cs = some .clear := by
  obtain ⟨figures, rfl⟩ := h
  induction figures with
  | nil => rfl
  | cons f figures ih =>
    rw [List.flatMap_cons, Sheet.afterAll?_append, f.afterAll?_calls]
    exact ih

/-- A page is begun first and ended last, and in between figures are drawn on it: every path is
painted once, on an upright surface, and every transform is undone after its text. -/
theorem renderPage_figures (options : Options) (legacy : Bool) (source : String)
    (measure : Measure Float) (n : Nat) (page : Page)
    (hpage : (Document.ofSource options legacy source).page? n = some page) :
    ∃ body areas,
      (Document.ofSource options legacy source).renderPage measure n =
        .ok (.beginPage (Float.ofInt page.width) (Float.ofInt page.height) :: body ++ [.endPage],
          areas) ∧
      (∀ c ∈ body, c.framesPage = false) ∧ Drawn body ∧
      Sheet.clear.afterAll? body = some .clear := by
  obtain ⟨prologue, hprologue, -⟩ : ∃ prologue,
      (Document.ofSource options legacy source).prologue = some prologue ∧ _ :=
    sections_ofTokens options (Token.tokenize legacy source)
  let painted := Document.paint measure options.lineWidth n (prologue.tokens ++ page.tokens)
  have hrender : (Document.ofSource options legacy source).renderPage measure n =
      .ok (.beginPage (Float.ofInt page.width) (Float.ofInt page.height) :: painted.1 ++ [.endPage],
        painted.2) := by
    rw [Document.renderPage, hprologue, hpage]
    rfl
  have hdrawn : Drawn painted.1 := Painter.drawn_receiveAll measure _ _
  exact ⟨_, _, hrender, hdrawn.framesPage_eq_false, hdrawn, hdrawn.afterAll?⟩

/-- A letter twice as high as wide, and a circle. -/
def stretchedSource : String := "p1\nx Height 20\ntA\nDc 10\n"

theorem renderPage_figures_stretched :
    ∃ page,
      (Document.ofSource {} false stretchedSource).page? 1 = some page ∧
      ∃ body areas,
        (Document.ofSource {} false stretchedSource).renderPage halfEm 1 =
          .ok (.beginPage (Float.ofInt page.width) (Float.ofInt page.height) :: body ++ [.endPage],
            areas) ∧
        ((∀ c ∈ body, c.framesPage = false) ∧ Drawn body ∧
          Sheet.clear.afterAll? body = some .clear) ∧
        body.map Call.display =
          ["set_transform 1 0 0 2 0 0",
            "fill_text \"A\" 0 0 Times normal normal 10000 rgb(0,0,0)",
            "set_transform 1 0 0 1 0 0",
            "begin_path",
            "arc 5005 0 5 0.0000 6.2832",
            "stroke rgb(0,0,0) 400"] := by
  have hsome : ((Document.ofSource {} false stretchedSource).page? 1).isSome = true := by
    decide +kernel
  obtain ⟨page, hpage⟩ := Option.isSome_iff_exists.mp hsome
  obtain ⟨body, areas, hrender, hbody⟩ :=
    renderPage_figures {} false stretchedSource halfEm 1 page hpage
  refine ⟨page, hpage, body, areas, hrender, hbody, Option.some.inj ?_⟩
  have hinner : ((Document.ofSource {} false stretchedSource).renderPage halfEm 1).toOption.map
      (·.1.tail.dropLast.map Call.display) = some (body.map Call.display) := by
    rw [hrender]
    simp [Except.toOption]
  rw [← hinner]
  decide +kernel

end Galley.Canvas
