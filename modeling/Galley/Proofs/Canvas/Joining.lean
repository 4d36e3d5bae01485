import Mathlib.Tactic.Linarith
import Mathlib.Tactic.Ring
import Galley.Canvas.Painter
import Galley.Proofs.Number.Exact
/-!
Runs whose texts are joined across moves. However long the run, each of its texts is shown within
half a unit of where it is when the pieces are printed one by one, and so is what comes after it.
-/
namespace Galley

def Device.RunPiece.text? : Device.RunPiece → Option String
  | .text s => some s
  | _ => none

namespace Canvas
open Device

/-- The width of a text is that of its parts. -/
def Measure.IsAdditive (measure : Measure Rat) : Prop :=
  ∀ s t font, measure (s ++ t) font = measure s font + measure t font

theorem halfEm_isAdditive : Measure.IsAdditive halfEm := by
  intro s t font
  simp only [halfEm, String.length_append, ofInt_rat]
  push_cast
  rw [add_mul, add_div]

theorem Measure.IsAdditive.empty {measure : Measure Rat} (h : measure.IsAdditive)
    (font : FontSpec Rat) : measure "" font = 0 := by
  have hdouble := h "" "" font
  simpa using hdouble

theorem join_singleton (s : String) : String.join [s] = s := by
  rw [String.join_cons, String.join_nil, String.append_empty]

def texts (run : List RunPiece) : List String := run.filterMap RunPiece.text?

/-- Texts that are shown as one, from a position on. -/
structure Shown where
  h : Rat
  parts : List String

def Shown.text (j : Shown) : String := String.join j.parts

/-- Where texts begin after another text, all shown as one from `h` on. -/
def startsFrom (width : String → Rat) (h : Rat) (before : String) : List String → List Rat
  | [] => []
  | s :: ss => (h + width before) :: startsFrom width h (before ++ s) ss

def Shown.starts (width : String → Rat) (j : Shown) : List Rat :=
  startsFrom width j.h "" j.parts

theorem startsFrom_concat (width : String → Rat) (h : Rat) (before : String) (ss : List String)
    (s : String) : startsFrom width h before (ss ++ [s]) =
      startsFrom width h before ss ++ [h + width (before ++ String.join ss)] := by
  induction ss generalizing before with
  | nil => simp [startsFrom, String.join_nil]
  | cons t ss ih => simp [startsFrom, ih, String.join_cons, String.append_assoc]

def Call.text? : Call Rat → Option String
  | .fillText s _ _ _ => some s
  | _ => none

def drawnText (cs : List (Call Rat)) : String := String.join (cs.filterMap Call.text?)

theorem drawnText_append (cs ds : List (Call Rat)) :
    drawnText (cs ++ ds) = drawnText cs ++ drawnText ds := by
  rw [drawnText, List.filterMap_append, String.join_append]
  rfl

/-- The texts that are drawn and where they begin on the page, from calls that start with the given
transform. -/
def placed (t : Transform Rat) : List (Call Rat) → List (String × Point Rat)
  | [] => []
  | .setTransform u :: cs => placed u cs
  | .fillText s o _ _ :: cs => (s, t.apply o) :: placed t cs
  | _ :: cs => placed t cs

def Near (x y : Rat) : Prop := |x - y| ≤ 1 / 2

theorem Near.refl (x : Rat) : Near x x := by
  rw [Near, sub_self, abs_zero]
  norm_num

theorem Near.symm {x y : Rat} (h : Near x y) : Near y x := by
  rwa [Near, abs_sub_comm]

theorem Near.add {x y : Rat} (h : Near x y) (d : Rat) : Near (x + d) (y + d) := by
  simpa [Near] using h

theorem eq_zero_of_near {x : Rat} {d : Int} (h : Near (x + d) x) : d = 0 := by
  rw [Near, add_sub_cancel_left, abs_le] at h
  have hlow : (-1 : Rat) < d := by linarith [h.1]
  have hhigh : (d : Rat) < 1 := by linarith [h.2]
  norm_cast at hlow hhigh
  omega

/-- The end `m` of what is held back, beside the position `r` of the replay. A move that joins is
kept apart from the end, so that the next one starts at `r` again. -/
structure Beside (m r : Rat) (stop : Option Rat) : Prop where
  near : Near m r
  stop_eq : stop.getD m = r ∨ stop.getD m = m

namespace Beside
variable {m r : Rat} {stop : Option Rat}

theorem fresh {measure : Measure Rat} {font : FontSpec Rat} (hadd : measure.IsAdditive)
    (h : Near m r) : Beside (m + measure (String.join []) font) r none := by
  have hzero : measure (String.join []) font = 0 := hadd.empty font
  rw [hzero, add_zero]
  exact ⟨h, .inr rfl⟩

theorem getD (h : Beside m r stop) : Near (stop.getD m) r := by
  rcases h.stop_eq with heq | heq
  · rw [heq]
    exact .refl r
  · rw [heq]
    exact h.near

theorem text (h : Beside m r stop) (width : Rat) : Beside (m + width) (r + width) none :=
  ⟨h.near.add width, .inr rfl⟩

theorem moveTo {h : Rat} (hjoin : Near h m) : Beside m h (some h) := ⟨hjoin.symm, .inl rfl⟩

theorem moveBy (h : Beside m r stop) {d : Int} (hjoin : Near (stop.getD m + d) m) :
    Beside m (r + d) (some (stop.getD m + d)) := by
  rcases h.stop_eq with heq | heq
  · rw [heq] at hjoin ⊢
    exact moveTo hjoin
  · rw [heq] at hjoin ⊢
    obtain rfl := eq_zero_of_near hjoin
    simpa using (⟨h.near, .inr rfl⟩ : Beside m r (some m))

end Beside

@[simp] theorem apply_identity (o : Point Rat) : Transform.identity.apply o = o := by
  simp [Transform.apply, Transform.identity, Scalar.one, Scalar.zero]

namespace Painter
variable [Angles] (measure : Measure Rat)

def goTo (p : Painter Rat) (h : Rat) : Painter Rat := { p with h := h }

def shownCalls (p : Painter Rat) (j : Shown) : List (Call Rat) :=
  (p.goTo j.h).showCalls j.text (measure j.text p.font)

/-- The texts of a run as they are shown when its pieces are printed one by one. -/
def separate (p : Painter Rat) : List RunPiece → List Shown
  | [] => []
  | piece :: run =>
    (piece.text?.map fun s => ⟨p.h, [s]⟩).toList ++ separate (p.receive measure piece.call).1 run

variable {measure}

theorem receiveAll_cons_fst (p : Painter Rat) (c : Device.Call) (cs : List Device.Call) :
    (p.receiveAll measure (c :: cs)).1 = ((p.receive measure c).1.receiveAll measure cs).1 := rfl

theorem receiveAll_cons_snd (p : Painter Rat) (c : Device.Call) (cs : List Device.Call) :
    (p.receiveAll measure (c :: cs)).2 =
      (p.receive measure c).2 ++ ((p.receive measure c).1.receiveAll measure cs).2 := rfl

theorem drawnText_showCalls {p : Painter Rat} (hp : p.visible = true) (s : String) (width : Rat) :
    drawnText (p.showCalls s width) = s := by
  rw [showCalls]
  split
  case isTrue h =>
    obtain rfl : s = "" := by simpa [hp] using h
    rfl
  case isFalse h =>
    split
    case isTrue => exact join_singleton s
    case isFalse => exact join_singleton s

theorem joins_iff {p : Painter Rat} {held : String} {h : Rat} :
    p.joins measure held h = true ↔ held ≠ "" ∧ Near h (p.heldEnd measure held) := by
  simp [joins, tolerance, Near]

theorem release_goTo (hadd : measure.IsAdditive) (p : Painter Rat) (x : Rat) (held : List String)
    (stop : Option Rat) :
    (p.goTo x).release measure (String.join held) stop =
      (p.goTo (stop.getD (x + measure (String.join held) p.font)),
        p.shownCalls measure ⟨x, held⟩) := by
  by_cases h : String.join held = ""
  · simp [release, shownCalls, Shown.text, showCalls, h, hadd.empty, goTo]
  · simp [release, shownCalls, Shown.text, h, advance, goTo, font]

/-! The run beside its pieces. The induction is on the run, with any texts held back before it: a
piece shows them (`release`), leaves them (`join`) or adds to them (`text`). -/

/-- Places of texts and the position after them are near to those of the pieces of a run from `r`. -/
structure NearPieces (measure : Measure Rat) (p : Painter Rat) (r : Rat) (run : List RunPiece)
    (starts : List Rat) (last : Rat) : Prop where
  starts : starts.Forall₂ Near (((p.goTo r).separate measure run).map Shown.h)
  last : Near last ((p.goTo r).receiveAll measure (run.map RunPiece.call)).1.h

theorem NearPieces.move {p : Painter Rat} {r r' last : Rat} {piece : RunPiece}
    {run : List RunPiece} {starts : List Rat} (h : NearPieces measure p r' run starts last)
    (htext : piece.text? = none)
    (hpiece : ((p.goTo r).receive measure piece.call).1 = p.goTo r') :
    NearPieces measure p r (piece :: run) starts last where
  starts := by
    rw [separate, htext, hpiece]
    exact h.starts
  last := by
    rw [List.map_cons, receiveAll_cons_fst, hpiece]
    exact h.last

theorem NearPieces.text {p : Painter Rat} {r start last : Rat} {s : String}
    {run : List RunPiece} {starts : List Rat}
    (h : NearPieces measure p (r + measure s p.font) run starts last) (hr : Near start r) :
    NearPieces measure p r (.text s :: run) (start :: starts) last where
  starts := .cons hr h.starts
  last := h.last

def NearReplay (measure : Measure Rat) (p : Painter Rat) (x : Rat) (held : List String) (r : Rat)
    (run : List RunPiece) (out : Painted Rat) : Prop :=
  ∃ (last : Rat) (js : List Shown) (later : List Rat),
    out = (p.goTo last, js.flatMap (p.shownCalls measure)) ∧
    js.flatMap Shown.parts = held ++ texts run ∧
    js.flatMap (Shown.starts (measure · p.font)) =
      startsFrom (measure · p.font) x "" held ++ later ∧
    NearPieces measure p r run later last

theorem NearReplay.release {p : Painter Rat} {x y r r' : Rat} {held : List String}
    {piece : RunPiece} {run : List RunPiece} {out : Painted Rat}
    (h : NearReplay measure p y [] r' run out) (htext : piece.text? = none)
    (hpiece : ((p.goTo r).receive measure piece.call).1 = p.goTo r') :
    NearReplay measure p x held r (piece :: run)
      (out.1, p.shownCalls measure ⟨x, held⟩ ++ out.2) := by
  obtain ⟨last, js, later, rfl, hparts, hstarts, hnear⟩ := h
  refine ⟨last, ⟨x, held⟩ :: js, later, rfl, ?_, ?_, hnear.move htext hpiece⟩
  · rw [List.flatMap_cons, hparts]
    simp [texts, htext]
  · rw [List.flatMap_cons, hstarts]
    rfl

theorem NearReplay.join {p : Painter Rat} {x r r' : Rat} {held : List String}
    {piece : RunPiece} {run : List RunPiece} {out : Painted Rat}
    (h : NearReplay measure p x held r' run out) (htext : piece.text? = none)
    (hpiece : ((p.goTo r).receive measure piece.call).1 = p.goTo r') :
    NearReplay measure p x held r (piece :: run) out := by
  obtain ⟨last, js, later, rfl, hparts, hstarts, hnear⟩ := h
  refine ⟨last, js, later, rfl, ?_, hstarts, hnear.move htext hpiece⟩
  simpa [texts, htext] using hparts

theorem NearReplay.text {p : Painter Rat} {x r : Rat} {held : List String} {s : String}
    {run : List RunPiece} {out : Painted Rat}
    (h : NearReplay measure p x (held ++ [s]) (r + measure s p.font) run out)
    (hr : Near (x + measure (String.join held) p.font) r) :
    NearReplay measure p x held r (.text s :: run) out := by
  obtain ⟨last, js, later, rfl, hparts, hstarts, hnear⟩ := h
  refine ⟨last, js, (x + measure (String.join held) p.font) :: later, rfl, ?_, ?_, hnear.text hr⟩
  · simpa [texts, RunPiece.text?] using hparts
  · rw [hstarts, startsFrom_concat, List.append_assoc]
    rfl

theorem nearReplay_nil (hadd : measure.IsAdditive) {p : Painter Rat} {x r : Rat}
    {held : List String} {stop : Option Rat}
    (hstop : Near (stop.getD (x + measure (String.join held) p.font)) r) :
    NearReplay measure p x held r [] ((p.goTo x).release measure (String.join held) stop) := by
  rw [release_goTo hadd]
  exact ⟨_, [⟨x, held⟩], [], by simp, by simp [texts], by simp [Shown.starts], ⟨.nil, hstop⟩⟩

theorem printRun_of_target {p : Painter Rat} {held : String} {stop : Option Rat} {piece : RunPiece}
    {run : List RunPiece} {h : Rat} (htarget : p.target? measure held stop piece = some h) :
    p.printRun measure held stop (piece :: run) =
      if p.joins measure held h then p.printRun measure held (some h) run
      else
        let out := ((p.release measure held stop).1.goTo h).printRun measure "" none run
        (out.1, (p.release measure held stop).2 ++ out.2) := by
  cases piece with
  | text s => cases htarget
  | wordSpace => cases htarget
  | moveTo h' =>
    rw [printRun]
    · rw [htarget]
      rfl
    · nofun
  | moveBy dh =>
    rw [printRun]
    · rw [htarget]
      rfl
    · nofun

theorem printRun_wordSpace (p : Painter Rat) (held : String) (stop : Option Rat)
    (run : List RunPiece) : p.printRun measure held stop (.wordSpace :: run) =
      let out := (p.release measure held stop).1.printRun measure "" none run
      (out.1, (p.release measure held stop).2 ++ out.2) := by
  rw [printRun]
  · rfl
  · nofun

theorem printRun_nearReplay (hadd : measure.IsAdditive) (p : Painter Rat) (run : List RunPiece)
    {x r : Rat} {held : List String} {stop : Option Rat}
    (h : Beside (x + measure (String.join held) p.font) r stop) :
    NearReplay measure p x held r run
      ((p.goTo x).printRun measure (String.join held) stop run) := by
  induction run generalizing x r held stop with
  | nil => exact nearReplay_nil hadd h.getD
  | cons piece run ih =>
    have hfresh {y r' : Rat} (hy : Near y r') :
        NearReplay measure p y [] r' run ((p.goTo y).printRun measure "" none run) :=
      ih (.fresh hadd hy)
    cases piece with
    | text s =>
      have hjoin : String.join held ++ s = String.join (held ++ [s]) := by
        rw [String.join_append, join_singleton]
      rw [printRun, hjoin]
      refine .text (ih ?_) h.near
      rw [← hjoin, hadd, ← add_assoc]
      exact h.text _
    | moveTo h' =>
      rw [printRun_of_target rfl]
      split
      case isTrue hjoins => exact .join (ih (.moveTo (joins_iff.mp hjoins).2)) rfl rfl
      case isFalse =>
        rw [release_goTo hadd]
        exact .release (hfresh (.refl h')) rfl rfl
    | moveBy dh =>
      rw [printRun_of_target rfl]
      split
      case isTrue hjoins => exact .join (ih (h.moveBy (joins_iff.mp hjoins).2)) rfl rfl
      case isFalse =>
        rw [release_goTo hadd]
        exact .release (hfresh (h.getD.add dh)) rfl rfl
    | wordSpace =>
      rw [printRun_wordSpace, release_goTo hadd]
      exact .release (hfresh h.getD) rfl rfl

theorem receiveAll_snd (p : Painter Rat) (run : List RunPiece) (r : Rat) :
    ((p.goTo r).receiveAll measure (run.map RunPiece.call)).2 =
      ((p.goTo r).separate measure run).flatMap (p.shownCalls measure) := by
  induction run generalizing r with
  | nil => rfl
  | cons piece run ih =>
    rw [List.map_cons, receiveAll_cons_snd]
    cases piece with
    | text s =>
      have hcalls : ((p.goTo r).receive measure (RunPiece.text s).call).2 =
          p.shownCalls measure ⟨r, [s]⟩ := by
        rw [shownCalls, Shown.text, join_singleton]
        rfl
      rw [hcalls]
      exact congrArg _ (ih _)
    | moveTo h => exact ih _
    | moveBy dh => exact ih _
    | wordSpace => exact ih _

theorem map_parts_separate (p : Painter Rat) (run : List RunPiece) :
    (p.separate measure run).map Shown.parts = (texts run).map ([·]) := by
  induction run generalizing p with
  | nil => rfl
  | cons piece run ih =>
    cases piece with
    | text s => exact congrArg ([s] :: ·) (ih _)
    | moveTo h => exact ih _
    | moveBy dh => exact ih _
    | wordSpace => exact ih _

theorem drawnText_flatMap {p : Painter Rat} (hp : p.visible = true) (js : List Shown) :
    drawnText (js.flatMap (p.shownCalls measure)) = String.join (js.flatMap Shown.parts) := by
  induction js with
  | nil => rfl
  | cons j js ih =>
    have hdrawn : drawnText (p.shownCalls measure j) = String.join j.parts :=
      drawnText_showCalls (p := p.goTo j.h) hp _ _
    rw [List.flatMap_cons, drawnText_append, ih, List.flatMap_cons, String.join_append, hdrawn]

theorem textTransform_shift (p : Painter Rat) (o : Point Rat) :
    (p.textTransform.before (.shift o)).apply .origin = o := by
  rw [textTransform]
  split <;> simp [upright, Transform.rotation, Transform.turn, Transform.before, Transform.shift,
    Transform.apply, Transform.identity, Point.origin, Scalar.one, Scalar.zero]

theorem placed_showCalls {p : Painter Rat} (hp : p.visible = true)
    (hr : p.reversed = true → p.textTransform.isIdentity = false) (s : String) (width : Rat)
    (cs : List (Call Rat)) :
    placed .identity (p.showCalls s width ++ cs) =
      (if s = "" then [] else [(s, p.textOrigin width)]) ++ placed .identity cs := by
  by_cases hs : s = ""
  · simp [showCalls, hs]
  by_cases ht : p.textTransform.isIdentity = true
  · have horigin : p.textOrigin width = p.position := by
      rw [textOrigin, if_neg]
      intro h
      rw [hr h] at ht
      cases ht
    simp [showCalls, hp, hs, ht, placed, horigin]
  · simp [showCalls, hp, hs, ht, placed, textTransform_shift]

theorem placed_flatMap {p : Painter Rat} (hp : p.visible = true) (hr : p.reversed = false)
    (js : List Shown) : placed .identity (js.flatMap (p.shownCalls measure)) =
      (js.filter (·.text ≠ "")).map fun j => (j.text, ⟨j.h, p.v⟩) := by
  induction js with
  | nil => rfl
  | cons j js ih =>
    have hcalls := placed_showCalls (p := p.goTo j.h) hp (by simp [goTo, hr]) j.text
      (measure j.text p.font) (js.flatMap (p.shownCalls measure))
    rw [List.flatMap_cons, shownCalls, hcalls, ih, List.filter_cons]
    by_cases ht : j.text = ""
    · simp [ht]
    · simp [ht, textOrigin, goTo, hr, position]

/-- Calls that show texts, joined into strings. -/
structure Shows (measure : Measure Rat) (p : Painter Rat) (strings : List Shown)
    (texts : List String) (cs : List (Call Rat)) : Prop where
  parts : strings.flatMap Shown.parts = texts
  calls : cs = strings.flatMap (p.shownCalls measure)
  drawn : drawnText cs = String.join texts
  /-- Reversed text is the one that is not drawn from the position that it is shown at. -/
  origins : p.reversed = false → placed .identity cs =
    (strings.filter (·.text ≠ "")).map fun j => (j.text, ⟨j.h, p.v⟩)

theorem shows_of_parts {p : Painter Rat} (hp : p.visible = true) {strings : List Shown}
    {texts : List String} (hparts : strings.flatMap Shown.parts = texts) :
    Shows measure p strings texts (strings.flatMap (p.shownCalls measure)) where
  parts := hparts
  calls := rfl
  drawn := by rw [drawnText_flatMap hp, hparts]
  origins hr := placed_flatMap hp hr strings

/-- A text starts within half a unit of where the pieces show it, and the run ends that near to
where they end. Starts are measured along h, also those of text that is turned. -/
theorem textRun_near_replay (hadd : measure.IsAdditive) (p : Painter Rat) (hp : p.visible = true)
    (run : List RunPiece) :
    let joined := p.receive measure (.textRun run)
    let replayed := p.receiveAll measure (run.map RunPiece.call)
    let alone := p.separate measure run
    Shows measure p alone (texts run) replayed.2 ∧
    alone.map Shown.parts = (texts run).map ([·]) ∧
    Near joined.1.h replayed.1.h ∧
    ∃ strings, Shows measure p strings (texts run) joined.2 ∧
      (strings.flatMap (Shown.starts (measure · p.font))).Forall₂ Near (alone.map Shown.h) := by
  intro joined replayed alone
  obtain ⟨last, strings, later, hjoined, hparts, hstarts, hnear⟩ :
      NearReplay measure p p.h [] p.h run joined :=
    printRun_nearReplay hadd p run (.fresh hadd (.refl p.h))
  have hreplayed : replayed.2 = alone.flatMap (p.shownCalls measure) := receiveAll_snd p run p.h
  have halone : alone.map Shown.parts = (texts run).map ([·]) := map_parts_separate p run
  refine ⟨?_, halone, ?_, strings, ?_, ?_⟩
  · rw [hreplayed]
    refine shows_of_parts hp ?_
    rw [List.flatMap_def, halone, ← List.flatMap_def, List.flatMap_singleton']
  · rw [hjoined]
    exact hnear.last
  · rw [hjoined]
    exact shows_of_parts hp hparts
  · rw [hstarts]
    exact hnear.starts

end Painter

namespace Painter

/-- A move to 5000 joins, and the zero move after `b` starts from where that text ends. -/
theorem textRun_near_replay_moves :
    letI := Angles.straight
    let p : Painter Rat := .initial 1 (1 / 25)
    let run := [.text "a", .moveTo 5000, .text "b", .moveBy 0, .text "c", .wordSpace, .moveTo 9]
    Measure.IsAdditive halfEm ∧ p.visible = true ∧
      drawnText (p.receive halfEm (.textRun run)).2 = "abc" ∧
      Near (p.receive halfEm (.textRun run)).1.h
        (p.receiveAll halfEm (run.map RunPiece.call)).1.h := by
  let _ := Angles.straight
  intro p run
  obtain ⟨-, -, hlast, strings, hshows, -⟩ := textRun_near_replay halfEm_isAdditive p rfl run
  exact ⟨halfEm_isAdditive, rfl, hshows.drawn, hlast⟩

/-- Reversed text is drawn from its right end, and joined texts change places. -/
theorem reversed_texts_displaced :
    letI := Angles.straight
    let p : Painter Rat := { Painter.initial 1 (1 / 25) with reversed := true }
    let run := [RunPiece.text "a", .text "b"]
    Measure.IsAdditive halfEm ∧ p.visible = true ∧
      ¬ ∃ strings : List Shown, strings.flatMap Shown.parts = texts run ∧
        placed .identity (p.receive halfEm (.textRun run)).2 =
          strings.map (fun j => (j.text, ⟨j.h, p.v⟩)) ∧
        (strings.flatMap (Shown.starts (halfEm · p.font))).Forall₂ Near
          ((placed .identity (p.receiveAll halfEm (run.map RunPiece.call)).2).map (·.2.x)) := by
  let _ := Angles.straight
  intro p run
  have hturned : p.textTransform.isIdentity = false := by
    rw [textTransform]
    split
    case isTrue => rfl
    case isFalse =>
      have ha : (p.upright.before (.rotation p.rotation)).a ≠ Scalar.one := by
        change (1 : Rat) * -1 + -0 * 0 ≠ 1
        norm_num
      simp [Transform.isIdentity, Scalar.same, ha]
  have hwidth (s : String) : halfEm s p.font = s.length * 5000 := by
    change (s.length : Rat) * (10 * 72000 / 72) / 2 = _
    ring
  have hshow (h : Rat) (s : String) (hs : s ≠ "") (cs : List (Call Rat)) :
      placed .identity ((p.goTo h).showCalls s (halfEm s p.font) ++ cs) =
        (s, ⟨h + s.length * 5000, 0⟩) :: placed .identity cs := by
    rw [placed_showCalls (p := p.goTo h) rfl (fun _ => hturned), if_neg hs, hwidth]
    rfl
  have ha : "a".length = 1 := rfl
  have hb : "b".length = 1 := rfl
  have hab : "ab".length = 2 := rfl
  have hjoined : placed .identity (p.receive halfEm (.textRun run)).2 = [("ab", ⟨10000, 0⟩)] := by
    have hcalls : (p.receive halfEm (.textRun run)).2 =
        (p.goTo 0).showCalls "ab" (halfEm "ab" p.font) ++ [] := (List.append_nil _).symm
    rw [hcalls, hshow _ _ (by decide), hab]
    norm_num [placed]
  have hreplayed : placed .identity (p.receiveAll halfEm (run.map RunPiece.call)).2 =
      [("a", ⟨5000, 0⟩), ("b", ⟨10000, 0⟩)] := by
    have hcalls : (p.receiveAll halfEm (run.map RunPiece.call)).2 =
        (p.goTo 0).showCalls "a" (halfEm "a" p.font) ++
          ((p.goTo (0 + halfEm "a" p.font)).showCalls "b" (halfEm "b" p.font) ++ []) := rfl
    rw [hcalls, hshow _ _ (by decide), hshow _ _ (by decide), hwidth, ha, hb]
    norm_num [placed]
  refine ⟨halfEm_isAdditive, rfl, ?_⟩
  rintro ⟨strings, hparts, hstrings, hnear⟩
  rw [hjoined] at hstrings
  rw [hreplayed] at hnear
  obtain ⟨j, rfl⟩ : ∃ j, strings = [j] :=
    List.length_eq_one_iff.mp (by simpa using (congrArg List.length hstrings).symm)
  have hpieces : j.parts = ["a", "b"] := by
    rw [List.flatMap_singleton] at hparts
    exact hparts
  have hstart : j.h = 10000 := by
    simp only [List.map_cons, List.cons.injEq, Prod.mk.injEq, Point.mk.injEq] at hstrings
    exact hstrings.1.2.1.symm
  have hfirst : Near (10000 + halfEm "" p.font) 5000 := by
    simp only [List.flatMap_singleton, Shown.starts, hpieces, hstart, startsFrom] at hnear
    exact (List.forall₂_cons.mp hnear).1
  rw [halfEm_isAdditive.empty, Near] at hfirst
  norm_num at hfirst

end Painter
end Canvas
end Galley
