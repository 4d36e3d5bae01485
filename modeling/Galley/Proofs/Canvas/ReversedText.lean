import Mathlib.Data.Set.Basic
import Mathlib.Tactic.Linarith
import Mathlib.Tactic.LinearCombination
import Mathlib.Tactic.Ring
import Galley.Canvas.Painter
import Galley.Proofs.Number.Exact
/-!
The place that reversed text takes on the page. It is drawn backwards from a point that is its width
to the right, and this takes the place of the text as it would be without reversing only if the text
runs along the page.
-/
namespace Galley.Canvas
open Device

namespace Transform

theorem apply_before (t u : Transform Rat) (q : Point Rat) :
    (t.before u).apply q = u.apply (t.apply q) := by
  simp only [before, apply, Point.ext_iff]
  constructor <;> ring

theorem apply_shift (o q : Point Rat) : (shift o).apply q = q + o := by
  simp [shift, apply, identity, Scalar.one, Scalar.zero, Point.ext_iff]

theorem apply_of_isIdentity {t : Transform Rat} (h : t.isIdentity = true) (q : Point Rat) :
    t.apply q = q := by
  simp only [isIdentity, Scalar.same, Scalar.one, Scalar.zero, ofInt_rat, Bool.and_eq_true,
    beq_iff_eq] at h
  obtain ⟨⟨⟨⟨⟨ha, hb⟩, hc⟩, hd⟩, he⟩, hf⟩ := h
  simp [apply, ha, hb, hc, hd, he, hf]

end Transform

/-- The points from a start so far in a direction. -/
def span (start direction : Point Rat) (width : Rat) : Set (Point Rat) :=
  {q | ∃ s, 0 ≤ s ∧ s ≤ 1 ∧ q = start + direction.scale (s * width)}

theorem start_mem_span (o d : Point Rat) (w : Rat) : o ∈ span o d w :=
  ⟨0, le_rfl, zero_le_one, by simp [Point.ext_iff]⟩

theorem stop_mem_span (o d : Point Rat) (w : Rat) : o + d.scale w ∈ span o d w :=
  ⟨1, zero_le_one, le_rfl, by simp⟩

theorem span_zero (o d : Point Rat) : span o d 0 = {o} := by
  ext q
  simp only [span, mul_zero, Set.mem_ofPred_eq, Set.mem_singleton_iff, Point.ext_iff,
    Point.x_add, Point.y_add, Point.x_scale, Point.y_scale, add_zero]
  exact ⟨fun ⟨_, _, _, hq⟩ => hq, fun hq => ⟨0, le_rfl, zero_le_one, hq⟩⟩

theorem span_backwards (o d : Point Rat) (w : Rat) :
    span (o + d.scale w) d (-w) = span o d w := by
  ext q
  constructor
  · rintro ⟨s, h0, h1, rfl⟩
    refine ⟨1 - s, by linarith, by linarith, ?_⟩
    simp only [Point.ext_iff, Point.x_add, Point.y_add, Point.x_scale, Point.y_scale]
    constructor <;> ring
  · rintro ⟨s, h0, h1, rfl⟩
    refine ⟨1 - s, by linarith, by linarith, ?_⟩
    simp only [Point.ext_iff, Point.x_add, Point.y_add, Point.x_scale, Point.y_scale]
    constructor <;> ring

theorem eq_zero_of_span_neg {o d : Point Rat} {w : Rat} (hd : d.x ≠ 0)
    (h : span o d (-w) = span o d w) : w = 0 := by
  obtain ⟨s, h0, -, hs⟩ := h ▸ stop_mem_span o d (-w)
  have hx := congrArg Point.x hs
  simp only [Point.x_add, Point.x_scale, add_right_inj, mul_eq_mul_left_iff, hd, or_false] at hx
  nlinarith [mul_nonneg h0 (sq_nonneg w), sq_nonneg w]

theorem eq_of_span_right {o d : Point Rat} {w : Rat} (hw : w ≠ 0)
    (h : span (o + ⟨w, 0⟩) d (-w) = span o d w) : d = ⟨1, 0⟩ := by
  obtain ⟨s, h0, h1, hs⟩ := h.symm ▸ start_mem_span o d w
  obtain ⟨r, hr0, -, hr⟩ := h.symm ▸ stop_mem_span o d w
  simp only [Point.ext_iff, Point.x_add, Point.y_add, Point.x_scale, Point.y_scale] at hs hr ⊢
  have hs' : d.x * s = 1 := mul_left_cancel₀ hw (by linear_combination hs.1)
  have hr' : d.x * (1 + r) = 1 := mul_left_cancel₀ hw (by linear_combination hr.1)
  have hflat : d.y * s = 0 := mul_left_cancel₀ hw (by linear_combination hs.2)
  have hpos : 0 < d.x := pos_of_mul_pos_left (hs'.symm ▸ one_pos) h0
  have hx : d.x = 1 := by nlinarith
  have hy : d.y = 0 := by
    rw [hx, one_mul] at hs'
    rwa [hs', mul_one] at hflat
  exact ⟨hx, hy⟩

/-- The baselines of texts of a width, from calls that start with the given transform. -/
def baselines (width : Rat) (t : Transform Rat) : List (Call Rat) → List (Set (Point Rat))
  | [] => []
  | .setTransform u :: cs => baselines width u cs
  | .fillText _ o _ _ :: cs =>
    {q | ∃ s, 0 ≤ s ∧ s ≤ 1 ∧ q = t.apply (o + ⟨s * width, 0⟩)} :: baselines width t cs
  | _ :: cs => baselines width t cs

namespace Painter
variable [Angles]

/-- The cosine and the sine of the angle by which text is turned. -/
def direction (p : Painter Rat) : Point Rat :=
  if p.rotation == 0 then ⟨1, 0⟩ else ⟨Trig.cosine p.rotation, Trig.sine p.rotation⟩

theorem textTransform_apply (p : Painter Rat) (x : Rat) :
    p.textTransform.apply ⟨x, 0⟩ = p.direction.scale (if p.reversed then -x else x) := by
  have hupright : p.upright.apply ⟨x, 0⟩ = ⟨if p.reversed then -x else x, 0⟩ := by
    simp only [upright, Transform.apply, Transform.identity, Scalar.one, Scalar.zero, ofInt_rat,
      Point.ext_iff]
    split <;> simp
  rw [textTransform, direction]
  split
  · rw [hupright]
    simp [Point.ext_iff]
  · rw [Transform.apply_before, hupright]
    simp [Transform.rotation, Transform.turn, Transform.apply, Transform.identity, Scalar.zero,
      Point.ext_iff]

def baselineStart (p : Painter Rat) (width : Rat) : Point Rat :=
  if p.textTransform.isIdentity then p.position else p.textOrigin width

theorem baselines_showCalls (p : Painter Rat) (text : String) (width : Rat) :
    baselines width .identity (p.showCalls text width) =
      if p.visible = false ∨ text = "" then []
      else [span (p.baselineStart width) p.direction (if p.reversed then -width else width)] := by
  have hspan : span (p.baselineStart width) p.direction (if p.reversed then -width else width) =
      {q | ∃ s, 0 ≤ s ∧ s ≤ 1 ∧ q = p.baselineStart width + p.textTransform.apply ⟨s * width, 0⟩} := by
    have hsign (s : Rat) : s * (if p.reversed then -width else width) =
        if p.reversed then -(s * width) else s * width := by
      split <;> simp
    simp only [span, hsign, textTransform_apply]
  rw [hspan]
  simp only [showCalls, String.isEmpty_iff, baselineStart]
  split
  · rfl
  split
  case isTrue ht =>
    have hsame (s : Rat) : Transform.identity.apply (p.position + ⟨s * width, 0⟩) =
        p.position + p.textTransform.apply ⟨s * width, 0⟩ := by
      rw [Transform.apply_of_isIdentity rfl, Transform.apply_of_isIdentity ht]
    simp only [baselines, hsame]
  case isFalse =>
    have hmoved (s : Rat) : (p.textTransform.before (.shift (p.textOrigin width))).apply
          (.origin + ⟨s * width, 0⟩) =
        p.textOrigin width + p.textTransform.apply ⟨s * width, 0⟩ := by
      have horigin : Point.origin + ⟨s * width, 0⟩ = (⟨s * width, 0⟩ : Point Rat) := by
        simp [Point.origin, Scalar.zero, Point.ext_iff]
      rw [horigin, Transform.apply_before, Transform.apply_shift, Point.ext_iff]
      simp only [Point.x_add, Point.y_add, add_comm, and_self]
    simp only [baselines, hmoved]

theorem baselineStart_reversed (p : Painter Rat) (width : Rat) :
    { p with reversed := true }.baselineStart width = p.position + ⟨width, 0⟩ ∨
      p.direction = ⟨-1, 0⟩ ∧ { p with reversed := true }.baselineStart width = p.position := by
  rw [baselineStart]
  split
  case isTrue ht =>
    have hflipped := { p with reversed := true }.textTransform_apply 1
    rw [Transform.apply_of_isIdentity ht, if_pos rfl, Point.ext_iff] at hflipped
    obtain ⟨hx, hy⟩ : 1 = p.direction.x * -1 ∧ 0 = p.direction.y * -1 := hflipped
    exact .inr ⟨Point.ext (by linarith) (by linarith), rfl⟩
  case isFalse => exact .inl (by simp [textOrigin, position, Point.ext_iff])

/-- A text and its reversal take the same place on the page just if nothing is shown, or the text has
no width, or it runs along the page. -/
theorem reversed_in_place_iff (p : Painter Rat) (text : String) (width : Rat) :
    baselines width .identity ({ p with reversed := true }.showCalls text width) =
        baselines width .identity ({ p with reversed := false }.showCalls text width) ↔
      p.visible = false ∨ text = "" ∨ width = 0 ∨ p.direction = ⟨1, 0⟩ := by
  have hdirection (on : Bool) : { p with reversed := on }.direction = p.direction := rfl
  have hupright : { p with reversed := false }.baselineStart width = p.position := by
    rw [baselineStart]
    split <;> rfl
  simp only [baselines_showCalls, hdirection, hupright, if_true, Bool.false_eq_true, if_false]
  by_cases hhidden : p.visible = false ∨ text = ""
  · simp only [if_pos hhidden, true_iff]
    rw [← or_assoc]
    exact .inl hhidden
  rw [if_neg hhidden, if_neg hhidden, List.singleton_inj, ← or_assoc, or_iff_right hhidden]
  obtain hstart | ⟨hback, hstart⟩ := p.baselineStart_reversed width
  · rw [hstart]
    constructor
    · intro h
      by_cases hwidth : width = 0
      · exact .inl hwidth
      · exact .inr (eq_of_span_right hwidth h)
    · rintro (rfl | hforth)
      · simp [span_zero, Point.ext_iff]
      · have hscale : (⟨width, 0⟩ : Point Rat) = p.direction.scale width := by
          simp [hforth, Point.ext_iff]
        rw [hscale, span_backwards]
  · rw [hstart]
    constructor
    · exact fun h => .inl (eq_zero_of_span_neg (by simp [hback]) h)
    · rintro (rfl | hforth)
      · rw [neg_zero]
      · rw [hback, Point.ext_iff] at hforth
        norm_num at hforth

end Painter

namespace Painter

/-- Text that is turned by a quarter does not keep its place when it is reversed. -/
theorem reversed_not_always_in_place :
    ¬ ∀ (angles : Angles) (p : Painter Rat) (text : String) (width : Rat),
      angles.cosine p.rotation ^ 2 + angles.sine p.rotation ^ 2 = 1 →
        baselines width .identity ({ p with reversed := true }.showCalls text width) =
          baselines width .identity ({ p with reversed := false }.showCalls text width) := by
  intro hclaim
  let quarter : Angles := { Angles.straight with cosine := fun _ => 0, sine := fun _ => 1 }
  let p : Painter Rat := { Painter.initial 1 (1 / 25) with rotation := 90 }
  have hcircle : quarter.cosine p.rotation ^ 2 + quarter.sine p.rotation ^ 2 = 1 := by
    show (0 : Rat) ^ 2 + 1 ^ 2 = 1
    norm_num
  have hdirection : p.direction = ⟨0, 1⟩ := if_neg (by decide)
  have hplace := (reversed_in_place_iff p "a" 5000).mp (hclaim quarter p "a" 5000 hcircle)
  rw [hdirection] at hplace
  obtain hhidden | hempty | hwidth | hforth := hplace
  · cases hhidden
  · exact absurd hempty (by decide)
  · norm_num at hwidth
  · norm_num at hforth

end Painter
end Galley.Canvas
