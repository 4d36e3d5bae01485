import Mathlib.Algebra.BigOperators.Fin
import Mathlib.Algebra.Group.Prod
import Mathlib.Data.List.Chain
import Mathlib.RingTheory.Polynomial.Bernstein
import Mathlib.Tactic.LinearCombination
import Galley.Canvas.Curve
import Galley.Drawing
import Galley.Proofs.Number.Bounds
import Galley.Proofs.Number.Exact
/-!
Splines as the way of a moving point. Each segment is a Bézier curve from where the one before it
ends, and the point goes from one to the next without a turn.
-/
namespace Galley
open Polynomial

theorem Drawing.total_of_fits {offsets : List (Int × Int)}
    (h : ∀ k ≤ offsets.length,
      Number.Fits (offsets.take k).sum.1 ∧ Number.Fits (offsets.take k).sum.2) :
    total offsets = offsets.sum := by
  induction offsets using List.reverseRecOn with
  | nil => rfl
  | append_singleton offsets d ih =>
    have hbefore : total offsets = offsets.sum := by
      refine ih fun k hk => ?_
      have hlong := h k (by rw [List.length_append]; omega)
      rwa [List.take_append_of_le_length hk] at hlong
    have hall := h (offsets ++ [d]).length le_rfl
    have hsum : (offsets ++ [d]).sum = (offsets.sum.1 + d.1, offsets.sum.2 + d.2) := by
      rw [List.sum_append, List.sum_singleton]
      rfl
    rw [List.take_length, hsum] at hall
    rw [hsum, total, List.foldl_append, ← total, hbefore, List.foldl_cons, List.foldl_nil,
      Number.add_of_fits hall.1, Number.add_of_fits hall.2]

namespace Canvas

/-! Bézier curves. -/

noncomputable def bezier (controls : List Rat) : Rat[X] :=
  ∑ i : Fin controls.length, C controls[i] * bernsteinPolynomial Rat (controls.length - 1) i

theorem bezier_line (a b : Rat) : bezier [a, b] = C a * (1 - X) + C b * X := by
  simp [bezier, bernsteinPolynomial]

theorem bezier_quadratic (a b c : Rat) :
    bezier [a, b, c] = C a * (1 - X) ^ 2 + C b * (2 * X * (1 - X)) + C c * X ^ 2 := by
  simp [bezier, bernsteinPolynomial, Fin.sum_univ_succ]
  ring

theorem bezier_cubic (a b c d : Rat) :
    bezier [a, b, c, d] = C a * (1 - X) ^ 3 + C b * (3 * X * (1 - X) ^ 2) +
      C c * (3 * X ^ 2 * (1 - X)) + C d * X ^ 3 := by
  simp [bezier, bernsteinPolynomial, Fin.sum_univ_succ]
  ring

/-- A quadratic curve is the cubic one whose inner control values are two thirds of the way to its
own. -/
theorem bezier_elevated (a b c : Rat) :
    bezier [a, a + (b - a) * (2 / 3), c + (b - c) * (2 / 3), c] = bezier [a, b, c] := by
  have hthird (u : Rat) : C (u + (b - u) * (2 / 3)) * 3 = (C u + C b * 2 : Rat[X]) := by
    have hvalue : (u + (b - u) * (2 / 3)) * 3 = u + b * 2 := by ring
    simpa only [map_add, map_mul, map_ofNat] using congrArg (C : Rat → Rat[X]) hvalue
  rw [bezier_cubic, bezier_quadratic]
  linear_combination (X * (1 - X) ^ 2) * hthird a + (X ^ 2 * (1 - X)) * hthird c

theorem derivative_line (a b t : Rat) : (derivative (bezier [a, b])).eval t = b - a := by
  simp [bezier_line]
  ring

theorem derivative_quadratic (a b c t : Rat) :
    (derivative (bezier [a, b, c])).eval t = 2 * ((b - a) * (1 - t) + (c - b) * t) := by
  simp [bezier_quadratic, derivative_pow]
  ring

/-- The two coordinates of a point that moves from time 0 to time 1. -/
structure Motion where
  x : Rat[X]
  y : Rat[X]

namespace Motion

noncomputable def position (m : Motion) (t : Rat) : Point Rat := ⟨m.x.eval t, m.y.eval t⟩

noncomputable def velocity (m : Motion) (t : Rat) : Point Rat :=
  ⟨(derivative m.x).eval t, (derivative m.y).eval t⟩

noncomputable def along (controls : List (Point Rat)) : Motion :=
  ⟨bezier (controls.map Point.x), bezier (controls.map Point.y)⟩

/-- One motion goes on where another ends and in the direction in which it goes there. -/
structure Continues (m k : Motion) : Prop where
  position : k.position 0 = m.position 1
  velocity : ∃ c > 0, k.velocity 0 = (m.velocity 1).scale c

theorem position_line (p q : Point Rat) :
    (along [p, q]).position 0 = p ∧ (along [p, q]).position 1 = q := by
  simp [position, along, bezier_line]

theorem position_quadratic (p q r : Point Rat) :
    (along [p, q, r]).position 0 = p ∧ (along [p, q, r]).position 1 = r := by
  simp [position, along, bezier_quadratic]

theorem velocity_line (p q : Point Rat) (t : Rat) : (along [p, q]).velocity t = q - p := by
  simp only [velocity, along, List.map_cons, List.map_nil, derivative_line]
  rfl

theorem velocity_quadratic (p q r : Point Rat) :
    (along [p, q, r]).velocity 0 = (q - p).scale 2 ∧
      (along [p, q, r]).velocity 1 = (r - q).scale 2 := by
  simp only [velocity, along, List.map_cons, List.map_nil, derivative_quadratic, Point.ext_iff,
    Point.x_scale, Point.y_scale, Point.x_sub, Point.y_sub]
  ring_nf
  simp

end Motion

/-! Paths. -/

def Segment.stop : Segment Rat → Point Rat
  | .line stop => stop
  | .cubic _ _ stop => stop

noncomputable def Segment.motion (start : Point Rat) : Segment Rat → Motion
  | .line stop => .along [start, stop]
  | .cubic c1 c2 stop => .along [start, c1, c2, stop]

noncomputable def motions (start : Point Rat) : List (Segment Rat) → List Motion
  | [] => []
  | s :: ss => s.motion start :: motions s.stop ss

theorem motion_elevate (p q r : Point Rat) : (elevate p q r).motion p = .along [p, q, r] := by
  have htwo : (Scalar.two / Scalar.ofInt 3 : Rat) = 2 / 3 := rfl
  simp only [elevate, Segment.motion, htwo, Motion.along, List.map_cons, List.map_nil, Point.lerp,
    Point.x_add, Point.y_add, Point.x_scale, Point.y_scale, Point.x_sub, Point.y_sub,
    bezier_elevated]

/-- The control points of a spline: the points that its offsets reach from its start. -/
def control (start : Point Rat) (offsets : List (Int × Int)) (i : Nat) : Point Rat :=
  start + Point.ofInts (offsets.take i).sum

theorem control_zero (start : Point Rat) (offsets : List (Int × Int)) :
    control start offsets 0 = start := by
  simp [control, Point.ext_iff, Point.ofInts]

theorem control_cons (start : Point Rat) (d : Int × Int) (offsets : List (Int × Int)) (i : Nat) :
    control start (d :: offsets) (i + 1) = control (start + Point.ofInts d) offsets i := by
  simp [control, Point.ext_iff, Point.ofInts, add_assoc]

theorem reach_eq (start : Point Rat) (offsets : List (Int × Int)) :
    reach start offsets =
      (List.range offsets.length).map fun i => control start offsets (i + 1) := by
  induction offsets generalizing start with
  | nil => rfl
  | cons d offsets ih =>
    have hfirst : control start (d :: offsets) 1 = start + Point.ofInts d := by
      rw [control_cons, control_zero]
    rw [reach, ih, List.length_cons, List.range_succ_eq_map, List.map_cons, List.map_map, hfirst]
    simp only [Function.comp_def, Nat.succ_eq_add_one, control_cons]

theorem bends_map_range (f : Nat → Point Rat) (m : Nat) :
    bends ((List.range (m + 2)).map f) =
      (List.range m).map (fun i =>
        elevate (middle (f i) (f (i + 1))) (f (i + 1)) (middle (f (i + 1)) (f (i + 2)))) ++
      [.line (f (m + 1))] := by
  induction m generalizing f with
  | zero => rfl
  | succ m ih =>
    have htail : (List.range (m + 2)).map (fun i => f (i + 1)) =
        f 1 :: f 2 :: (List.range m).map fun i => f (i + 3) := by
      simp [List.range_succ_eq_map, Function.comp_def]
    have hall : (List.range (m + 1 + 2)).map f =
        f 0 :: f 1 :: f 2 :: (List.range m).map fun i => f (i + 3) := by
      rw [List.range_succ_eq_map, List.map_cons, List.map_map, ← htail]
      rfl
    rw [hall, bends, ← htail, ih, List.range_succ_eq_map, List.map_cons, List.map_map]
    rfl

theorem motions_map_range {s : Nat → Segment Rat} {g : Nat → Point Rat}
    (hstop : ∀ i, (s i).stop = g (i + 1)) (m : Nat) (last : List (Segment Rat)) :
    motions (g 0) ((List.range m).map s ++ last) =
      (List.range m).map (fun i => (s i).motion (g i)) ++ motions (g m) last := by
  induction m generalizing s g with
  | zero => rfl
  | succ m ih =>
    have hrest := ih (s := fun i => s (i + 1)) (g := fun i => g (i + 1)) fun i => hstop (i + 1)
    rw [List.range_succ_eq_map, List.map_cons, List.map_map, List.cons_append, motions, hstop 0]
    simp only [List.map_cons, List.map_map, List.cons_append]
    exact congrArg _ hrest

theorem isChain_between {α : Type} {R : α → α → Prop} {a b : α} {f : Nat → α} {m : Nat}
    (ha : R a (f 0)) (hf : ∀ i < m, R (f i) (f (i + 1))) (hb : R (f m) b) :
    (a :: (List.range (m + 1)).map f ++ [b]).IsChain R := by
  have hmiddle : ((List.range (m + 1)).map f).IsChain R := by
    rw [List.isChain_map, List.isChain_range_succ]
    exact hf
  rw [List.cons_append, List.isChain_cons, List.isChain_append]
  refine ⟨?_, hmiddle, List.isChain_singleton b, ?_⟩
  · simpa [List.range_succ_eq_map] using ha
  · simpa [List.range_succ] using hb

/-! Joints. -/

theorem middle_eq (p q : Point Rat) : middle p q = ⟨(p.x + q.x) / 2, (p.y + q.y) / 2⟩ := by
  simp only [middle, Point.lerp, half_rat, Point.ext_iff, Point.x_add, Point.y_add, Point.x_scale,
    Point.y_scale, Point.x_sub, Point.y_sub]
  constructor <;> ring

namespace Motion

/-! Where two curves about neighbouring control points meet, both go as the line between the two. -/

theorem velocity_from_middle (p q r : Point Rat) :
    (along [middle p q, q, middle q r]).velocity 0 = q - p := by
  rw [(velocity_quadratic _ _ _).1]
  simp only [middle_eq, Point.ext_iff, Point.x_scale, Point.y_scale, Point.x_sub, Point.y_sub]
  constructor <;> ring

theorem velocity_to_middle (p q r : Point Rat) :
    (along [middle p q, q, middle q r]).velocity 1 = r - q := by
  rw [(velocity_quadratic _ _ _).2]
  simp only [middle_eq, Point.ext_iff, Point.x_scale, Point.y_scale, Point.x_sub, Point.y_sub]
  constructor <;> ring

theorem continues_first (p q r : Point Rat) :
    (along [p, middle p q]).Continues (along [middle p q, q, middle q r]) where
  position := by rw [(position_line _ _).2, (position_quadratic _ _ _).1]
  velocity := by
    refine ⟨2, by norm_num, ?_⟩
    rw [velocity_from_middle, velocity_line]
    simp only [middle_eq, Point.ext_iff, Point.x_scale, Point.y_scale, Point.x_sub, Point.y_sub]
    constructor <;> ring

theorem continues_middle (p q r s : Point Rat) :
    (along [middle p q, q, middle q r]).Continues (along [middle q r, r, middle r s]) where
  position := by rw [(position_quadratic _ _ _).2, (position_quadratic _ _ _).1]
  velocity := by
    refine ⟨1, by norm_num, ?_⟩
    rw [velocity_from_middle, velocity_to_middle]
    simp [Point.ext_iff]

theorem continues_last (p q r : Point Rat) :
    (along [middle p q, q, middle q r]).Continues (along [middle q r, r]) where
  position := by rw [(position_quadratic _ _ _).2, (position_line _ _).1]
  velocity := by
    refine ⟨1 / 2, by norm_num, ?_⟩
    rw [velocity_to_middle, velocity_line]
    simp only [middle_eq, Point.ext_iff, Point.x_scale, Point.y_scale, Point.x_sub, Point.y_sub]
    constructor <;> ring

end Motion

theorem spline_eq (start : Point Rat) {offsets : List (Int × Int)} {m : Nat}
    (hlength : offsets.length = m + 2) :
    let p := control start offsets
    spline start offsets =
      .line (middle (p 0) (p 1)) ::
        ((List.range (m + 1)).map (fun i =>
          elevate (middle (p i) (p (i + 1))) (p (i + 1)) (middle (p (i + 1)) (p (i + 2)))) ++
        [.line (p (m + 2))]) := by
  intro p
  have hreach : reach start offsets = p 1 :: p 2 :: (List.range m).map fun i => p (i + 3) := by
    rw [reach_eq, hlength]
    simp [p, List.range_succ_eq_map, Function.comp_def]
  have hzero : p 0 = start := control_zero start offsets
  have hcontrols : start :: reach start offsets = (List.range (m + 1 + 2)).map p := by
    rw [hreach]
    simp [hzero, List.range_succ_eq_map, Function.comp_def]
  have hspline : spline start offsets =
      .line (middle start (p 1)) :: bends (start :: reach start offsets) := by
    rw [spline, hreach]
  rw [hspline, hcontrols, bends_map_range, hzero]

theorem motions_spline (start : Point Rat) {offsets : List (Int × Int)} {m : Nat}
    (hlength : offsets.length = m + 2) :
    let p := control start offsets
    let mid i := middle (p i) (p (i + 1))
    motions start (spline start offsets) =
      .along [start, mid 0] ::
        ((List.range (m + 1)).map (fun i => .along [mid i, p (i + 1), mid (i + 1)]) ++
        [.along [mid (m + 1), p (m + 2)]]) := by
  intro p mid
  have hinner := motions_map_range (s := fun i => elevate (mid i) (p (i + 1)) (mid (i + 1))) (g := mid)
    (fun i => rfl) (m + 1) [.line (p (m + 2))]
  rw [spline_eq start hlength, motions]
  simp only [motion_elevate] at hinner
  exact congrArg _ hinner

/-- A spline of two offsets or more is a line to the middle of the first two control points, a cubic
curve for each inner control point, which is the quadratic one about it from the middle before it to
the middle after it, and a line to the last control point. It turns nowhere, does not change its
speed from curve to curve, and ends where the cursor is moved. -/
theorem spline_is_smooth (start : Point Rat) {offsets : List (Int × Int)}
    (h : 2 ≤ offsets.length) :
    let n := offsets.length
    let p := control start offsets
    let mid i : Point Rat := ⟨((p i).x + (p (i + 1)).x) / 2, ((p i).y + (p (i + 1)).y) / 2⟩
    let curves := (List.range (n - 1)).map fun i => Motion.along [mid i, p (i + 1), mid (i + 1)]
    (∃ c d : Nat → Point Rat, spline start offsets = .line (mid 0) ::
      ((List.range (n - 1)).map (fun i => .cubic (c i) (d i) (mid (i + 1))) ++ [.line (p n)])) ∧
    motions start (spline start offsets) =
      .along [start, mid 0] :: (curves ++ [.along [mid (n - 1), p n]]) ∧
    (motions start (spline start offsets)).IsChain Motion.Continues ∧
    curves.IsChain (fun before after => after.velocity 0 = before.velocity 1) ∧
    p n = start + .ofInts offsets.sum ∧
    ((∀ k ≤ n, Number.Fits (offsets.take k).sum.1 ∧ Number.Fits (offsets.take k).sum.2) →
      p n = start + .ofInts (Drawing.spline offsets).advance) := by
  intro n p mid curves
  obtain ⟨m, hm⟩ : ∃ m, offsets.length = m + 2 := ⟨offsets.length - 2, by omega⟩
  have hmid (i : Nat) : mid i = middle (p i) (p (i + 1)) := (middle_eq _ _).symm
  have hn : n = m + 2 := hm
  have hend : p n = start + .ofInts offsets.sum := by
    show start + Point.ofInts (offsets.take offsets.length).sum = _
    rw [List.take_length]
  have hmotions : motions start (spline start offsets) =
      .along [start, mid 0] :: (curves ++ [.along [mid (n - 1), p n]]) := by
    simp only [motions_spline start hm, curves, hmid, hn]
    rfl
  refine ⟨?_, hmotions, ?_, ?_, hend, fun hfits => ?_⟩
  · simp only [spline_eq start hm, hmid, hn]
    exact ⟨_, _, rfl⟩
  · have hzero : p 0 = start := control_zero start offsets
    rw [hmotions, ← List.cons_append]
    simp only [curves, hmid, hn, ← hzero]
    exact isChain_between (Motion.continues_first _ _ _)
      (fun i _ => Motion.continues_middle _ _ _ _) (Motion.continues_last _ _ _)
  · refine (List.isChain_map _).mpr ?_
    rw [hn]
    refine (List.isChain_range_succ _ m).mpr fun i _ => ?_
    simp only [hmid]
    rw [Motion.velocity_from_middle, Motion.velocity_to_middle]
  · rw [hend, ← Drawing.total_of_fits hfits]
    rfl

theorem spline_is_smooth_back_and_forth :
    let offsets : List (Int × Int) := [(10, 0), (10, 10), (-5, 20), (30, 3)]
    2 ≤ offsets.length ∧
    (∀ k ≤ offsets.length,
      Number.Fits (offsets.take k).sum.1 ∧ Number.Fits (offsets.take k).sum.2) ∧
    (motions .origin (spline .origin offsets)).IsChain Motion.Continues ∧
    control .origin offsets 4 = .origin + .ofInts (Drawing.spline offsets).advance := by
  intro offsets
  have hlength : 2 ≤ offsets.length := by decide
  have hfits : ∀ k ≤ offsets.length,
      Number.Fits (offsets.take k).sum.1 ∧ Number.Fits (offsets.take k).sum.2 := by
    unfold Number.Fits
    decide
  obtain ⟨-, -, hsmooth, -, -, hadvance⟩ := spline_is_smooth .origin hlength
  exact ⟨hlength, hfits, hsmooth, hadvance hfits⟩

end Canvas
end Galley
