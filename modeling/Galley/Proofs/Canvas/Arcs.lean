import Mathlib.Data.Set.Basic
import Mathlib.Tactic.FieldSimp
import Mathlib.Tactic.Linarith
import Mathlib.Tactic.LinearCombination
import Mathlib.Tactic.NormNum
import Mathlib.Tactic.Ring
import Galley.Canvas.Curve
import Galley.Drawing
import Galley.Proofs.Number.Bounds
import Galley.Proofs.Number.Exact
/-!
The centre of an arc. The centre that a document gives is moved to the nearest point that is as far
from the start of the arc as from its end.
-/
namespace Galley.Canvas

namespace Point

def distanceSq (p q : Point Rat) : Rat := (q - p).dot (q - p)

theorem dot_self_nonneg (p : Point Rat) : 0 ≤ p.dot p :=
  add_nonneg (mul_self_nonneg p.x) (mul_self_nonneg p.y)

theorem dot_self_eq_zero_iff {p : Point Rat} : p.dot p = 0 ↔ p = origin := by
  rw [dot, mul_self_add_mul_self_eq_zero, Point.ext_iff]
  rfl

theorem distanceSq_eq_zero_iff {p q : Point Rat} : p.distanceSq q = 0 ↔ p = q := by
  rw [distanceSq, dot_self_eq_zero_iff, Point.ext_iff, Point.ext_iff]
  simp [origin, Scalar.zero, sub_eq_zero, eq_comm]

theorem ofInts_add (a b : Int × Int) : ofInts (a + b) = (ofInts a + ofInts b : Point Rat) := by
  simp [ofInts, Point.ext_iff]

theorem ofInts_eq_origin_iff {a : Int × Int} : ofInts a = (origin : Point Rat) ↔ a = 0 := by
  simp [ofInts, origin, Scalar.zero, Point.ext_iff, Prod.ext_iff]

end Point

/-! Perpendiculars. -/

/-- The foot of the perpendicular from a point onto a line: the way from there to the point is at
right angles to the line. -/
structure IsFoot (line : Set (Point Rat)) (p foot : Point Rat) : Prop where
  mem : foot ∈ line
  perpendicular : ∀ q ∈ line, (p - foot).dot (q - foot) = 0

namespace IsFoot
variable {line : Set (Point Rat)} {p foot q : Point Rat}

theorem distanceSq_eq (h : IsFoot line p foot) (hq : q ∈ line) :
    p.distanceSq q = p.distanceSq foot + foot.distanceSq q := by
  have hright := h.perpendicular q hq
  simp only [Point.distanceSq, Point.dot, Point.x_sub, Point.y_sub] at hright ⊢
  linear_combination (-2) * hright

theorem lt_of_ne (h : IsFoot line p foot) (hq : q ∈ line) (hne : q ≠ foot) :
    p.distanceSq foot < p.distanceSq q := by
  have hpos : 0 < foot.distanceSq q :=
    lt_of_le_of_ne (Point.dot_self_nonneg _)
      fun hzero => hne (Point.distanceSq_eq_zero_iff.mp hzero.symm).symm
  rw [h.distanceSq_eq hq]
  exact lt_add_of_pos_right _ hpos

theorem eq_of_mem (h : IsFoot line p foot) (hp : p ∈ line) : foot = p := by
  by_contra hne
  have hlt := h.lt_of_ne hp (Ne.symm hne)
  rw [Point.distanceSq_eq_zero_iff.mpr rfl] at hlt
  exact absurd (Point.dot_self_nonneg _) (not_le.mpr hlt)

end IsFoot

/-- The perpendicular bisector of a chord: the points as far from its start as from its end. -/
def bisector (start stop : Point Rat) : Set (Point Rat) :=
  {q | start.distanceSq q = stop.distanceSq q}

theorem mem_bisector_iff {start stop q : Point Rat} :
    q ∈ bisector start stop ↔
      (q - start).dot (stop - start) = 1 / 2 * (stop - start).dot (stop - start) := by
  simp only [bisector, Set.mem_ofPred_eq, Point.distanceSq, Point.dot, Point.x_sub, Point.y_sub]
  constructor
  · intro h
    linear_combination 1 / 2 * h
  · intro h
    linear_combination 2 * h

theorem isFoot_bisector {start stop given : Point Rat} {k : Rat}
    (h : (given - start).dot (stop - start) + k * (stop - start).dot (stop - start) =
      1 / 2 * (stop - start).dot (stop - start)) :
    IsFoot (bisector start stop) given (given + (stop - start).scale k) where
  mem := by
    rw [mem_bisector_iff, ← h]
    simp only [Point.dot, Point.x_add, Point.y_add, Point.x_sub, Point.y_sub, Point.x_scale,
      Point.y_scale]
    ring
  perpendicular := by
    intro q hq
    have hhalf := mem_bisector_iff.mp hq
    simp only [Point.dot, Point.x_add, Point.y_add, Point.x_sub, Point.y_sub, Point.x_scale,
      Point.y_scale] at h hhalf ⊢
    linear_combination k * h - k * hhalf

/-! The centre of an arc. -/

theorem same_zero_iff {x : Rat} : Scalar.same x Scalar.zero = true ↔ x = 0 := beq_iff_eq

theorem arcCentre_eq_none_iff {c1 chord : Point Rat} :
    arcCentre c1 chord = none ↔ chord = .origin := by
  rw [← Point.dot_self_eq_zero_iff, ← same_zero_iff, arcCentre]
  simp

theorem isFoot_arcCentre {start given stop centre : Point Rat}
    (h : arcCentre (given - start) (stop - start) = some centre) :
    IsFoot (bisector start stop) given (start + centre) := by
  rw [arcCentre] at h
  split at h
  case isTrue => cases h
  case isFalse hn =>
    have hmoved (k : Rat) : start + (given - start + (stop - start).scale k) =
        given + (stop - start).scale k := by
      simp only [Point.ext_iff, Point.x_add, Point.y_add, Point.x_sub, Point.y_sub]
      constructor <;> ring
    obtain rfl := Option.some.inj h
    rw [same_zero_iff] at hn
    rw [hmoved, half_rat]
    apply isFoot_bisector
    field_simp
    ring

section
variable [Angles] (start : Point Rat) {c1 c2 : Int × Int}

theorem arc_of_closed (h : c1 + c2 = 0) : arc start c1 c2 = .line start := by
  have hchord : Point.ofInts c1 + Point.ofInts c2 = (.origin : Point Rat) := by
    rw [← Point.ofInts_add, Point.ofInts_eq_origin_iff, h]
  rw [arc, hchord, arcCentre_eq_none_iff.mpr rfl]
  simp [Point.ext_iff, Point.origin, Scalar.zero]

theorem arc_of_open (h : c1 + c2 ≠ 0) :
    let given := start + Point.ofInts c1
    let stop := start + Point.ofInts (c1 + c2)
    ∃ centre, IsFoot (bisector start stop) given centre ∧
      arc start c1 c2 = .round centre (start - centre).length (start - centre).angle
        (stop - centre).angle := by
  intro given stop
  have hgiven : Point.ofInts c1 = given - start := by simp [given, Point.ext_iff]
  have hchord : Point.ofInts c1 + Point.ofInts c2 = stop - start := by
    simp [stop, Point.ofInts_add, Point.ext_iff]
  have hopen : stop - start ≠ .origin := by
    rwa [← hchord, ← Point.ofInts_add, ne_eq, Point.ofInts_eq_origin_iff]
  obtain ⟨centre, hcentre⟩ := Option.ne_none_iff_exists'.mp (mt arcCentre_eq_none_iff.mp hopen)
  have hstart : start - (start + centre) = .origin - centre := by
    simp [Point.ext_iff, Point.origin, Scalar.zero]
  have hstop : stop - (start + centre) = stop - start - centre := by
    simp only [Point.ext_iff, Point.x_sub, Point.y_sub, Point.x_add, Point.y_add]
    constructor <;> ring
  have hlength : (Point.origin - centre).length = centre.length := by
    simp [Point.length, Point.dot, Point.origin, Scalar.zero]
  refine ⟨start + centre, isFoot_arcCentre hcentre, ?_⟩
  rw [arc, hchord, hgiven, hcentre, hstart, hstop, hlength]

end

/-- An arc is a line just if its end meets its start, and then goes nowhere. Otherwise it goes about
the foot of the perpendicular from the given centre onto the perpendicular bisector of the chord,
which is as far from its start as from its end, nearer to the given centre than any other such
point, and the given centre itself if that is one. Within the bounds of device numbers the cursor is
moved to the end of the arc. -/
theorem arc_centre_is_foot [Angles] (start : Point Rat) (c1 c2 : Int × Int) :
    let given := start + Point.ofInts c1
    let stop := start + Point.ofInts (c1 + c2)
    ((∃ p, arc start c1 c2 = .line p) ↔ c1 + c2 = 0) ∧
    (c1 + c2 = 0 → arc start c1 c2 = .line start) ∧
    (c1 + c2 ≠ 0 → ∃ centre,
      arc start c1 c2 = .round centre (start - centre).length (start - centre).angle
        (stop - centre).angle ∧
      start.distanceSq centre = stop.distanceSq centre ∧
      IsFoot (bisector start stop) given centre ∧
      (∀ q, start.distanceSq q = stop.distanceSq q → q ≠ centre →
        given.distanceSq centre < given.distanceSq q) ∧
      (start.distanceSq given = stop.distanceSq given → centre = given)) ∧
    (Number.Fits (c1.1 + c2.1) → Number.Fits (c1.2 + c2.2) →
      stop = start + .ofInts (Drawing.arc c1 c2).advance) := by
  intro given stop
  refine ⟨⟨?_, fun h => ⟨start, arc_of_closed start h⟩⟩, arc_of_closed start, ?_, ?_⟩
  · rintro ⟨p, hp⟩
    by_contra h
    obtain ⟨centre, -, hround⟩ := arc_of_open start h
    rw [hround] at hp
    cases hp
  · intro h
    obtain ⟨centre, hfoot, hround⟩ := arc_of_open start h
    exact ⟨centre, hround, hfoot.mem, hfoot, fun q hq hne => hfoot.lt_of_ne hq hne,
      fun hgiven => hfoot.eq_of_mem hgiven⟩
  · intro hx hy
    rw [Drawing.advance, Number.add_of_fits hx, Number.add_of_fits hy]
    rfl

/-- A given centre that is nearer to the start than to the end is moved half of the difference. -/
theorem arc_centre_is_foot_moved :
    letI := Angles.straight
    let start : Point Rat := ⟨10, 20⟩
    let c1 : Int × Int := (90, 10)
    let c2 : Int × Int := (100, -10)
    c1 + c2 ≠ 0 ∧ Number.Fits (c1.1 + c2.1) ∧ Number.Fits (c1.2 + c2.2) ∧
    (∃ r a b, arc start c1 c2 = .round ⟨105, 30⟩ r a b) ∧
    IsFoot (bisector start ⟨200, 20⟩) ⟨100, 30⟩ ⟨105, 30⟩ ∧
    start + .ofInts (Drawing.arc c1 c2).advance = ⟨200, 20⟩ := by
  let _ := Angles.straight
  intro start c1 c2
  have hopen : c1 + c2 ≠ 0 := by decide
  have hx : Number.Fits (c1.1 + c2.1) := by
    unfold Number.Fits
    decide
  have hy : Number.Fits (c1.2 + c2.2) := by
    unfold Number.Fits
    decide
  have hgiven : start + Point.ofInts c1 = ⟨100, 30⟩ := by
    norm_num [start, c1, Point.ofInts, Point.ext_iff]
  have hstop : start + Point.ofInts (c1 + c2) = ⟨200, 20⟩ := by
    norm_num [start, c1, c2, Point.ofInts, Point.ext_iff]
  obtain ⟨-, -, hround, hadvance⟩ := arc_centre_is_foot start c1 c2
  obtain ⟨⟨x, y⟩, harc, hmiddle, hfoot, -⟩ := hround hopen
  rw [hgiven, hstop] at hfoot
  rw [hstop] at hmiddle
  have hfirst : x = 105 := by
    norm_num [Point.distanceSq, Point.dot, start] at hmiddle
    linarith
  have hsecond : y = 30 := by
    have hlevel : (⟨105, 30⟩ : Point Rat) ∈ bisector start ⟨200, 20⟩ := by
      norm_num [bisector, Point.distanceSq, Point.dot, start]
    have hright := hfoot.perpendicular _ hlevel
    simp only [hfirst, Point.dot, Point.x_sub, Point.y_sub, sub_self, mul_zero, zero_add,
      mul_self_eq_zero] at hright
    linarith
  subst hfirst hsecond
  exact ⟨hopen, hx, hy, ⟨_, _, _, harc⟩, hfoot, (hadvance hx hy).symm.trans hstop⟩

end Galley.Canvas
