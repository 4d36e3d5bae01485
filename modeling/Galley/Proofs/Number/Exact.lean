import Mathlib.Algebra.Order.Ring.Rat
import Mathlib.Algebra.Order.Group.Unbundled.Abs
import Galley.Number.Scalar
/-! Fractions as scalars: their arithmetic is the exact one. -/
namespace Galley

@[simp] theorem ofInt_rat (n : Int) : (Scalar.ofInt n : Rat) = n := rfl

@[simp] theorem half_rat : (Scalar.half : Rat) = 1 / 2 := rfl

@[simp] theorem le_rat {x y : Rat} : Scalar.le x y = true ↔ x ≤ y := decide_eq_true_iff

@[simp] theorem min_rat (x y : Rat) : Scalar.min x y = min x y := by
  simp [Scalar.min, min_def]

@[simp] theorem max_rat (x y : Rat) : Scalar.max x y = max x y := by
  simp [Scalar.max, max_def]

@[simp] theorem abs_rat (x : Rat) : Scalar.abs x = |x| := by
  by_cases h : 0 ≤ x
  · rw [abs_of_nonneg h]
    exact if_pos (le_rat.mpr h)
  · rw [abs_of_neg (not_le.mp h)]
    exact if_neg fun hle => h (le_rat.mp hle)

/-- Directions and distances, of which exact arithmetic has none of its own. -/
class Angles where
  cosine : Float → Rat
  sine : Float → Rat
  tangent : Int → Rat
  sqrt : Rat → Rat
  angle : Rat → Rat → Rat
  fullTurn : Rat

/-- What is known of text that is neither turned nor slanted. -/
@[reducible] def Angles.straight : Angles where
  cosine _ := 1
  sine _ := 0
  tangent _ := 0
  sqrt x := x
  angle _ _ := 0
  fullTurn := 44 / 7

instance [Angles] : Trig Rat where
  cosine := Angles.cosine
  sine := Angles.sine
  tangent := Angles.tangent
  sqrt := Angles.sqrt
  angle := Angles.angle
  fullTurn := Angles.fullTurn

end Galley
