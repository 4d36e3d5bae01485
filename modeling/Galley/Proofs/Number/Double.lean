import Galley.Number.Scalar
import Galley.Proofs.Number.Rounding
/-!
Doubles in products with one and zero. A product with one is the other number, to the last bit, and
one with zero is a zero or not a number, which a sum shows only if it is not a number.
-/
namespace Galley.Double
open Float.Model UnpackedFloat

/-! Numbers that are in the form of their format are not rounded. -/

theorem shiftRight_two_pow_mul (m n : Nat) :
    (⟨2 ^ n * m, false, false⟩ : ExtendedMantissa) >>> n = ⟨m, false, false⟩ := by
  show n.repeat ExtendedMantissa.shiftRightOne _ = _
  induction n generalizing m with
  | zero => simp [Nat.repeat]
  | succ n ih =>
    have h : 2 ^ (n + 1) * m = 2 ^ n * (2 * m) := by ring
    rw [Nat.repeat, h, ih]
    simp [ExtendedMantissa.shiftRightOne]

theorem log2_two_pow_mul {m : Nat} (hm : 0 < m) (n : Nat) : (2 ^ n * m).log2 = m.log2 + n := by
  induction n with
  | zero => simp
  | succ n ih =>
    have h : 2 ^ (n + 1) * m = 2 * (2 ^ n * m) := by ring
    rw [h, Nat.log2_two_mul (by positivity), ih, Nat.add_assoc]

/-- A mantissa and an exponent as the format has them. -/
def IsRounded (spec : Format) (m : Nat) (e : Int) : Prop :=
  spec.targetExponent (totalExponent m e) = e

theorem shiftToTargetExponent_two_pow_mul {spec : Format} {m : Nat} {e : Int}
    (h : IsRounded spec m e) (hm : 0 < m) (n : Nat) :
    shiftToTargetExponent spec (2 ^ n * m) (e - n) .exact = (⟨m, false, false⟩, e) := by
  have htotal : totalExponent (2 ^ n * m) (e - n) = totalExponent m e := by
    simp only [totalExponent, log2_two_pow_mul hm]
    omega
  have hamount : (e - (e - n)).toNat = n := by omega
  have hexponent : e - n + n = e := by omega
  rw [shiftToTargetExponent, htotal, h, shiftToExponent, hamount]
  simp [ExtendedMantissa.ofMantissaAndAccuracy, shiftRight_two_pow_mul]

theorem roundWithAccuracy_two_pow_mul {spec : Format} {m : Nat} {e : Int} (h : IsRounded spec m e)
    (hm : 0 < m) (s : Sign) (n : Nat) :
    roundWithAccuracy spec s (2 ^ n * m) (e - n) .exact = .finite s m e hm := by
  have hfirst := shiftToTargetExponent_two_pow_mul h hm n
  have hsecond : shiftToTargetExponent spec m e .exact = (⟨m, false, false⟩, e) := by
    simpa using shiftToTargetExponent_two_pow_mul h hm 0
  have hrounded : (⟨m, false, false⟩ : ExtendedMantissa).roundedMantissa = m := rfl
  simp only [roundWithAccuracy, hfirst, hrounded, hsecond]
  exact dif_neg hm.ne'

theorem log2_append (m : BitVec 52) : (1#1 ++ m).toNat.log2 = 52 := by
  rw [toNat_append, Nat.log2_eq_iff (by omega)]
  omega

theorem isRounded_of_unpack {x : Float} {s : Sign} {m : Nat} {e : Int} {hm : 0 < m}
    (h : x.toModel.unpack = .finite s m e hm) : IsRounded .binary64 m e := by
  rw [Float.Model.unpack] at h
  revert h
  fun_cases UnpackedFloat.unpack with
  | case1 => simp
  | case2 => simp
  | case3 => simp
  | case4 mvec evec e' svec s' _ hevec hmvec =>
    intro h
    obtain ⟨-, rfl, rfl⟩ := UnpackedFloat.finite.inj h
    have hlog : mvec.toNat.log2 < 52 := (Nat.log2_lt (by omega)).mpr mvec.isLt
    have he : evec.toNat = 0 := by simp [hevec]
    simp only [IsRounded, Format.targetExponent, totalExponent, Format.mantissaBits,
      Format.minExponent, e', Format.exponentBias, he]
    omega
  | case5 mvec evec e' svec s' hevec hevec' =>
    intro h
    obtain ⟨-, rfl, rfl⟩ := UnpackedFloat.finite.inj h
    have he : evec.toNat ≠ 0 := fun h0 => hevec' (BitVec.eq_of_toNat_eq h0)
    simp only [IsRounded, Format.targetExponent, totalExponent, Format.mantissaBits,
      Format.minExponent, e', Format.exponentBias, log2_append]
    omega

theorem ofModel_pack_unpack (x : Float) : Float.ofModel (.pack x.toModel.unpack) = x :=
  Float.ofBits_toBits x

theorem mul_eq (x y : Float) :
    x * y = .ofModel (.pack (UnpackedFloat.mul .binary64 x.toModel.unpack y.toModel.unpack)) := rfl

theorem add_eq (x y : Float) :
    x + y = .ofModel (.pack (UnpackedFloat.add .binary64 x.toModel.unpack y.toModel.unpack)) := rfl

theorem unpack_one :
    (Scalar.one : Float).toModel.unpack = .finite .positive (2 ^ 52) (-52) (by decide) := rfl

theorem unpack_zero : (Scalar.zero : Float).toModel.unpack = .zero .positive := rfl

theorem one_mul (x : Float) : Scalar.one * x = x := by
  conv_rhs => rw [← ofModel_pack_unpack x]
  rw [mul_eq, unpack_one]
  congr 2
  cases h : x.toModel.unpack with
  | notANumber => rfl
  | infinity s => cases s <;> rfl
  | zero s => cases s <;> rfl
  | finite s m e hm =>
    have hround := roundWithAccuracy_two_pow_mul (isRounded_of_unpack h) hm s 52
    have hexponent : -52 + e = e - (52 : Nat) := by omega
    cases s <;> exact (congrArg (roundWithAccuracy _ _ _ · _) hexponent).trans hround

/-! Numbers that add nothing. -/

/-- Not a number or a zero of either sign. -/
def Vanishes (x : Float) : Prop :=
  x.toModel.unpack = .notANumber ∨ ∃ s, x.toModel.unpack = .zero s

theorem vanishes_ofModel {u : UnpackedFloat} (h : u = .notANumber ∨ ∃ s, u = .zero s) :
    Vanishes (.ofModel (.pack u)) := by
  obtain rfl | ⟨s, rfl⟩ := h
  · exact .inl rfl
  · exact .inr ⟨s, by cases s <;> rfl⟩

theorem vanishes_zero : Vanishes Scalar.zero := .inr ⟨.positive, rfl⟩

theorem vanishes_zero_mul (x : Float) : Vanishes (Scalar.zero * x) := by
  rw [mul_eq, unpack_zero]
  apply vanishes_ofModel
  cases x.toModel.unpack <;> simp [UnpackedFloat.mul]

theorem vanishes_mul_zero (x : Float) : Vanishes (x * Scalar.zero) := by
  rw [mul_eq, unpack_zero]
  apply vanishes_ofModel
  cases x.toModel.unpack <;> simp [UnpackedFloat.mul]

theorem Vanishes.add {x y : Float} (hx : Vanishes x) (hy : Vanishes y) : Vanishes (x + y) := by
  rw [add_eq]
  apply vanishes_ofModel
  obtain hx | ⟨s, hx⟩ := hx <;> obtain hy | ⟨s', hy⟩ := hy <;>
    simp [hx, hy, UnpackedFloat.add]
  split <;> simp

theorem add_comm_of_vanishes {z : Float} (hz : Vanishes z) (x : Float) : z + x = x + z := by
  rw [add_eq, add_eq]
  congr 2
  obtain hz | ⟨s, hz⟩ := hz <;> rw [hz] <;> cases x.toModel.unpack <;> try rfl
  case zero s' => cases s <;> cases s' <;> rfl

theorem nan_add (x : Float) : Float.nan + x = Float.nan := rfl

theorem eq_of_unpack {x : Float} {u : UnpackedFloat} (h : x.toModel.unpack = u) :
    x = .ofModel (.pack u) := by
  rw [← h, ofModel_pack_unpack]

theorem add_cases {z : Float} (hz : Vanishes z) (x : Float) :
    x + z = Float.nan ∨ Scalar.same x (x + z) = true := by
  obtain hz | ⟨s, hz⟩ := hz
  · left
    rw [add_eq, hz]
    cases x.toModel.unpack <;> rfl
  · cases hx : x.toModel.unpack with
    | notANumber =>
      left
      rw [eq_of_unpack hx]
      exact nan_add z
    | zero s' =>
      right
      rw [eq_of_unpack hx, eq_of_unpack hz]
      cases s <;> cases s' <;> rfl
    | _ =>
      right
      have hsum : x + z = x := by
        rw [add_eq, hx, hz, eq_of_unpack hx]
        rfl
      have hnan : x ≠ Float.nan := by
        rintro rfl
        cases hx
      rw [hsum]
      exact Float.beq_self_iff.mpr hnan

theorem same_nan (x : Float) : Scalar.same Float.nan x = false := Float.nan_beq_eq_false x

theorem same_of_same_add {x z c : Float} (hz : Vanishes z) (h : Scalar.same (x + z) c = true) :
    Scalar.same x c = true := by
  obtain hnan | hsame := add_cases hz x
  · rw [hnan, same_nan] at h
    cases h
  · exact PartialEquivBEq.trans hsame h

theorem same_of_same_add_left {x z c : Float} (hz : Vanishes z) (h : Scalar.same (z + x) c = true) :
    Scalar.same x c = true := by
  rw [add_comm_of_vanishes hz] at h
  exact same_of_same_add hz h

theorem Vanishes.same_zero {x : Float} (hx : Vanishes x) (hnan : x ≠ Float.nan) :
    Scalar.same x Scalar.zero = true := by
  obtain hx | ⟨s, hx⟩ := hx
  · exact absurd (eq_of_unpack hx) hnan
  · rw [eq_of_unpack hx]
    cases s <;> rfl

end Galley.Double
