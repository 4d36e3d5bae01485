import Mathlib
import Galley.Number.Rounding
/-!
Rounding by bits. The device number that is computed from the bits of a double is the one nearest
to the fraction that the double stands for.
-/
namespace Galley.Double
open Float.Model UnpackedFloat

/-! The fields of a double. -/

theorem toNat_unpackMantissa (b : BitVec 64) :
    (@unpackMantissa .binary64 b).toNat = b.toNat % 2 ^ 52 := by
  simp [unpackMantissa_def]

theorem toNat_unpackExponent (b : BitVec 64) :
    (@unpackExponent .binary64 b).toNat = b.toNat / 2 ^ 52 % 2 ^ 11 := by
  rw [← Nat.shiftRight_eq_div_pow]
  simp [unpackExponent_def]

theorem toNat_unpackSign (b : BitVec 64) :
    (@unpackSign .binary64 b).toNat = b.toNat / 2 ^ 63 % 2 := by
  rw [← Nat.shiftRight_eq_div_pow]
  simp [unpackSign_def]

theorem toNat_append (m : BitVec 52) : (1#1 ++ m).toNat = m.toNat + 2 ^ 52 := by
  rw [BitVec.toNat_append, ← Nat.shiftLeft_add_eq_or_of_lt m.isLt, Nat.add_comm]
  rfl

/-- The sign, also of what is not a number. -/
def sign (x : Float) : Sign := if Number.isNegative x then .negative else .positive

theorem sign_eq (x : Float) :
    sign x = Sign.ofBitVec (@unpackSign .binary64 x.toModel.toBits.toBitVec) := by
  have hbits : x.toBits.toNat = x.toModel.toBits.toBitVec.toNat := rfl
  rw [sign, Number.isNegative, hbits]
  generalize x.toModel.toBits.toBitVec = b
  have hlt : b.toNat < 2 ^ 64 := b.isLt
  have hzero : @unpackSign .binary64 b = 0#1 ↔ b.toNat < 2 ^ 63 := by
    rw [← BitVec.toNat_inj, toNat_unpackSign, BitVec.toNat_zero]
    omega
  simp only [Sign.ofBitVec, hzero, decide_eq_true_eq, Nat.pow_eq]
  by_cases h : b.toNat < 2 ^ 63
  · rw [if_pos h, if_neg (by omega)]
  · rw [if_neg h, if_pos (by omega)]

theorem binary_eq (x : Float) :
    let b := x.toModel.toBits.toBitVec
    let field := (@unpackExponent .binary64 b).toNat
    let fraction := (@unpackMantissa .binary64 b).toNat
    ∃ halfBelow, Number.Binary.ofFloat x =
      if field = 0 then ⟨fraction, -1074, false⟩
      else ⟨fraction + 2 ^ 52, (field : Int) - 1075, halfBelow⟩ := by
  intro b field fraction
  have hbits : x.toBits.toNat = b.toNat := rfl
  have hfield : b.toNat % 2 ^ 63 / 2 ^ 52 = field := by
    simp only [field, toNat_unpackExponent]
    omega
  have hfraction : b.toNat % 2 ^ 63 % 2 ^ 52 = fraction := by
    simp only [fraction, toNat_unpackMantissa]
    omega
  refine ⟨fraction = 0 && field != 1, ?_⟩
  simp only [Number.Binary.ofFloat, hbits, Nat.pow_eq, hfield, hfraction]

/-- What a double with this sign and absolute value may be. -/
inductive Reads (s : Sign) (b : Number.Binary) : UnpackedFloat → Prop
  | notANumber : Reads s b .notANumber
  | infinity (hm : b.mantissa = 2 ^ 52) (he : b.exponent = 972) : Reads s b (.infinity s)
  | zero (hm : b.mantissa = 0) : Reads s b (.zero s)
  | finite (hm : 0 < b.mantissa) : Reads s b (.finite s b.mantissa b.exponent hm)

theorem reads_unpack (x : Float) : Reads (sign x) (.ofFloat x) x.toModel.unpack := by
  obtain ⟨halfBelow, hbinary⟩ := binary_eq x
  rw [hbinary, sign_eq, Float.Model.unpack]
  generalize x.toModel.toBits.toBitVec = b
  fun_cases UnpackedFloat.unpack with
  | case1 mvec evec svec s hevec hmvec =>
    simp only [mvec, evec] at hevec hmvec
    rw [hevec, hmvec]
    exact .infinity rfl rfl
  | case2 => exact .notANumber
  | case3 mvec evec svec s _ hevec hmvec =>
    simp only [mvec, evec] at hevec hmvec
    rw [hevec, hmvec]
    exact .zero rfl
  | case4 mvec evec e svec s _ hevec hmvec =>
    simp only [evec] at hevec
    simp only [e, evec, hevec]
    exact .finite _
  | case5 mvec evec e svec s _ hevec =>
    have hfield : evec.toNat ≠ 0 := fun h => hevec (BitVec.eq_of_toNat_eq h)
    have hmantissa : (1#1 ++ mvec).toNat = mvec.toNat + 2 ^ 52 := toNat_append mvec
    rw [if_neg hfield]
    simp only [hmantissa]
    exact .finite _

/-! Rounding. -/

theorem floor_add_half (n : Nat) {d : Nat} (hd : 0 < d) :
    ⌊(n : ℚ) / d + 1 / 2⌋ = (Number.roundDiv .up n d : Int) := by
  have hdouble : (n : ℚ) / d + 1 / 2 = (2 * n + d : Nat) / (2 * d : Nat) := by
    push_cast
    field_simp
  rw [hdouble, Rat.floor_natCast_div_natCast, Number.roundDiv]
  norm_cast
  have hsplit : 2 * n + d = 2 * d * (n / d) + (2 * (n % d) + d) := by
    conv_lhs => rw [← Nat.div_add_mod n d]
    ring
  have hrest : n % d < d := Nat.mod_lt n hd
  rw [hsplit, Nat.mul_add_div (by omega)]
  split
  case isTrue h =>
    have hnone : (2 * (n % d) + d) / (2 * d) = 0 := Nat.div_eq_of_lt (by omega)
    rw [hnone, Nat.add_zero]
  case isFalse h =>
    have hone : (2 * (n % d) + d) / (2 * d) = 1 := by
      rw [Nat.div_eq_iff (by omega)]
      omega
    split <;> rw [hone]

theorem quotient_pos (b : Number.Binary) : 0 < b.quotient.2 := Nat.two_pow_pos _

theorem quotient_eq (b : Number.Binary) :
    (b.quotient.1 : ℚ) / b.quotient.2 = b.mantissa * 2 ^ b.exponent := by
  obtain ⟨k, hk | hk⟩ := Int.eq_nat_or_neg b.exponent <;>
    simp [Number.Binary.quotient, hk, div_eq_mul_inv]

/-- The nearest device number; halves go away from zero. -/
def rounded (x : Float) : Int :=
  match x.toModel.unpack with
  | .notANumber | .zero _ => 0
  | .infinity .positive => Number.greatest
  | .infinity .negative => Number.least
  | .finite s m e _ => Number.saturate (s.apply ⌊(m : ℚ) * 2 ^ e + 1 / 2⌋)

theorem withSign_eq (x : Float) (n : Nat) :
    Number.withSign x n =
      if x.toModel.unpack.isNaN then 0 else Number.saturate ((sign x).apply n) := by
  rw [Number.withSign, sign]
  cases Number.isNegative x <;> rfl

theorem ofFloat_eq_rounded (x : Float) : Number.ofFloat x = rounded x := by
  have hreads := reads_unpack x
  rw [rounded, Number.ofFloat]
  dsimp only
  rw [withSign_eq]
  generalize Number.Binary.ofFloat x = b at hreads ⊢
  generalize x.toModel.unpack = u at hreads ⊢
  cases hreads with
  | notANumber => rfl
  | infinity hm he =>
    rw [Number.Binary.quotient, hm, he]
    cases sign x <;> decide +kernel
  | zero hm =>
    have hquotient : b.quotient.1 = 0 := by rw [Number.Binary.quotient, hm, Nat.zero_mul]
    have hnothing : Number.roundDiv .up 0 b.quotient.2 = 0 := by
      rw [Number.roundDiv, Nat.zero_div, Nat.zero_mod]
      exact if_pos (quotient_pos b)
    rw [hquotient, hnothing]
    cases sign x <;> rfl
  | finite hm =>
    rw [← floor_add_half _ (quotient_pos b), quotient_eq]
    rfl

end Galley.Double
