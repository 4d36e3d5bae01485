import Galley.Proofs.Number.Numeral
/-! Whole numbers are read back from their digits. -/
namespace Galley.Number

theorem digit?_of_isDigit {c : Char} (h : c.isDigit = true) :
    digit? 10 c = some (c.toNat - '0'.toNat) := by
  have hc : ('0'.toNat ≤ c.toNat && c.toNat ≤ '9'.toNat) = true := by
    simpa [Char.isDigit, UInt32.le_iff_toNat_le] using h
  have hlt : c.toNat - '0'.toNat < 10 := by
    have h9 : '9'.toNat = '0'.toNat + 9 := rfl
    have := of_decide_eq_true (Bool.and_eq_true_iff.mp hc).2
    omega
  simp only [digit?, if_pos hc, if_pos hlt]

theorem mapM_digit? {s : List Char} (h : ∀ c ∈ s, c.isDigit = true) :
    s.mapM (digit? 10) = some (s.map fun c => c.toNat - '0'.toNat) := by
  rw [mapM_eq_some_iff, List.forall₂_map_right_iff, List.forall₂_same]
  exact fun c hc => digit?_of_isDigit (h c hc)

theorem ofDigits_map (s : List Char) (n : Nat) :
    (s.map fun c => c.toNat - '0'.toNat).foldl (fun n d => n * 10 + d) n =
      Nat.ofDigitChars 10 s n := by
  rw [Nat.ofDigitChars_eq_foldl, List.foldl_map]
  simp only [Nat.mul_comm]

theorem isDigit_of_mem_toDigits {n : Nat} {c : Char} (h : c ∈ Nat.toDigits 10 n) :
    c.isDigit = true :=
  Nat.isDigit_of_mem_toDigits (by decide) (by decide) h

theorem digits?_toDigits (n : Nat) : digits? 10 (Nat.toDigits 10 n) = some n := by
  have hdigits := mapM_digit? fun c (hc : c ∈ Nat.toDigits 10 n) => isDigit_of_mem_toDigits hc
  have hsome : (Nat.toDigits 10 n).isEmpty = false := by simp [Nat.toDigits_ne_nil]
  rw [digits?, hsome, hdigits, if_neg Bool.false_ne_true, Option.map_some, ofDigits, ofDigits_map,
    Nat.ofDigitChars_toDigits (by decide) (by decide)]

theorem natural?_toDigits (n : Nat) : natural? 10 (Nat.toDigits 10 n) = some n := by
  have hplus : ∀ s, Nat.toDigits 10 n ≠ '+' :: s := by
    intro s hs
    have := isDigit_of_mem_toDigits (n := n) (c := '+') (by simp [hs])
    exact absurd this (by decide)
  rw [natural?]
  · exact digits?_toDigits n
  · exact hplus

theorem below?_toDigits {n bound : Nat} (h : n < bound) :
    below? 10 bound (Nat.toDigits 10 n) = some n := by
  simp [below?, natural?_toDigits, h]

end Galley.Number
