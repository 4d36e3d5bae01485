import Mathlib.Data.List.Forall2
import Mathlib.Data.Nat.Digits.Defs
import Galley.Number.Integer
/-!
Numerals: rows of digits in a base of at most 16, letters in either case, and the numbers that they
stand for. They are what is read as digits.
-/
namespace Galley.Number

/-- A character as a digit of a base. -/
def IsDigitOf (base : Nat) (c : Char) (d : Nat) : Prop :=
  d < base ∧ (c = Nat.digitChar d ∨ c = (Nat.digitChar d).toUpper)

/-- One or more digits, the first being the most significant. -/
def IsNumeral (base : Nat) (s : List Char) (n : Nat) : Prop :=
  ∃ ds : List Nat, s ≠ [] ∧ List.Forall₂ (IsDigitOf base) s ds ∧ Nat.ofDigits base ds.reverse = n

theorem digit?_eq_some_iff {base : Nat} (hbase : base ≤ 16) {c : Char} {d : Nat} :
    digit? base c = some d ↔ IsDigitOf base c d := by
  have hchars : ∀ d < 16,
      (Nat.digitChar d).toNat = (if d < 10 then 48 + d else 87 + d) ∧
        (Nat.digitChar d).toUpper.toNat = if d < 10 then 48 + d else 55 + d := by decide
  rw [IsDigitOf]
  constructor
  · intro h
    have hd : d < base ∧ (c.toNat = (if d < 10 then 48 + d else 87 + d) ∨
        c.toNat = if d < 10 then 48 + d else 55 + d) := by
      simp only [digit?, Char.reduceToNat, Bool.and_eq_true, decide_eq_true_eq] at h
      grind
    obtain ⟨hlower, hupper⟩ := hchars d (by omega)
    rw [← hlower, ← hupper, Char.toNat_inj, Char.toNat_inj] at hd
    exact hd
  · rintro ⟨hd, hc⟩
    obtain ⟨hlower, hupper⟩ := hchars d (by omega)
    rw [← Char.toNat_inj, ← Char.toNat_inj, hlower, hupper] at hc
    simp only [digit?, Char.reduceToNat, Bool.and_eq_true, decide_eq_true_eq]
    grind

theorem mapM_eq_some_iff {α β : Type} {f : α → Option β} {xs : List α} {ys : List β} :
    xs.mapM f = some ys ↔ List.Forall₂ (fun x y => f x = some y) xs ys := by
  induction xs generalizing ys with
  | nil => simp [eq_comm]
  | cons x xs ih =>
    rw [List.mapM_cons, List.forall₂_cons_left_iff]
    simp only [Option.bind_eq_bind, Option.bind_eq_some_iff, Option.pure_def, Option.some.injEq, ih]
    constructor
    · rintro ⟨y, hy, zs, hzs, rfl⟩
      exact ⟨y, zs, hy, hzs, rfl⟩
    · rintro ⟨y, zs, hy, hzs, rfl⟩
      exact ⟨y, hy, zs, hzs, rfl⟩

theorem ofDigits_eq (base : Nat) (ds : List Nat) :
    ofDigits base ds = Nat.ofDigits base ds.reverse := by
  rw [ofDigits, Nat.ofDigits_eq_foldr, List.foldr_reverse]
  congr 1
  funext n d
  rw [Nat.cast_id, Nat.add_comm, Nat.mul_comm]

theorem digits?_eq_some_iff {base : Nat} (hbase : base ≤ 16) {s : List Char} {n : Nat} :
    digits? base s = some n ↔ IsNumeral base s n := by
  rw [digits?, IsNumeral]
  cases s with
  | nil => simp
  | cons c s =>
    simp only [List.isEmpty_cons, if_false, Option.map_eq_some_iff, mapM_eq_some_iff,
      digit?_eq_some_iff hbase, ofDigits_eq, Bool.false_eq_true, ne_eq, reduceCtorEq,
      not_false_eq_true, true_and]

end Galley.Number
