import Galley.Number.Integer
/-! Numbers within the bounds of device numbers. -/
namespace Galley.Number

/-- The numbers that a device can hold. -/
def Fits (n : Int) : Prop := least ≤ n ∧ n ≤ greatest

theorem fits_zero : Fits 0 := ⟨by decide, by decide⟩

theorem fits_one : Fits 1 := ⟨by decide, by decide⟩

theorem fits_max {a b : Int} (ha : Fits a) (hb : Fits b) : Fits (max a b) := by
  unfold Fits at *
  omega

theorem fits_add (a b : Int) : Fits (add a b) := ⟨least_le_saturate _, saturate_le_greatest _⟩

theorem fits_of_coordinate? {s : List Char} {n : Int} (h : coordinate? s = some n) : Fits n := by
  have hn := (Option.filter_eq_some_iff.mp h).2
  simpa [Fits] using hn

theorem add_of_fits {a b : Int} (h : Fits (a + b)) : add a b = a + b := saturate_of_mem h.1 h.2

end Galley.Number
