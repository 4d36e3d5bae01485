import Mathlib.Order.Bounds.Basic
import Mathlib.Order.Interval.Set.Defs
import Mathlib.Tactic.Ring
import Galley.Colour.Palette
/-!
The palette entry that stands for a colour. The indices are tried in order and a later one is taken
only if its entry is closer, so it is the first of the nearest ones.
-/
namespace Galley.Palette

def squaredDistance (a b : Rgb) : Int :=
  ((a.r : Int) - b.r) ^ 2 + ((a.g : Int) - b.g) ^ 2 + ((a.b : Int) - b.b) ^ 2

theorem square_eq (a b : Nat) : (square a b : Int) = ((a : Int) - b) ^ 2 := by
  rw [square]
  obtain ⟨k, rfl⟩ | ⟨k, rfl⟩ := (le_total a b).imp Nat.exists_eq_add_of_le Nat.exists_eq_add_of_le
  all_goals
    simp
    ring

theorem distance_eq (a b : Rgb) : (distance a b : Int) = squaredDistance a b := by
  rw [distance, squaredDistance]
  push_cast
  rw [square_eq, square_eq, square_eq]

/-- The indices whose entries are the same on every terminal. -/
def indices : Set Nat := Set.Icc 16 255

theorem isSome_rgb?_iff {index : Nat} : (rgb? index).isSome ↔ index ∈ indices := by
  rw [rgb?, indices, Set.mem_Icc]
  split_ifs <;> simp <;> omega

/-- The colour at an index; where it differs between terminals it is taken to be black. -/
def entry (index : Nat) : Rgb := (rgb? index).getD .black

theorem distanceAt?_eq {index : Nat} (h : index ∈ indices) (c : Rgb) :
    distanceAt? c index = some (distance c (entry index)) := by
  obtain ⟨e, he⟩ := Option.isSome_iff_exists.mp (isSome_rgb?_iff.mpr h)
  rw [distanceAt?, entry, he]
  rfl

def leastAmong (f : Nat → Nat) (is : List Nat) : Set Nat := {i | i ∈ is ∧ ∀ j ∈ is, f i ≤ f j}

variable {f : Nat → Nat} {i j : Nat} {is : List Nat}

theorem leastAmong_of_lt (h : f j < f i) :
    leastAmong f (i :: j :: is) = leastAmong f (j :: is) := by
  ext k
  constructor
  · rintro ⟨hk, hleast⟩
    have hki : k ≠ i := by
      rintro rfl
      exact absurd (hleast j (by simp)) (Nat.not_le.mpr h)
    exact ⟨(List.mem_cons.mp hk).resolve_left hki, (List.forall_mem_cons.mp hleast).2⟩
  · rintro ⟨hk, hleast⟩
    have hki : f k ≤ f i := (hleast j List.mem_cons_self).trans h.le
    exact ⟨List.mem_cons_of_mem i hk, List.forall_mem_cons.mpr ⟨hki, hleast⟩⟩

theorem isLeast_leastAmong_of_le (h : f i ≤ f j) (hij : i < j) {k : Nat}
    (hk : IsLeast (leastAmong f (i :: is)) k) : IsLeast (leastAmong f (i :: j :: is)) k := by
  obtain ⟨⟨hmem, hleast⟩, hlower⟩ := hk
  obtain ⟨hki, hrest⟩ := List.forall_mem_cons.mp hleast
  refine ⟨⟨?_, ?_⟩, ?_⟩
  · exact List.mem_cons.mpr ((List.mem_cons.mp hmem).imp id (List.mem_cons_of_mem j))
  · exact List.forall_mem_cons.mpr ⟨hki, List.forall_mem_cons.mpr ⟨hki.trans h, hrest⟩⟩
  · rintro l ⟨hl, hlleast⟩
    obtain ⟨hli, htail⟩ := List.forall_mem_cons.mp hlleast
    obtain ⟨-, hlrest⟩ := List.forall_mem_cons.mp htail
    obtain rfl | hl := List.mem_cons.mp hl
    · exact hlower ⟨List.mem_cons_self, List.forall_mem_cons.mpr ⟨hli, hlrest⟩⟩
    obtain rfl | hl := List.mem_cons.mp hl
    · have hi : ∀ m ∈ i :: is, f i ≤ f m :=
        List.forall_mem_cons.mpr ⟨le_rfl, fun m hm => h.trans (hlrest m hm)⟩
      exact (hlower ⟨List.mem_cons_self, hi⟩).trans hij.le
    · exact hlower ⟨List.mem_cons_of_mem i hl, List.forall_mem_cons.mpr ⟨hli, hlrest⟩⟩

theorem foldl_closer {c : Rgb} (hf : ∀ j ∈ is, distanceAt? c j = some (f j))
    (hsorted : (i :: is).Pairwise (· < ·)) :
    IsLeast (leastAmong f (i :: is)) (is.foldl (closer c) (i, some (f i))).1 := by
  induction is generalizing i with
  | nil => exact ⟨by simp [leastAmong], by simp [leastAmong, lowerBounds]⟩
  | cons j is ih =>
    obtain ⟨hj, his⟩ := List.forall_mem_cons.mp hf
    obtain ⟨hi, htail⟩ := List.pairwise_cons.mp hsorted
    obtain ⟨hij, hiis⟩ := List.forall_mem_cons.mp hi
    rw [List.foldl_cons, closer, hj]
    dsimp only
    split
    case isTrue hcloser =>
      rw [leastAmong_of_lt hcloser]
      exact ih his htail
    case isFalse hfarther =>
      have hskip := ih his (List.pairwise_cons.mpr ⟨hiis, htail.of_cons⟩)
      exact isLeast_leastAmong_of_le (Nat.not_lt.mp hfarther) hij hskip

def nearestTo (c : Rgb) : Set Nat :=
  {i | i ∈ indices ∧ ∀ j ∈ indices, squaredDistance c (entry i) ≤ squaredDistance c (entry j)}

theorem leastAmong_distance (c : Rgb) :
    leastAmong (fun i => distance c (entry i)) (List.range' 16 240) = nearestTo c := by
  have hmem : ∀ i, i ∈ List.range' 16 240 ↔ i ∈ indices := by
    intro i
    rw [List.mem_range'_1, indices, Set.mem_Icc]
    omega
  have hle : ∀ i j, distance c (entry i) ≤ distance c (entry j) ↔
      squaredDistance c (entry i) ≤ squaredDistance c (entry j) := by
    intro i j
    rw [← distance_eq, ← distance_eq, Int.ofNat_le]
  ext i
  simp only [leastAmong, nearestTo, hmem, hle]

/-- The index that stands for a colour is the lowest whose entry is nearest to it. -/
theorem nearest_isLeast (c : Rgb) : IsLeast (nearestTo c) (nearest c) := by
  have hrange : List.range' 16 240 = 16 :: List.range' 17 239 := rfl
  have hfirst : closer c (16, none) 16 = (16, some (distance c (entry 16))) := rfl
  rw [nearest, ← leastAmong_distance, hrange, List.foldl_cons, hfirst]
  refine foldl_closer (fun j hj => distanceAt?_eq ?_ c) ?_
  · rw [List.mem_range'_1] at hj
    exact ⟨by omega, by omega⟩
  · rw [← hrange]
    exact List.pairwise_lt_range'

theorem square_eq_zero_iff {a b : Nat} : square a b = 0 ↔ a = b := by
  rw [square, mul_self_eq_zero]
  omega

theorem distance_eq_zero_iff {a b : Rgb} : distance a b = 0 ↔ a = b := by
  cases a
  cases b
  simp only [distance, Nat.add_eq_zero_iff, square_eq_zero_iff, Rgb.mk.injEq, and_assoc]

theorem entry_nearest {i : Nat} (h : i ∈ indices) : entry (nearest (entry i)) = entry i := by
  have hle := (nearest_isLeast (entry i)).1.2 i h
  rw [← distance_eq, ← distance_eq, distance_eq_zero_iff.mpr rfl] at hle
  exact (distance_eq_zero_iff.mp (by omega)).symm

end Galley.Palette
