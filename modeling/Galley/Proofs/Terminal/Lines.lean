import Galley.Proofs.Terminal.Boxes
import Galley.Proofs.Terminal.Positions
/-!
Which cells a line draws on. They are those between its ends that are on the page, whichever way
the line goes and however far off the page it begins or ends.
-/
namespace Galley.Terminal

/-! The characters of lines. -/

def lineChars : List Char :=
  ['─', '│', '┌', '┐', '└', '┘', '┬', '┴', '├', '┤', '┼', Plot.rising, Plot.falling, Plot.crossed]

theorem Arms.char_mem (a : Arms) : a.char ∈ lineChars := by
  obtain ⟨_ | _, _ | _, _ | _, _ | _⟩ := a <;> decide

structure Cell.Inked (c style : Cell) : Prop where
  face : c.face = style.face
  colour : c.colour = style.colour
  ch : c.ch ∈ lineChars

namespace Segment

/-- Lines that are level, upright or at 45 degrees. -/
def Drawable (l : Segment) : Prop :=
  l.start.1 = l.stop.1 ∨ l.start.2 = l.stop.2 ∨
    (l.start.1 - l.stop.1).natAbs = (l.start.2 - l.stop.2).natAbs
  deriving Decidable

/-- A cell between the ends of a line and on the straight line through them. -/
def Passes (l : Segment) (x : Int × Int) : Prop :=
  l.covers x = true ∧
    (x.1 - l.start.1) * (l.stop.2 - l.start.2) = (x.2 - l.start.2) * (l.stop.1 - l.start.1)
  deriving Decidable

structure Fits (l : Segment) : Prop where
  start : Number.Fits l.start.1 ∧ Number.Fits l.start.2
  stop : Number.Fits l.stop.1 ∧ Number.Fits l.stop.2

def slope (l : Segment) : Int × Int :=
  ((l.stop.1 - l.start.1).sign, (l.stop.2 - l.start.2).sign)

def steps (l : Segment) : Nat := (l.start.1 - l.stop.1).natAbs

end Segment

namespace Plot

/-! Drawing on some cells. -/

structure Inks (p q : Plot) (style : Cell) (cells : List (Int × Int)) : Prop where
  drawn : ∀ x ∈ cells, (q.grid.get x.1 x.2).Inked style
  kept : ∀ x, x ∉ cells → q.grid.get x.1 x.2 = p.grid.get x.1 x.2

variable {p q r : Plot} {style : Cell}

theorem inks_nil (p : Plot) (style : Cell) : p.Inks p style [] :=
  ⟨fun _ hx => absurd hx List.not_mem_nil, fun _ _ => rfl⟩

theorem Inks.append {xs ys : List (Int × Int)} (h : p.Inks q style xs) (k : q.Inks r style ys) :
    p.Inks r style (xs ++ ys) where
  drawn := by
    intro x hx
    -- A cell that is drawn on twice is as the later cells leave it.
    by_cases hy : x ∈ ys
    · exact k.drawn x hy
    · rw [k.kept x hy]
      exact h.drawn x ((List.mem_append.mp hx).resolve_right hy)
  kept := by
    intro x hx
    rw [List.mem_append, not_or] at hx
    rw [k.kept x hx.2, h.kept x hx.1]

theorem inks_set (p : Plot) (style : Cell) {x : Int × Int} (hrow : 0 ≤ x.1) (hcol : 0 ≤ x.2)
    {ch : Char} (hch : ch ∈ lineChars) (strokes : Strokes) :
    p.Inks ⟨p.grid.set x.1 x.2 { style with ch := ch }, strokes⟩ style [x] where
  drawn := by
    intro y hy
    obtain rfl := List.mem_singleton.mp hy
    dsimp only
    rw [Grid.get_set, if_pos ⟨hrow, hcol, rfl, rfl⟩]
    exact ⟨rfl, rfl, hch⟩
  kept := by
    intro y hy
    dsimp only
    rw [Grid.get_set, if_neg]
    rintro ⟨-, -, hrow, hcol⟩
    exact hy (List.mem_singleton.mpr (Prod.ext hrow hcol))

theorem inks_merge (p : Plot) (style : Cell) {x : Int × Int} (hrow : 0 ≤ x.1) (hcol : 0 ≤ x.2)
    (a : Arms) : p.Inks (p.merge style x.1 x.2 a) style [x] := by
  rw [merge, if_neg (by omega)]
  exact p.inks_set style hrow hcol (Arms.char_mem _) _

theorem inks_slantedCell (p : Plot) (style : Cell) {ch : Char} (opposite : Char) {x : Int × Int}
    (hrow : 0 ≤ x.1) (hcol : 0 ≤ x.2) (hch : ch ∈ lineChars) :
    p.Inks (slantedCell style ch opposite p x) style [x] := by
  refine p.inks_set style hrow hcol ?_ _
  split
  · decide
  · exact hch

theorem inks_foldl {α : Type} {f : Plot → α → Plot} (place : α → Int × Int) {xs : List α}
    (h : ∀ q : Plot, ∀ x ∈ xs, q.Inks (f q x) style [place x]) (p : Plot) :
    p.Inks (xs.foldl f p) style (xs.map place) := by
  induction xs generalizing p with
  | nil => exact p.inks_nil style
  | cons x xs ih =>
    have hfirst := h p x List.mem_cons_self
    exact hfirst.append (ih (fun q y hy => h q y (List.mem_cons_of_mem x hy)) (f p x))

/-! The places of a slanted line. -/

theorem mem_takeWhile {α : Type} {p : α → Bool} {xs : List α}
    (h : xs.Pairwise fun a b => p b → p a) {x : α} :
    x ∈ xs.takeWhile p ↔ x ∈ xs ∧ p x := by
  induction xs with
  | nil => simp
  | cons a xs ih =>
    obtain ⟨ha, hxs⟩ := List.pairwise_cons.mp h
    by_cases hp : p a
    · rw [List.takeWhile_cons_of_pos hp, List.mem_cons, List.mem_cons, ih hxs]
      constructor
      · rintro (rfl | ⟨hx, hpx⟩)
        · exact ⟨.inl rfl, hp⟩
        · exact ⟨.inr hx, hpx⟩
      · rintro ⟨hx, hpx⟩
        exact hx.imp id fun hx => ⟨hx, hpx⟩
    · rw [List.takeWhile_cons_of_neg hp]
      simp only [List.not_mem_nil, List.mem_cons, false_iff, not_and]
      rintro (rfl | hx) hpx
      · exact hp hpx
      · exact hp (ha x hx hpx)

theorem pairwise_visible (first last : Int) : (visible first last).Pairwise (· < ·) := by
  rw [visible, List.pairwise_map]
  exact List.pairwise_lt_range.imp fun h => by omega

variable {start step : Int}

theorem firstVisible?_le (hstep : step = 1 ∨ step = -1) {k : Int} (hk : 0 ≤ k)
    (h : 0 ≤ start + k * step) : ∃ i, firstVisible? start step = some i ∧ i ≤ k := by
  rw [firstVisible?]
  split
  · exact ⟨0, rfl, hk⟩
  · obtain rfl | rfl := hstep
    · exact ⟨-start, rfl, by omega⟩
    · omega

theorem firstVisible?_convex (hstep : step = 1 ∨ step = -1) {i j k : Int}
    (h : firstVisible? start step = some i) (hij : i ≤ j) (hjk : j ≤ k)
    (hk : 0 ≤ start + k * step) : 0 ≤ start + j * step := by
  rw [firstVisible?] at h
  obtain rfl | rfl := hstep
  · split at h <;> simp at h <;> omega
  · omega

theorem mem_slantedPlaces {r c dr dc steps : Int} (hr : dr = 1 ∨ dr = -1)
    (hc : dc = 1 ∨ dc = -1) {x : Int × Int} :
    x ∈ slantedPlaces r c dr dc steps ↔
      0 ≤ x.1 ∧ 0 ≤ x.2 ∧ ∃ k, 0 ≤ k ∧ k ≤ steps ∧ x = (r + k * dr, c + k * dc) := by
  rw [slantedPlaces]
  split
  case h_1 i j hi hj =>
    -- Once a place is off the page, so are the later ones: stopping there loses none.
    have hmono : ((visible (max i j) steps).map fun k => (r + k * dr, c + k * dc)).Pairwise
        fun a b => (0 ≤ b.1 && 0 ≤ b.2) = true → (0 ≤ a.1 && 0 ≤ a.2) = true := by
      rw [List.pairwise_map]
      refine (pairwise_visible _ _).imp_of_mem fun {a b} ha _ hab hb => ?_
      obtain ⟨-, hfirst, -⟩ := mem_visible.mp ha
      simp only [Bool.and_eq_true, decide_eq_true_eq] at hb ⊢
      exact ⟨firstVisible?_convex hr hi (by omega) (by omega) hb.1,
        firstVisible?_convex hc hj (by omega) (by omega) hb.2⟩
    rw [mem_takeWhile hmono, List.mem_map, Bool.and_eq_true, decide_eq_true_eq, decide_eq_true_eq]
    constructor
    · rintro ⟨⟨k, hk, rfl⟩, hrow, hcol⟩
      obtain ⟨hpos, -, hlast⟩ := mem_visible.mp hk
      exact ⟨hrow, hcol, k, hpos, hlast, rfl⟩
    · rintro ⟨hrow, hcol, k, hpos, hlast, rfl⟩
      obtain ⟨i', hi', hik⟩ := firstVisible?_le hr hpos hrow
      obtain ⟨j', hj', hjk⟩ := firstVisible?_le hc hpos hcol
      obtain rfl := Option.some.inj (hi.symm.trans hi')
      obtain rfl := Option.some.inj (hj.symm.trans hj')
      exact ⟨⟨k, mem_visible.mpr ⟨hpos, by omega, hlast⟩, rfl⟩, hrow, hcol⟩
  case h_2 hnone =>
    simp only [List.not_mem_nil, false_iff]
    rintro ⟨hrow, hcol, k, hpos, -, rfl⟩
    obtain ⟨i, hi, -⟩ := firstVisible?_le hr hpos hrow
    obtain ⟨j, hj, -⟩ := firstVisible?_le hc hpos hcol
    exact hnone i j hi hj

def inkedCells (l : Segment) : List (Int × Int) :=
  if l.start.1 = l.stop.1 ∨ l.start.2 = l.stop.2 then lineCells l
  else slantedPlaces l.start.1 l.start.2 l.slope.1 l.slope.2 l.steps

theorem passes_of_aligned {l : Segment} (h : l.start.1 = l.stop.1 ∨ l.start.2 = l.stop.2)
    {x : Int × Int} (hx : l.covers x = true) : l.Passes x := by
  refine ⟨hx, ?_⟩
  simp only [Segment.covers, Bool.and_eq_true, decide_eq_true_eq] at hx
  obtain h | h := h
  · have hrow : x.1 = l.start.1 := by omega
    rw [hrow, ← h, Int.sub_self, Int.zero_mul, Int.mul_zero]
  · have hcol : x.2 = l.start.2 := by omega
    rw [hcol, ← h, Int.sub_self, Int.zero_mul, Int.mul_zero]

theorem eq_add_steps {a b : Int} (h : a ≠ b) :
    ((b - a).sign = 1 ∨ (b - a).sign = -1) ∧ b = a + (a - b).natAbs * (b - a).sign := by
  constructor
  · obtain hlt | hgt := lt_or_gt_of_ne h
    · exact .inl (Int.sign_eq_one_of_pos (by omega))
    · exact .inr (Int.sign_eq_neg_one_of_neg (by omega))
  · have habs := Int.sign_mul_natAbs (b - a)
    have hsymm : (a - b).natAbs = (b - a).natAbs := by omega
    rw [Int.mul_comm] at habs
    rw [hsymm, habs]
    omega

theorem exists_step_iff_passes {l : Segment} (hrow : l.start.1 ≠ l.stop.1)
    (hcol : l.start.2 ≠ l.stop.2)
    (hsteps : (l.start.1 - l.stop.1).natAbs = (l.start.2 - l.stop.2).natAbs) {x : Int × Int} :
    (∃ k, 0 ≤ k ∧ k ≤ (l.steps : Int) ∧
      x = (l.start.1 + k * l.slope.1, l.start.2 + k * l.slope.2)) ↔ l.Passes x := by
  obtain ⟨⟨r, c⟩, ⟨s, d⟩, style⟩ := l
  obtain ⟨row, col⟩ := x
  obtain ⟨hdr, hs⟩ := eq_add_steps hrow
  obtain ⟨hdc, hd⟩ := eq_add_steps hcol
  simp only [Segment.Passes, Segment.covers, Segment.slope, Segment.steps, Bool.and_eq_true,
    decide_eq_true_eq, Prod.mk.injEq] at *
  rw [← hsteps] at hd
  -- With the directions known to be signs, what is left is linear.
  generalize (s - r).sign = dr at *
  generalize (d - c).sign = dc at *
  generalize (r - s).natAbs = n at *
  subst hs hd
  have hn : (n : Int) ≠ 0 := by
    rintro hn
    rw [hn] at hrow
    omega
  have hline : (row - r) * (c + n * dc - c) = (col - c) * (r + n * dr - r) ↔
      (row - r) * dc = (col - c) * dr := by
    have hcols : c + n * dc - c = n * dc := by omega
    have hrows : r + n * dr - r = n * dr := by omega
    rw [hcols, hrows, Int.mul_left_comm, Int.mul_left_comm (col - c)]
    exact Int.mul_eq_mul_left_iff hn
  rw [hline]
  obtain rfl | rfl := hdr <;> obtain rfl | rfl := hdc
  all_goals
    constructor
    · rintro ⟨k, hpos, hlast, rfl, rfl⟩
      omega
    · intro h
      refine ⟨(row - r).natAbs, ?_⟩
      omega

theorem mem_inkedCells {l : Segment} (h : l.Drawable) {x : Int × Int} :
    x ∈ inkedCells l ↔ 0 ≤ x.1 ∧ 0 ≤ x.2 ∧ l.Passes x := by
  rw [inkedCells]
  split
  case isTrue haligned =>
    rw [mem_lineCells_of_aligned haligned]
    exact and_congr_right' (and_congr_right' ⟨passes_of_aligned haligned, And.left⟩)
  case isFalse hslanted =>
    rw [not_or] at hslanted
    have hsteps := (h.resolve_left hslanted.1).resolve_left hslanted.2
    refine (mem_slantedPlaces (eq_add_steps hslanted.1).1 (eq_add_steps hslanted.2).1).trans ?_
    exact and_congr_right' (and_congr_right' (exists_step_iff_passes hslanted.1 hslanted.2 hsteps))

/-! Lines. -/

theorem inks_lineCells {l : Segment} (h : l.start.1 = l.stop.1 ∨ l.start.2 = l.stop.2) (p : Plot) :
    ∃ q, p.line? l.start l.stop l.style = some q ∧ p.Inks q l.style (lineCells l) := by
  refine ⟨_, line?_of_aligned h p, ?_⟩
  have hall := inks_foldl (f := alignedCell l) id (fun q x hx => by
    obtain ⟨hrow, hcol, -⟩ := (mem_lineCells_of_aligned h).mp hx
    exact q.inks_merge l.style hrow hcol _) p
  rwa [List.map_id] at hall

theorem inks_slantedPlaces {l : Segment} (hrow : l.start.1 ≠ l.stop.1)
    (hcol : l.start.2 ≠ l.stop.2)
    (hsteps : (l.start.1 - l.stop.1).natAbs = (l.start.2 - l.stop.2).natAbs) (p : Plot) :
    ∃ q, p.line? l.start l.stop l.style = some q ∧
      p.Inks q l.style
        (slantedPlaces l.start.1 l.start.2 l.slope.1 l.slope.2 l.steps) := by
  have hplaces : ∀ x ∈ slantedPlaces l.start.1 l.start.2 l.slope.1 l.slope.2 l.steps,
      0 ≤ x.1 ∧ 0 ≤ x.2 := by
    intro x hx
    obtain ⟨hx₁, hx₂, -⟩ :=
      (mem_slantedPlaces (eq_add_steps hrow).1 (eq_add_steps hcol).1).mp hx
    exact ⟨hx₁, hx₂⟩
  have hdraw : ∀ ch opposite, ch ∈ lineChars →
      p.Inks ((slantedPlaces l.start.1 l.start.2 l.slope.1 l.slope.2 l.steps).foldl
        (slantedCell l.style ch opposite) p) l.style
        (slantedPlaces l.start.1 l.start.2 l.slope.1 l.slope.2 l.steps) := by
    intro ch opposite hch
    have hall := inks_foldl id (fun q x hx =>
      q.inks_slantedCell l.style opposite (hplaces x hx).1 (hplaces x hx).2 hch) p
    rwa [List.map_id] at hall
  simp only [line?, if_neg hrow, if_neg hcol, if_pos hsteps]
  refine ⟨_, rfl, ?_⟩
  split
  · exact hdraw falling rising (by decide)
  · exact hdraw rising falling (by decide)

theorem line?_inks {l : Segment} (h : l.Drawable) (p : Plot) :
    ∃ q, p.line? l.start l.stop l.style = some q ∧ p.Inks q l.style (inkedCells l) := by
  rw [inkedCells]
  split
  case isTrue haligned => exact inks_lineCells haligned p
  case isFalse hslanted =>
    rw [not_or] at hslanted
    exact inks_slantedPlaces hslanted.1 hslanted.2
      ((h.resolve_left hslanted.1).resolve_left hslanted.2) p

theorem line?_of_not_drawable {l : Segment} (h : ¬ l.Drawable) (p : Plot) :
    p.line? l.start l.stop l.style = none := by
  rw [Segment.Drawable, not_or, not_or] at h
  simp only [line?, if_neg h.1, if_neg h.2.1, if_neg h.2.2]

def draw (p : Plot) (l : Segment) : Plot := (p.line? l.start l.stop l.style).getD p

theorem draw_inks {l : Segment} (h : l.Drawable) (p : Plot) :
    p.Inks (p.draw l) l.style (inkedCells l) := by
  obtain ⟨q, hq, hinks⟩ := line?_inks h p
  rwa [draw, hq]

theorem isSome_line?_iff (l : Segment) (p : Plot) :
    (p.line? l.start l.stop l.style).isSome ↔ l.Drawable := by
  constructor
  · intro hsome
    by_contra h
    rw [line?_of_not_drawable h] at hsome
    cases hsome
  · intro h
    obtain ⟨q, hq, -⟩ := line?_inks h p
    rw [hq]
    rfl

/-! Slanted lines in machine words. -/

def word? (n : Int) : Option Int := if -2 ^ 63 ≤ n ∧ n < 2 ^ 63 then some n else none

def firstVisibleInWords? (start step : Int) : Option (Option Int) :=
  if 0 ≤ start then some (some 0)
  else if 0 < step then (word? (-start)).map some
  else some none

/-- The places of steps up to the first that is off the page or beyond the device numbers, unless
some number does not fit in a word. -/
def placesInWords? (r c dr dc : Int) : List Int → Option (List (Int × Int))
  | [] => some []
  | k :: ks => do
    let row ← word? (r + (← word? (k * dr)))
    let col ← word? (c + (← word? (k * dc)))
    if 0 ≤ row ∧ row ≤ Number.greatest ∧ 0 ≤ col ∧ col ≤ Number.greatest then
      (placesInWords? r c dr dc ks).map ((row, col) :: ·)
    else some []

def slantedPlacesInWords? (r c dr dc steps : Int) : Option (List (Int × Int)) := do
  match ← firstVisibleInWords? r dr, ← firstVisibleInWords? c dc with
  | some i, some j => placesInWords? r c dr dc (visible (max i j) steps)
  | _, _ => some []

theorem word?_of_mem {n : Int} (hl : -2 ^ 63 ≤ n) (hg : n < 2 ^ 63) : word? n = some n :=
  if_pos ⟨hl, hg⟩

theorem firstVisibleInWords?_eq (h : Number.Fits start) (step : Int) :
    firstVisibleInWords? start step = some (firstVisible? start step) := by
  have hl : Number.least = -2147483648 := rfl
  obtain ⟨hleast, -⟩ := h
  rw [firstVisibleInWords?, firstVisible?]
  split
  · rfl
  · split
    · rw [word?_of_mem (by omega) (by omega)]
      rfl
    · rfl

theorem fits_of_between {steps k : Int} (hstep : step = 1 ∨ step = -1) (hstart : Number.Fits start)
    (hstop : Number.Fits (start + steps * step)) (hpos : 0 ≤ k) (hlast : k ≤ steps) :
    Number.Fits (start + k * step) := by
  unfold Number.Fits at *
  obtain rfl | rfl := hstep <;> omega

theorem placesInWords?_eq {r c dr dc : Int} {ks : List Int}
    (hrow : ∀ k ∈ ks, Number.Fits (r + k * dr)) (hcol : ∀ k ∈ ks, Number.Fits (c + k * dc))
    (hr : Number.Fits r) (hc : Number.Fits c) :
    placesInWords? r c dr dc ks =
      some ((ks.map fun k => (r + k * dr, c + k * dc)).takeWhile fun (row, col) =>
        0 ≤ row && 0 ≤ col) := by
  have hl : Number.least = -2147483648 := rfl
  have hg : Number.greatest = 2147483647 := rfl
  induction ks with
  | nil => rfl
  | cons k ks ih =>
    obtain ⟨hk, hks⟩ := List.forall_mem_cons.mp hrow
    obtain ⟨hk', hks'⟩ := List.forall_mem_cons.mp hcol
    unfold Number.Fits at hk hk' hr hc
    -- The product is the difference of two device numbers, though a step by itself need not be one.
    have hwords : word? (k * dr) = some (k * dr) ∧ word? (r + k * dr) = some (r + k * dr) ∧
        word? (k * dc) = some (k * dc) ∧ word? (c + k * dc) = some (c + k * dc) :=
      ⟨word?_of_mem (by omega) (by omega), word?_of_mem (by omega) (by omega),
        word?_of_mem (by omega) (by omega), word?_of_mem (by omega) (by omega)⟩
    simp only [placesInWords?, hwords, Option.bind_eq_bind, Option.bind_some, ih hks hks']
    rw [List.map_cons]
    by_cases hpage : 0 ≤ r + k * dr ∧ 0 ≤ c + k * dc
    · rw [if_pos ⟨hpage.1, hk.2, hpage.2, hk'.2⟩, List.takeWhile_cons_of_pos (by simpa using hpage)]
      rfl
    · rw [if_neg fun h => hpage ⟨h.1, h.2.2.1⟩, List.takeWhile_cons_of_neg (by simpa using hpage)]

theorem slantedPlacesInWords?_eq {l : Segment} (h : l.Fits) (hrow : l.start.1 ≠ l.stop.1)
    (hcol : l.start.2 ≠ l.stop.2)
    (hsteps : (l.start.1 - l.stop.1).natAbs = (l.start.2 - l.stop.2).natAbs) :
    slantedPlacesInWords? l.start.1 l.start.2 l.slope.1 l.slope.2 l.steps =
      some (slantedPlaces l.start.1 l.start.2 l.slope.1 l.slope.2 l.steps) := by
  obtain ⟨hdr, hlastRow⟩ := eq_add_steps hrow
  obtain ⟨hdc, hlastCol⟩ := eq_add_steps hcol
  have hstopRow := h.stop.1
  have hstopCol := h.stop.2
  rw [hlastRow] at hstopRow
  rw [hlastCol, ← hsteps] at hstopCol
  have hplaces : ∀ first, ∀ k ∈ visible first l.steps,
      Number.Fits (l.start.1 + k * l.slope.1) ∧ Number.Fits (l.start.2 + k * l.slope.2) := by
    intro first k hk
    obtain ⟨hpos, -, hlast⟩ := mem_visible.mp hk
    exact ⟨fits_of_between hdr h.start.1 hstopRow hpos hlast,
      fits_of_between hdc h.start.2 hstopCol hpos hlast⟩
  rw [slantedPlacesInWords?, slantedPlaces, firstVisibleInWords?_eq h.start.1,
    firstVisibleInWords?_eq h.start.2]
  simp only [Option.bind_eq_bind, Option.bind_some]
  cases firstVisible? l.start.1 l.slope.1 with
  | none => rfl
  | some i =>
    cases firstVisible? l.start.2 l.slope.2 with
    | none => rfl
    | some j =>
      exact placesInWords?_eq (fun k hk => (hplaces _ k hk).1) (fun k hk => (hplaces _ k hk).2)
        h.start.1 h.start.2

end Plot

theorem natAbs_sub_lt {a b : Int} (ha : Number.Fits a) (hb : Number.Fits b) :
    (a - b).natAbs < 2 ^ 32 := by
  have hl : Number.least = -2147483648 := rfl
  have hg : Number.greatest = 2147483647 := rfl
  unfold Number.Fits at ha hb
  omega

theorem Screen.plot_eq (s : Screen) (start stop : Int × Int) :
    s.plot start stop =
      let p := Plot.draw ⟨s.pages.headD .empty, s.strokes⟩ ⟨start, stop, s.cell ' '⟩
      { s with pages := p.grid :: s.pages.tail, strokes := p.strokes } := by
  unfold plot Plot.draw
  cases s.pages with
  | nil =>
    dsimp only [List.headD_nil, List.tail_nil]
    cases Plot.line? ⟨.empty, s.strokes⟩ start stop (s.cell ' ') <;> rfl
  | cons g gs =>
    dsimp only [List.headD_cons, List.tail_cons]
    cases Plot.line? ⟨g, s.strokes⟩ start stop (s.cell ' ') <;> rfl

/-- A line between any two cells whose positions are device numbers is drawn just if it is level,
upright or at 45 degrees. It then draws in its style on the cells on the page that it passes and
leaves all the others as they are; if it cannot be drawn, the plot stays as it is. Distances fit in
32 bits without a sign, and what is computed for a slanted line fits in 64 bits with one. -/
theorem line_inks_what_it_passes (p : Plot) (l : Segment) (h : l.Fits) :
    ((p.line? l.start l.stop l.style).isSome ↔ l.Drawable) ∧
    (¬ l.Drawable → p.draw l = p) ∧
    (l.Drawable → ∀ x : Int × Int,
      (0 ≤ x.1 → 0 ≤ x.2 → l.Passes x → ((p.draw l).grid.get x.1 x.2).Inked l.style) ∧
      (¬ (0 ≤ x.1 ∧ 0 ≤ x.2 ∧ l.Passes x) →
        (p.draw l).grid.get x.1 x.2 = p.grid.get x.1 x.2)) ∧
    (l.start.1 - l.stop.1).natAbs < 2 ^ 32 ∧ (l.start.2 - l.stop.2).natAbs < 2 ^ 32 ∧
    (l.Drawable → l.start.1 ≠ l.stop.1 → l.start.2 ≠ l.stop.2 →
      Plot.slantedPlacesInWords? l.start.1 l.start.2 l.slope.1 l.slope.2 l.steps =
        some (Plot.slantedPlaces l.start.1 l.start.2 l.slope.1 l.slope.2 l.steps)) := by
  refine ⟨Plot.isSome_line?_iff l p, fun hnot => ?_, fun hdrawable x => ?_,
    natAbs_sub_lt h.start.1 h.stop.1, natAbs_sub_lt h.start.2 h.stop.2, ?_⟩
  · rw [Plot.draw, Plot.line?_of_not_drawable hnot]
    rfl
  · have hinks := Plot.draw_inks hdrawable p
    constructor
    · intro hrow hcol hpasses
      exact hinks.drawn x ((Plot.mem_inkedCells hdrawable).mpr ⟨hrow, hcol, hpasses⟩)
    · intro hother
      exact hinks.kept x fun hx => hother ((Plot.mem_inkedCells hdrawable).mp hx)
  · intro hdrawable hrow hcol
    exact Plot.slantedPlacesInWords?_eq h hrow hcol
      ((hdrawable.resolve_left hrow).resolve_left hcol)

/-- A line from the corner of all positions enters the page at its left edge. -/
theorem line_from_least_inks_what_it_passes :
    let l : Segment := ⟨(Number.least + 4, Number.least + 3), (2, 1), .blank⟩
    l.Fits ∧ l.Drawable ∧ ((Plot.empty.draw l).grid.get 1 0).Inked .blank ∧
      ((Plot.empty.draw l).grid.get 2 1).Inked .blank ∧
      (Plot.empty.draw l).grid.get 0 0 = .blank := by
  intro l
  have hfits : l.Fits := by
    refine ⟨⟨?_, ?_⟩, ⟨?_, ?_⟩⟩ <;> exact ⟨by decide, by decide⟩
  have hdrawable : l.Drawable := by decide
  obtain ⟨-, -, hcells, -⟩ := line_inks_what_it_passes .empty l hfits
  have hpasses : l.Passes (1, 0) ∧ l.Passes (2, 1) ∧ ¬ l.Passes (0, 0) := by decide
  refine ⟨hfits, hdrawable, ?_, ?_, ?_⟩
  · exact (hcells hdrawable (1, 0)).1 (by decide) (by decide) hpasses.1
  · exact (hcells hdrawable (2, 1)).1 (by decide) (by decide) hpasses.2.1
  · exact (hcells hdrawable (0, 0)).2 fun hx => hpasses.2.2 hx.2.2

end Galley.Terminal
