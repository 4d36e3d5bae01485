import Mathlib.Data.List.DropRight
import Mathlib.Data.List.Forall2
import Mathlib.Data.List.GetD
import Galley.Terminal.Document
/-!
Trimmed rows as a normal form of what a grid shows. They read back as the grid does, they end in no
blank cell and in no empty row, and there is only one list of rows of which both is true. So grids
that show the same are put out in the same way, however much of them is blank.
-/
namespace Galley.Terminal

namespace Grid

/-! Lists that do not end in what stands for a missing element. -/

section
variable {α : Type} {p : α → Bool} {d : α} {l m : List α}

theorem getD_dropEnd (hp : ∀ x, p x = true → x = d) (l : List α) (i : Nat) :
    (dropEnd p l).getD i d = l.getD i d := by
  have hall : dropEnd p l ++ l.rtakeWhile p = l := List.rdropWhile_append_rtakeWhile
  by_cases hi : i < (dropEnd p l).length
  · conv_rhs => rw [← hall, List.getD_append _ _ _ _ hi]
  · rw [Nat.not_lt] at hi
    conv_rhs => rw [← hall, List.getD_append_right _ _ _ _ hi]
    rw [List.getD_eq_default _ _ hi]
    by_cases hj : i - (dropEnd p l).length < (l.rtakeWhile p).length
    · rw [List.getD_eq_getElem _ _ hj]
      exact (hp _ (List.mem_rtakeWhile_imp (List.getElem_mem hj))).symm
    · rw [List.getD_eq_default _ _ (Nat.not_lt.mp hj)]

theorem getLast?_dropEnd_ne (hp : p d = true) (l : List α) : (dropEnd p l).getLast? ≠ some d := by
  intro hlast
  have hne : dropEnd p l ≠ [] := by
    rintro hnil
    simp [hnil] at hlast
  have hd : (dropEnd p l).getLast hne = d := by
    rw [List.getLast?_eq_some_getLast hne] at hlast
    exact Option.some.inj hlast
  exact List.rdropWhile_last_not p l hne (hd ▸ hp)

theorem length_le_of_getD (hl : l.getLast? ≠ some d) (h : ∀ i, l.getD i d = m.getD i d) :
    l.length ≤ m.length := by
  by_contra hlong
  -- The last element of the longer list reads in the other as one that is missing.
  have hlast := h (l.length - 1)
  rw [List.getD_eq_default m _ (by omega), List.getD_eq_getElem?_getD, ← List.getLast?_eq_getElem?]
    at hlast
  cases hx : l.getLast? with
  | none => simp [List.getLast?_eq_none_iff.mp hx] at hlong
  | some x =>
    rw [hx, Option.getD_some] at hlast
    exact hl (hx.trans (congrArg some hlast))

theorem eq_of_getD (hl : l.getLast? ≠ some d) (hm : m.getLast? ≠ some d)
    (h : ∀ i, l.getD i d = m.getD i d) : l = m := by
  have hlength := Nat.le_antisymm (length_le_of_getD hl h)
    (length_le_of_getD hm fun i => (h i).symm)
  refine List.ext_getElem hlength fun i hi hi' => ?_
  have hget := h i
  rwa [List.getD_eq_getElem _ _ hi, List.getD_eq_getElem _ _ hi'] at hget

end

/-! Rows. -/

/-- Rows read as a grid: what is outside of them is blank. -/
def ofRows (rows : List (List Cell)) : Grid := ⟨(rows.map List.toArray).toArray⟩

theorem get_ofRows (rows : List (List Cell)) (i j : Nat) :
    (ofRows rows).get i j = (rows.getD i []).getD j .blank := by
  rw [get_natCast, List.getD_eq_getElem?_getD, List.getD_eq_getElem?_getD]
  simp only [ofRows, List.getElem?_toArray, List.getElem?_map]
  cases rows[i]? <;> simp

theorem get_eq_getD (g : Grid) (i j : Nat) :
    g.get i j = ((g.rows.toList.map Array.toList).getD i []).getD j .blank := by
  rw [get_natCast, List.getD_eq_getElem?_getD, List.getD_eq_getElem?_getD]
  simp only [List.getElem?_map, Array.getElem?_toList]
  cases g.rows[i]? <;> simp

/-- Grids that show the same at every position. -/
def Alike (g g' : Grid) : Prop := ∀ row col, g.get row col = g'.get row col

theorem get_of_neg (g : Grid) {row col : Int} (h : row < 0 ∨ col < 0) : g.get row col = .blank :=
  if_pos h

theorem alike_of_natCast {g g' : Grid} (h : ∀ i j : Nat, g.get i j = g'.get i j) : g.Alike g' := by
  intro row col
  by_cases hn : row < 0 ∨ col < 0
  · rw [get_of_neg g hn, get_of_neg g' hn]
  · obtain ⟨i, rfl⟩ := Int.eq_ofNat_of_zero_le (show 0 ≤ row by omega)
    obtain ⟨j, rfl⟩ := Int.eq_ofNat_of_zero_le (show 0 ≤ col by omega)
    exact h i j

/-- Rows without blank cells at their ends and without empty rows at the end. -/
structure Trimmed (rows : List (List Cell)) : Prop where
  cells : ∀ row ∈ rows, row.getLast? ≠ some .blank
  rows : rows.getLast? ≠ some []

theorem Trimmed.getD {rows : List (List Cell)} (h : Trimmed rows) (i : Nat) :
    (rows.getD i []).getLast? ≠ some .blank := by
  rw [List.getD_eq_getElem?_getD]
  cases hi : rows[i]? with
  | none => simp
  | some row => exact h.cells row (List.mem_of_getElem? hi)

theorem Trimmed.eq {rows rows' : List (List Cell)} (h : Trimmed rows) (h' : Trimmed rows')
    (hget : (ofRows rows).Alike (ofRows rows')) : rows = rows' := by
  refine eq_of_getD h.rows h'.rows fun i => eq_of_getD (h.getD i) (h'.getD i) fun j => ?_
  rw [← get_ofRows, ← get_ofRows]
  exact hget i j

theorem trimmed_outputRows (g : Grid) : Trimmed (g.outputRows true) where
  cells := by
    intro row hrow
    obtain ⟨cells, -, rfl⟩ := List.mem_map.mp ((List.rdropWhile_prefix _ _).subset hrow)
    exact getLast?_dropEnd_ne (by simp) cells
  rows := getLast?_dropEnd_ne rfl _

theorem alike_ofRows_outputRows (g : Grid) (trim : Bool) : (ofRows (g.outputRows trim)).Alike g := by
  refine alike_of_natCast fun i j => ?_
  rw [get_ofRows, get_eq_getD]
  cases trim with
  | false => rfl
  | true =>
    have hrow : ((g.rows.toList.map Array.toList).map (dropEnd (· = Cell.blank))).getD i [] =
        dropEnd (· = Cell.blank) ((g.rows.toList.map Array.toList).getD i []) :=
      List.getD_map _ [] (dropEnd (· = Cell.blank))
    show ((dropEnd List.isEmpty _).getD i []).getD j Cell.blank = _
    rw [getD_dropEnd (fun x hx => List.isEmpty_iff.mp hx), hrow,
      getD_dropEnd (fun x hx => of_decide_eq_true hx)]

theorem outputRows_eq_iff (g g' : Grid) : g.outputRows true = g'.outputRows true ↔ g.Alike g' := by
  constructor
  · intro h row col
    rw [← g.alike_ofRows_outputRows true, ← g'.alike_ofRows_outputRows true, h]
  · intro h
    refine g.trimmed_outputRows.eq g'.trimmed_outputRows fun row col => ?_
    rw [alike_ofRows_outputRows, alike_ofRows_outputRows, h]

end Grid

theorem Document.joinPages_congr {d d' : Document} (h : List.Forall₂ Grid.Alike d.pages d'.pages)
    {f f' : Grid → String} (hf : ∀ g g' : Grid, g.Alike g' → f g = f' g') :
    d.joinPages f = d'.joinPages f' := by
  have hpages : d.pages.map f = d'.pages.map f' := by
    rw [← List.forall₂_eq_eq_eq, List.forall₂_map_left_iff, List.forall₂_map_right_iff]
    exact h.imp hf
  rw [joinPages, joinPages, hpages]

/-- Trimmed rows are a normal form of what a grid shows: they read back as the grid does, they end
in no blank cell and no empty row, and they are the same for two grids just if the grids show the
same everywhere. So documents whose pages show the same are put out in the same way. -/
theorem trimmed_output_of_shown :
    (∀ g g' : Grid, g.outputRows true = g'.outputRows true ↔
      ∀ row col, g.get row col = g'.get row col) ∧
    (∀ g : Grid, Grid.Trimmed (g.outputRows true) ∧
      ∀ row col, (Grid.ofRows (g.outputRows true)).get row col = g.get row col) ∧
    ∀ d d' : Document, d.options.trim = true → d'.options.trim = true →
      List.Forall₂ Grid.Alike d.pages d'.pages →
        d.toText = d'.toText ∧
        (d.screen.sgr = d'.screen.sgr → d.toHtml = d'.toHtml ∧ d.toAnsi = d'.toAnsi) := by
  refine ⟨Grid.outputRows_eq_iff, fun g => ⟨g.trimmed_outputRows, g.alike_ofRows_outputRows true⟩,
    fun d d' htrim htrim' hpages => ⟨?_, fun hsgr => ?_⟩⟩
  · refine Document.joinPages_congr hpages fun g g' hg => ?_
    rw [htrim, htrim', pageText, pageText, (Grid.outputRows_eq_iff g g').mpr hg]
  · have hhtml : d.toHtml = d'.toHtml := by
      refine Document.joinPages_congr hpages fun g g' hg => ?_
      rw [htrim, htrim', hsgr, pageMarkup, pageMarkup, (Grid.outputRows_eq_iff g g').mpr hg]
    exact ⟨hhtml, by rw [Document.toAnsi, Document.toAnsi, hhtml]⟩

/-- Blanks written to the right of a letter and below it make a grid larger, but not its output. -/
theorem trimmed_output_of_blanks :
    let g := Grid.empty.set 1 0 ⟨'a', .bold, 5⟩
    let g' := (g.set 1 3 .blank).set 3 5 .blank
    let d : Document := ⟨{}, { Screen.initial ⟨240, 24, 40⟩ true with pages := [g] }, [], none⟩
    let d' : Document := ⟨{}, { Screen.initial ⟨240, 24, 40⟩ true with pages := [g'] }, [], none⟩
    g.Alike g' ∧ g.outputRows false ≠ g'.outputRows false ∧
      d.toText = d'.toText ∧ d.toHtml = d'.toHtml ∧ d.toAnsi = d'.toAnsi := by
  intro g g' d d'
  have halike : g.Alike g' := by
    intro row col
    simp only [g, g', Grid.get_set]
    grind [Grid.get, Grid.empty]
  have hrows : g.outputRows false ≠ g'.outputRows false := by decide +kernel
  obtain ⟨-, -, hdocuments⟩ := trimmed_output_of_shown
  obtain ⟨htext, hstyled⟩ := hdocuments d d' rfl rfl (.cons halike .nil)
  exact ⟨halike, hrows, htext, hstyled rfl⟩

end Galley.Terminal
