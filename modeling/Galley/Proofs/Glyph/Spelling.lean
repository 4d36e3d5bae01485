import Galley.Glyph.Resolve
import Galley.Proofs.Number.Numeral
/-!
Glyph names that spell their text out. A name after `u` is a row of code points in base 16 with
underscores between them, and every row of characters has such a name. A name after `char` is a
Latin-1 code point in decimal digits.
-/
namespace Galley

theorem Text.char?_eq_some_iff {n : Nat} {c : Char} : char? n = some c ↔ c.toNat = n := by
  rw [char?]
  constructor
  · intro h
    obtain ⟨hn, hc⟩ := Option.ite_none_right_eq_some.mp h
    rw [← Option.some.inj hc, Char.ofNat, dif_pos hn]
    rfl
  · rintro rfl
    have hc : c.toNat.isValidChar := c.valid
    rw [if_pos hc, Char.ofNat_toNat]

namespace Glyph
open Number

/-- Four to six digits of base 16 that are the code point of a character. -/
def Spells (w : List Char) (c : Char) : Prop :=
  4 ≤ w.length ∧ w.length ≤ 6 ∧ IsNumeral 16 w c.toNat

theorem codePoint?_eq_some_iff {w : List Char} {c : Char} :
    codePoint? w = some c ↔ Spells w c := by
  rw [codePoint?, Spells]
  by_cases hlen : 4 ≤ w.length ∧ w.length ≤ 6
  · simp [hlen, Text.char?_eq_some_iff, digits?_eq_some_iff, Option.bind_eq_some_iff]
  · rw [if_neg hlen, ← and_assoc]
    simp [hlen]

theorem underscore_not_mem_of_spells {w : List Char} {c : Char} (h : Spells w c) : '_' ∉ w := by
  obtain ⟨-, -, ds, -, hds, -⟩ := h
  have hdigit : ∀ c d, IsDigitOf 16 c d → c ≠ '_' := by
    rintro c d h rfl
    have hnone : digit? 16 '_' = none := by decide
    rw [← digit?_eq_some_iff le_rfl, hnone] at h
    simp at h
  have hall := (List.forall₂_and_left _ _).mp (hds.imp fun c d h => ⟨hdigit c d h, h⟩)
  exact fun hmem => hall.1 _ hmem rfl

theorem codePoints?_eq_some_iff {s cs : List Char} :
    codePoints? s = some cs ↔
      ∃ ws, ws ≠ [] ∧ s = ['_'].intercalate ws ∧ List.Forall₂ Spells ws cs := by
  simp only [codePoints?, mapM_eq_some_iff, codePoint?_eq_some_iff]
  constructor
  · intro h
    exact ⟨s.splitOn '_', List.splitOn_ne_nil _ _, (List.intercalate_splitOn _).symm, h⟩
  · rintro ⟨ws, hne, rfl, h⟩
    have hws := (List.forall₂_and_left _ _).mp
      (h.imp fun w c h => ⟨underscore_not_mem_of_spells h, h⟩)
    rwa [List.splitOn_intercalate _ hws.1 hne]

theorem latin1?_eq_some_iff {s cs : List Char} :
    latin1? s = some cs ↔ ∃ n ≤ 255, IsNumeral 10 s n ∧ cs = [Char.ofNat n] := by
  simp only [latin1?, Option.map_eq_some_iff, Option.filter_eq_some_iff, decide_eq_true_eq,
    digits?_eq_some_iff (by decide : 10 ≤ 16), Nat.lt_succ_iff (n := 255)]
  constructor
  · rintro ⟨n, ⟨hs, hn⟩, rfl⟩
    exact ⟨n, hn, hs, rfl⟩
  · rintro ⟨n, hn, hs, rfl⟩
    exact ⟨n, ⟨hs, hn⟩, rfl⟩

theorem spelled?_cases {name cs : List Char} (h : spelled? name = some cs) :
    name = cs ∨ (∃ x, name = 'u' :: x ∧ codePoints? x = some cs) ∨
      ∃ y, name = "char".toList ++ y ∧ latin1? y = some cs := by
  unfold spelled? at h
  split at h
  case h_1 c => exact .inl (Option.some.inj h)
  case h_2 =>
    right
    split at h
    case h_1 x hprefix =>
      exact .inl ⟨x, (List.isPrefixOf?_eq_some_iff_append_eq.mp hprefix).symm, h⟩
    case h_2 =>
      obtain ⟨y, hprefix, hy⟩ := Option.bind_eq_some_iff.mp h
      exact .inr ⟨y, (List.isPrefixOf?_eq_some_iff_append_eq.mp hprefix).symm, hy⟩

theorem le_length_of_forall₂_spells {ws : List (List Char)} {cs : List Char} (hne : ws ≠ [])
    (h : List.Forall₂ Spells ws cs) : 4 ≤ (['_'].intercalate ws).length := by
  cases h with
  | nil => exact absurd rfl hne
  | @cons w c ws cs hw _ =>
    have hprefix : w <+: ['_'].intercalate (w :: ws) := by
      cases ws with
      | nil => simp
      | cons v ws =>
        rw [List.intercalate_cons_cons, List.append_assoc]
        exact List.prefix_append _ _
    exact hw.1.trans hprefix.length_le

/-! No name in the table is spelled out. -/

theorem unspelled_of_mem_names : ∀ p ∈ names,
    (p.1.toList.head? = some 'u' → p.1.toList.length < 5) ∧
      p.1.toList.take 4 ≠ "char".toList := by
  decide +kernel

theorem lookup_u_of_length {x : String} (hx : 4 ≤ x.length) : lookup ("u" ++ x) = none := by
  rw [lookup, List.lookup_eq_none_iff]
  intro p hp
  rw [bne_iff_ne]
  intro h
  have hname : p.1.toList = 'u' :: x.toList := by rw [← h, String.toList_append]; rfl
  have hlength := (unspelled_of_mem_names p hp).1 (by rw [hname]; rfl)
  rw [hname, List.length_cons, String.length_toList] at hlength
  omega

theorem lookup_char (y : String) : lookup ("char" ++ y) = none := by
  rw [lookup, List.lookup_eq_none_iff]
  intro p hp
  rw [bne_iff_ne]
  intro h
  apply (unspelled_of_mem_names p hp).2
  rw [← h, String.toList_append]
  rfl

theorem resolve_u {x : String} (hx : x ≠ "") (hl : lookup ("u" ++ x) = none) :
    resolve ("u" ++ x) = (codePoints? x.toList).map String.ofList := by
  have hne : x.toList ≠ [] := fun h => hx (String.toList_eq_nil_iff.mp h)
  obtain ⟨c, r, h⟩ := List.exists_cons_of_ne_nil hne
  rw [resolve, hl, String.toList_append, h]
  rfl

theorem resolve_char (y : String) :
    resolve ("char" ++ y) = (latin1? y.toList).map String.ofList := by
  rw [resolve, lookup_char, String.toList_append]
  rfl

theorem map_ofList_eq_some_iff {o : Option (List Char)} {s : String} :
    o.map String.ofList = some s ↔ o = some s.toList := by
  simp [Option.map_eq_some_iff, ← String.toList_inj]

theorem resolve_of_forall₂_spells {ws : List (List Char)} {cs : List Char} (hne : ws ≠ [])
    (hws : List.Forall₂ Spells ws cs) :
    resolve ("u" ++ .ofList (['_'].intercalate ws)) = some (.ofList cs) := by
  have hlength : 4 ≤ (String.ofList (['_'].intercalate ws)).length := by
    rw [String.length_ofList]
    exact le_length_of_forall₂_spells hne hws
  have hempty : String.ofList (['_'].intercalate ws) ≠ "" := by
    intro h
    simp [h] at hlength
  rw [resolve_u hempty (lookup_u_of_length hlength), map_ofList_eq_some_iff,
    codePoints?_eq_some_iff]
  exact ⟨ws, hne, String.toList_ofList, by rwa [String.toList_ofList]⟩

theorem exists_spells (c : Char) : ∃ w, Spells w c := by
  have hc : c.toNat < 16 ^ 6 := by
    have hvalid : c.toNat.isValidChar := c.valid
    unfold Nat.isValidChar at hvalid
    omega
  refine ⟨(List.range 6).reverse.map fun i => Nat.digitChar (c.toNat / 16 ^ i % 16), ?_, ?_,
    (List.range 6).reverse.map fun i => c.toNat / 16 ^ i % 16, ?_, ?_, ?_⟩
  · simp
  · simp
  · simp
  · rw [List.forall₂_map_left_iff, List.forall₂_map_right_iff, List.forall₂_same]
    intro i _
    exact ⟨Nat.mod_lt _ (by decide), .inl rfl⟩
  · simp only [← List.map_reverse, List.reverse_reverse]
    simp [List.range_succ, Nat.ofDigits_cons]
    omega

theorem exists_resolve_eq_some {s : String} (hs : s ≠ "") : ∃ name, resolve name = some s := by
  choose w hw using exists_spells
  have hne : s.toList.map w ≠ [] := by simpa using hs
  have hws : List.Forall₂ Spells (s.toList.map w) s.toList := by
    rw [List.forall₂_map_left_iff, List.forall₂_same]
    exact fun c _ => hw c
  exact ⟨_, by rw [resolve_of_forall₂_spells hne hws, String.ofList_toList]⟩

/-- The names after `u` and after `char`, both ways: what such a name stands for is what it spells,
and every spelling of a text is a name for it. -/
theorem resolve_spelled :
    (∀ x s : String, x ≠ "" → lookup ("u" ++ x) = none →
      (resolve ("u" ++ x) = some s ↔
        ∃ ws, ws ≠ [] ∧ x.toList = ['_'].intercalate ws ∧ List.Forall₂ Spells ws s.toList)) ∧
    (∀ ws cs, ws ≠ [] → List.Forall₂ Spells ws cs →
      resolve ("u" ++ .ofList (['_'].intercalate ws)) = some (.ofList cs)) ∧
    ∀ y s : String, resolve ("char" ++ y) = some s ↔
      ∃ n ≤ 255, IsNumeral 10 y.toList n ∧ s = .singleton (Char.ofNat n) := by
  refine ⟨fun x s hx hl => ?_, fun _ _ => resolve_of_forall₂_spells, fun y s => ?_⟩
  · rw [resolve_u hx hl, map_ofList_eq_some_iff, codePoints?_eq_some_iff]
  · rw [resolve_char, map_ofList_eq_some_iff, latin1?_eq_some_iff]
    simp only [← String.toList_inj, String.toList_singleton]

theorem resolve_spelled_of_letters_in_either_case :
    let x := "00e9_0301_1F600"
    let s := "é\u0301😀"
    let ws := ["00e9".toList, "0301".toList, "1F600".toList]
    (x ≠ "" ∧ lookup ("u" ++ x) = none ∧
      (resolve ("u" ++ x) = some s ↔
        ∃ ws, ws ≠ [] ∧ x.toList = ['_'].intercalate ws ∧ List.Forall₂ Spells ws s.toList)) ∧
    ws ≠ [] ∧ List.Forall₂ Spells ws s.toList ∧
      resolve ("u" ++ .ofList (['_'].intercalate ws)) = some (.ofList s.toList) := by
  intro x s ws
  have hx : x ≠ "" := by decide
  have hl : lookup ("u" ++ x) = none := lookup_u_of_length (by decide)
  have hws : List.Forall₂ Spells ws s.toList := by
    have hs : s.toList = ['é', '\u0301', '😀'] := by decide
    rw [hs]
    refine .cons ?_ (.cons ?_ (.cons ?_ .nil)) <;> exact codePoint?_eq_some_iff.mp (by decide)
  exact ⟨⟨hx, hl, resolve_spelled.1 x s hx hl⟩, by decide, hws,
    resolve_spelled.2.1 ws s.toList (by decide) hws⟩

end Glyph
end Galley
