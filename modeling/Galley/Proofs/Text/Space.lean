import Mathlib.Data.List.DropRight
import Galley.Text.Space
/-! Trimmed texts, and the bytes of a text. -/
namespace Galley.Text

theorem trimEnd_eq (s : List Char) : trimEnd s = s.rdropWhile isSpace := rfl

theorem trimEnd_isPrefixOf (s : List Char) : trimEnd s <+: s := s.rdropWhile_prefix isSpace

theorem trim_isPrefixOf (s : List Char) : trim s <+: trimStart s := trimEnd_isPrefixOf _

theorem trimStart_cons_space {c : Char} (s : List Char) (h : isSpace c = true) :
    trimStart (c :: s) = trimStart s := List.dropWhile_cons_of_pos h

theorem trimStart_cons_of_not_space {c : Char} (s : List Char) (h : isSpace c = false) :
    trimStart (c :: s) = c :: s := List.dropWhile_cons_of_neg (by simp [h])

theorem trimStart_eq_self {s : List Char} (h : ∀ c ∈ s.head?, isSpace c = false) :
    trimStart s = s := by
  cases s with
  | nil => rfl
  | cons c s => exact trimStart_cons_of_not_space s (h c rfl)

theorem head?_trimStart (s : List Char) : ∀ c ∈ (trimStart s).head?, isSpace c = false := by
  intro c hc
  have h := List.head?_dropWhile_not isSpace s
  rw [trimStart, Option.mem_def] at hc
  rw [hc] at h
  exact h

theorem head?_trim (s : List Char) : ∀ c ∈ (trim s).head?, isSpace c = false := by
  intro c hc
  apply head?_trimStart s c
  obtain ⟨r, hr⟩ := trim_isPrefixOf s
  cases ht : trim s with
  | nil => simp [ht] at hc
  | cons x u =>
    rw [ht] at hr hc
    rw [← hr]
    exact hc

theorem trim_trim (s : List Char) : trim (trim s) = trim s := by
  rw [trim, trimStart_eq_self (head?_trim s), trim, trimEnd_eq, trimEnd_eq]
  exact List.rdropWhile_idempotent _ _

theorem trimEnd_eq_self {s : List Char} (h : ∀ c ∈ s, isSpace c = false) : trimEnd s = s := by
  rw [trimEnd_eq, List.rdropWhile_eq_self_iff]
  intro hs
  simp [h _ (List.getLast_mem hs)]

theorem trim_eq_self {s : List Char} (h : ∀ c ∈ s, isSpace c = false) : trim s = s := by
  rw [trim, trimStart_eq_self fun c hc => h c (List.mem_of_mem_head? hc), trimEnd_eq_self h]

theorem trimEnd_append_spaces (s : List Char) {q : List Char} (h : ∀ c ∈ q, isSpace c = true) :
    trimEnd (s ++ q) = trimEnd s := by
  have hq : ∀ c ∈ q.reverse, isSpace c = true := fun c hc => h c (List.mem_reverse.mp hc)
  rw [trimEnd, trimEnd, List.reverse_append, List.dropWhile_append_of_pos hq]

theorem trim_append_spaces (s : List Char) {q : List Char} (h : ∀ c ∈ q, isSpace c = true) :
    trim (s ++ q) = trim s := by
  induction s with
  | nil => rw [trim, List.nil_append, trimStart, List.dropWhile_eq_nil_iff.mpr h]; rfl
  | cons c s ih =>
    cases hc : isSpace c with
    | true =>
      rw [List.cons_append, trim, trimStart_cons_space _ hc, trim, trimStart_cons_space _ hc]
      exact ih
    | false =>
      rw [List.cons_append, trim, trimStart_cons_of_not_space _ hc, trim,
        trimStart_cons_of_not_space _ hc]
      exact trimEnd_append_spaces (c :: s) h

theorem trim_append_space {s : List Char} {c : Char} (hs : ∀ x ∈ s, isSpace x = false)
    (hc : isSpace c = true) : trim (s ++ [c]) = s := by
  rw [trim_append_spaces s (by simpa using hc), trim_eq_self hs]

theorem cut_of_not_mem {a : List Char} {c : Char} (h : c ∉ a) (b : List Char) :
    cut (· == c) (a ++ c :: b) = some (a, b) := by
  refine cut_append ?_ (beq_self_eq_true c)
  intro x hx
  rw [beq_eq_false_iff_ne]
  rintro rfl
  exact h hx

theorem suffix_of_cut {p : Char → Bool} {s a b : List Char} (h : cut p s = some (a, b)) :
    b <:+ s := by
  induction s generalizing a with
  | nil => cases h
  | cons c s ih =>
    rw [cut] at h
    split at h
    · obtain ⟨-, rfl⟩ := Prod.mk.inj (Option.some.inj h)
      exact List.suffix_cons c s
    · obtain ⟨⟨a, d⟩, hcut, heq⟩ := Option.map_eq_some_iff.mp h
      obtain ⟨-, rfl⟩ := Prod.mk.inj heq
      exact (ih hcut).trans (List.suffix_cons c s)

theorem occursIn_iff {w s : List Char} : occursIn w s = true ↔ w <:+: s := by
  induction s with
  | nil => simp [occursIn]
  | cons c s ih =>
    rw [occursIn, Bool.or_eq_true, List.isPrefixOf_iff_prefix, ih, List.infix_cons_iff]

/-- The number of bytes of a text. -/
def width (s : List Char) : Nat := (String.ofList s).utf8ByteSize

@[simp] theorem width_nil : width [] = 0 := rfl

@[simp] theorem width_cons (c : Char) (s : List Char) : width (c :: s) = c.utf8Size + width s := by
  simp [width]

@[simp] theorem width_append (s r : List Char) : width (s ++ r) = width s + width r := by
  simp [width, String.ofList_append]

theorem width_toList (s : String) : width s.toList = s.utf8ByteSize := by
  simp [width]

end Galley.Text
