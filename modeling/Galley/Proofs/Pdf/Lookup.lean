import Galley.Pdf.Object
/-!
Looking up a key in nested dictionaries. Nothing is found only if no dictionary has the key; a
dictionary goes before those in its values, and of these the first value with the key decides.
-/
namespace Galley.Pdf

/-- Whether a key is among entries, leaving aside what is in their values. -/
def Entries.HasKey (entries : Entries) (key : String) : Prop := ∃ v, (key, v) ∈ entries

/-- The dictionaries of an object: itself, and those in its values or elements to any depth. -/
inductive Object.Reaches : Object → Entries → Prop
  | self (entries : Entries) : Reaches (.dict entries) entries
  | value {entries d : Entries} {k : String} {v : Object} (hv : (k, v) ∈ entries)
      (h : v.Reaches d) : Reaches (.dict entries) d
  | element {es : List Object} {d : Entries} {e : Object} (he : e ∈ es) (h : e.Reaches d) :
      Reaches (.array es) d

def Object.Contains (o : Object) (key : String) : Prop := ∃ d, o.Reaches d ∧ d.HasKey key

variable {key : String}

/-! Where a key can be. -/

theorem contains_dict {entries : Entries} :
    (Object.dict entries).Contains key ↔
      entries.HasKey key ∨ ∃ e ∈ entries, e.2.Contains key := by
  constructor
  · rintro ⟨d, hd, hkey⟩
    cases hd with
    | self => exact .inl hkey
    | value hv h => exact .inr ⟨_, hv, d, h, hkey⟩
  · rintro (hkey | ⟨e, he, d, hd, hkey⟩)
    · exact ⟨entries, .self entries, hkey⟩
    · exact ⟨d, .value he hd, hkey⟩

theorem contains_array {es : List Object} :
    (Object.array es).Contains key ↔ ∃ e ∈ es, e.Contains key := by
  constructor
  · rintro ⟨d, hd, hkey⟩
    cases hd with
    | element he h => exact ⟨_, he, d, h, hkey⟩
  · rintro ⟨e, he, d, hd, hkey⟩
    exact ⟨d, .element he hd, hkey⟩

/-! Looking up as a search through lists. -/

theorem find?_array (es : List Object) :
    (Object.array es).find? key = es.findSome? (Object.find? key) := by
  rw [Object.find?]
  induction es with
  | nil => rfl
  | cons e es ih =>
    rw [findAmong?, List.findSome?_cons, ih]
    cases e.find? key <;> rfl

theorem findIn?_eq (entries : Entries) :
    findIn? key entries = entries.findSome? fun e => e.2.find? key := by
  induction entries with
  | nil => rfl
  | cons e entries ih =>
    rw [findIn?, List.findSome?_cons, ih]
    cases e.2.find? key <;> rfl

theorem find?_dict (entries : Entries) :
    (Object.dict entries).find? key =
      (entries.lookup key).or (entries.findSome? fun e => e.2.find? key) := by
  rw [Object.find?, findIn?_eq]
  cases entries.lookup key <;> rfl

theorem lookup_eq_none_iff {entries : Entries} :
    entries.lookup key = none ↔ ¬ entries.HasKey key := by
  rw [List.lookup_eq_none_iff]
  constructor
  · rintro h ⟨v, hv⟩
    exact absurd rfl (bne_iff_ne.mp (h _ hv))
  · rintro h ⟨k, v⟩ hv
    refine bne_iff_ne.mpr ?_
    rintro rfl
    exact h ⟨v, hv⟩

theorem find?_eq_none_iff (o : Object) : o.find? key = none ↔ ¬ o.Contains key := by
  induction o with
  | array es ih =>
    rw [find?_array, List.findSome?_eq_none_iff, contains_array]
    simpa using forall₂_congr ih
  | dict entries ih =>
    rw [find?_dict, Option.or_eq_none_iff, lookup_eq_none_iff, List.findSome?_eq_none_iff,
      contains_dict, not_or]
    refine and_congr_right fun _ => ?_
    simpa using forall₂_congr ih
  | _ =>
    refine iff_of_true rfl ?_
    rintro ⟨d, hd, -⟩
    cases hd

theorem exists_first {α β : Type} {f : α → Option β} {xs : List α} (h : xs.findSome? f ≠ none) :
    ∃ before x after, xs = before ++ x :: after ∧ (∀ y ∈ before, f y = none) ∧ f x ≠ none ∧
      xs.findSome? f = f x := by
  obtain ⟨b, hb⟩ := Option.ne_none_iff_exists'.mp h
  obtain ⟨before, x, after, hxs, hx, hbefore⟩ := List.findSome?_eq_some_iff.mp hb
  exact ⟨before, x, after, hxs, hbefore, by simp [hx], by rw [hb, hx]⟩

/-- Nothing is found just if no dictionary reached from the entries has the key. If the entries
themselves have it, its first value there is found, and otherwise what is found in the first of
their values that contains it. Likewise the first element that contains it decides for an array. -/
theorem value?_outermost_first (entries : Entries) (key : String) :
    (entries.value? key = none ↔ ∀ d, (Object.dict entries).Reaches d → ¬ d.HasKey key) ∧
    (entries.HasKey key → ∃ before v after, entries = before ++ (key, v) :: after ∧
      ¬ Entries.HasKey before key ∧ entries.value? key = some v) ∧
    (¬ entries.HasKey key → (Object.dict entries).Contains key →
      ∃ before k v after, entries = before ++ (k, v) :: after ∧
        (∀ e ∈ before, ¬ e.2.Contains key) ∧ v.Contains key ∧
        entries.value? key = v.find? key) ∧
    (∀ es : List Object, (Object.array es).Contains key →
      ∃ before e after, es = before ++ e :: after ∧ (∀ x ∈ before, ¬ x.Contains key) ∧
        e.Contains key ∧ (Object.array es).find? key = e.find? key) := by
  have hfound (o : Object) : o.find? key ≠ none ↔ o.Contains key := by
    rw [ne_eq, find?_eq_none_iff, Classical.not_not]
  have hdict : entries.value? key = _ := find?_dict entries
  refine ⟨?_, ?_, ?_, ?_⟩
  · rw [Entries.value?, find?_eq_none_iff]
    simp [Object.Contains]
  · intro hkey
    obtain ⟨v, hv⟩ : ∃ v, entries.lookup key = some v :=
      Option.ne_none_iff_exists'.mp fun h => lookup_eq_none_iff.mp h hkey
    obtain ⟨before, after, hentries, hbefore⟩ := List.lookup_eq_some_iff.mp hv
    refine ⟨before, v, after, hentries, ?_, by rw [hdict, hv, Option.some_or]⟩
    exact lookup_eq_none_iff.mp (List.lookup_eq_none_iff.mpr hbefore)
  · intro hkey hcontains
    rw [lookup_eq_none_iff.mpr hkey, Option.none_or] at hdict
    have hsome : entries.value? key ≠ none := (hfound (.dict entries)).mpr hcontains
    rw [hdict] at hsome
    obtain ⟨before, ⟨k, v⟩, after, hentries, hbefore, hv, hfirst⟩ := exists_first hsome
    exact ⟨before, k, v, after, hentries, fun e he => (find?_eq_none_iff e.2).mp (hbefore e he),
      (hfound v).mp hv, hdict.trans hfirst⟩
  · intro es hcontains
    have hsome := (hfound (.array es)).mpr hcontains
    rw [find?_array] at hsome
    obtain ⟨before, e, after, hes, hbefore, he, hfirst⟩ := exists_first hsome
    exact ⟨before, e, after, hes, fun x hx => (find?_eq_none_iff x).mp (hbefore x hx),
      (hfound e).mp he, (find?_array es).trans hfirst⟩

/-- A key deep in the first value goes before the same key in the dictionary that is the second. -/
theorem value?_outermost_first_within_array :
    let entries : Entries := [("A", .array [.word "x", .dict [("K", .name "deep")]]),
      ("B", .dict [("K", .name "shallow")])]
    ¬ entries.HasKey "K" ∧ (Object.dict entries).Contains "K" ∧
    (∃ before k v after, entries = before ++ (k, v) :: after ∧
      (∀ e ∈ before, ¬ e.2.Contains "K") ∧ v.Contains "K" ∧
      entries.value? "K" = v.find? "K") ∧
    entries.value? "K" = some (.name "deep") := by
  intro entries
  have hkey : ¬ entries.HasKey "K" := by simp [entries, Entries.HasKey]
  have hcontains : (Object.dict entries).Contains "K" :=
    ⟨_, .value (List.mem_cons_of_mem _ List.mem_cons_self) (.self _), _, List.mem_cons_self⟩
  obtain ⟨-, -, hfirst, -⟩ := value?_outermost_first entries "K"
  exact ⟨hkey, hcontains, hfirst hkey hcontains, rfl⟩

end Galley.Pdf
