import Galley.Outline
/-!
The shape of an outline. Its builder only climbs from the node before, yet every entry ends up
under the last entry before it whose level is smaller.
-/
namespace Galley.Outline

/-- The places of the nodes under a node, or of the roots. -/
def childrenOf (o : Outline) : Option Nat → List Nat
  | none => o.roots
  | some p => (o.nodes[p]?.map (·.children)).getD []

/-- The last place before `i` whose level is below a bound, or no place if there is none. -/
def Nearest (level : Nat → Nat) (i bound : Nat) : Option Nat → Prop
  | none => ∀ k < i, bound ≤ level k
  | some j => j < i ∧ level j < bound ∧ ∀ k < i, j < k → bound ≤ level k

theorem Nearest.lt {level : Nat → Nat} {i bound j : Nat} (h : Nearest level i bound (some j)) :
    j < i := h.1

theorem Nearest.le_level {level : Nat → Nat} {i bound k : Nat} {a : Option Nat}
    (h : Nearest level i bound a) (hk : k < i) (ha : ∀ p ∈ a, p < k) : bound ≤ level k := by
  cases a with
  | none => exact h k hk
  | some j => exact h.2.2 k hk (ha j rfl)

theorem Nearest.extend {level : Nat → Nat} {i n bound : Nat} {a : Option Nat}
    (h : Nearest level i bound a) (hin : i ≤ n) (hle : ∀ k < n, i ≤ k → bound ≤ level k) :
    Nearest level n bound a := by
  cases a with
  | none =>
    intro k hk
    by_cases hki : k < i
    · exact h k hki
    · exact hle k hk (by omega)
  | some j =>
    obtain ⟨hj, hlt, hge⟩ := h
    refine ⟨by omega, hlt, ?_⟩
    intro k hk hjk
    by_cases hki : k < i
    · exact hge k hki hjk
    · exact hle k hk (by omega)

theorem Nearest.congr {level level' : Nat → Nat} {i bound : Nat} {a : Option Nat}
    (h : Nearest level i bound a) (he : ∀ k < i, level' k = level k) :
    Nearest level' i bound a := by
  cases a with
  | none =>
    intro k hk
    rw [he k hk]
    exact h k hk
  | some j =>
    obtain ⟨hj, hlt, hge⟩ := h
    refine ⟨hj, by rwa [he j hj], ?_⟩
    intro k hk hjk
    rw [he k hk]
    exact hge k hk hjk

/-- Every node is under the nearest shallower node before it, and the lists of children say the
same as the parents. -/
structure Nested (o : Outline) : Prop where
  nearest : ∀ i < o.nodes.size, Nearest o.level i (o.level i) (o.parent? i)
  children : ∀ q, o.childrenOf q = (List.range o.nodes.size).filter (o.parent? · = q)

theorem nested_empty : Nested empty where
  nearest := by
    intro i hi
    exact absurd hi (Nat.not_lt_zero i)
  children := by
    intro q
    cases q <;> rfl

theorem Nested.parent_lt {o : Outline} (h : Nested o) {i p : Nat} (hi : i < o.nodes.size)
    (hp : o.parent? i = some p) : p < i := by
  have hn := h.nearest i hi
  rw [hp] at hn
  exact hn.lt

/-! The climb. -/

/-- If all nodes after an ancestor are at least as deep as a level, climbing from that ancestor
finds the nearest node above the level. The fuel is enough as parents come before children. -/
theorem Nested.climb {o : Outline} (h : Nested o) (bound fuel : Nat) (a : Option Nat)
    (hfuel : ∀ p ∈ a, p < fuel) (hsize : ∀ p ∈ a, p < o.nodes.size)
    (hdeep : ∀ k < o.nodes.size, (∀ p ∈ a, p < k) → bound ≤ o.level k) :
    Nearest o.level o.nodes.size bound (o.climb bound fuel a) := by
  induction fuel generalizing a with
  | zero =>
    cases a with
    | none => exact fun k hk => hdeep k hk (by simp)
    | some p => exact absurd (hfuel p rfl) (Nat.not_lt_zero p)
  | succ fuel ih =>
    cases a with
    | none => exact fun k hk => hdeep k hk (by simp)
    | some p =>
      have hp : p < o.nodes.size := hsize p rfl
      have hafter : ∀ k < o.nodes.size, p < k → bound ≤ o.level k := by
        intro k hk hpk
        exact hdeep k hk (by simpa using hpk)
      have hn := h.nearest p hp
      simp only [Outline.climb]
      split
      case isTrue heq =>
        rw [heq] at hn
        refine hn.extend (Nat.le_of_lt hp) ?_
        intro k hk hpk
        obtain rfl | hlt := Nat.eq_or_lt_of_le hpk
        · exact Nat.le_of_eq heq.symm
        · exact hafter k hk hlt
      case isFalse hne =>
        split
        case isTrue hlt => exact ⟨hp, hlt, hafter⟩
        case isFalse hge =>
          have hup : ∀ q ∈ o.parent? p, q < p := fun q hq => h.parent_lt hp hq
          -- The climb goes on from the parent, whose later nodes are all as deep: those up to
          -- here are as deep as the node just left, which is as deep as the bound.
          apply ih
          · intro q hq
            exact Nat.lt_of_lt_of_le (hup q hq) (Nat.lt_succ_iff.mp (hfuel p rfl))
          · intro q hq
            exact Nat.lt_trans (hup q hq) hp
          · intro k hk hqk
            obtain hkp | rfl | hpk := Nat.lt_trichotomy k p
            · have := hn.le_level hkp hqk
              omega
            · omega
            · exact hafter k hk hpk

/-- The three rules for a new entry are one climb that begins at the last node. -/
theorem parentOf_eq_climb (o : Outline) (bound last : Nat) (h : o.nodes.size = last + 1) :
    o.parentOf bound = o.climb bound (last + 2) (some last) := by
  simp only [parentOf, h, Outline.climb]
  by_cases heq : o.level last = bound
  · have hlt : ¬ o.level last < bound := by omega
    rw [if_neg hlt, if_pos heq, if_pos heq]
  · rw [if_neg heq, if_neg heq]

theorem Nested.parentOf {o : Outline} (h : Nested o) (bound : Nat) :
    Nearest o.level o.nodes.size bound (o.parentOf bound) := by
  cases hs : o.nodes.size with
  | zero => simp [Outline.parentOf, hs, Nearest]
  | succ last =>
    rw [parentOf_eq_climb o bound last hs, ← hs]
    refine h.climb bound (last + 2) (some last) ?_ ?_ ?_
    · simp
    · simp [hs]
    · intro k hk hlast
      have := hlast last rfl
      omega

/-! What a new entry does to the nodes. -/

theorem parent?_attach (o : Outline) (i : Nat) (q : Option Nat) (k : Nat) :
    (o.attach i q).parent? k = o.parent? k := by
  cases q with
  | none => rfl
  | some p =>
    simp only [attach, parent?, Array.getElem?_modify]
    split
    · cases o.nodes[k]? <;> rfl
    · rfl

theorem level_attach (o : Outline) (i : Nat) (q : Option Nat) (k : Nat) :
    (o.attach i q).level k = o.level k := by
  cases q with
  | none => rfl
  | some p =>
    simp only [attach, level, Array.getElem?_modify]
    split
    · cases o.nodes[k]? <;> rfl
    · rfl

theorem entries_attach (o : Outline) (i : Nat) (q : Option Nat) :
    (o.attach i q).nodes.toList.map Node.toEntry = o.nodes.toList.map Node.toEntry := by
  cases q with
  | none => rfl
  | some p =>
    apply List.ext_getElem?
    intro k
    simp only [attach, Array.toList_modify, List.getElem?_map, List.getElem?_modify]
    split
    · cases o.nodes.toList[k]? <;> rfl
    · cases o.nodes.toList[k]? <;> rfl

theorem childrenOf_attach (o : Outline) (i : Nat) (q r : Option Nat)
    (hq : ∀ p ∈ q, p < o.nodes.size) :
    (o.attach i q).childrenOf r = o.childrenOf r ++ if q = r then [i] else [] := by
  cases q with
  | none => cases r <;> simp [attach, childrenOf]
  | some p =>
    have hp : p < o.nodes.size := hq p rfl
    cases r with
    | none => simp [attach, childrenOf]
    | some r =>
      simp only [attach, childrenOf, Array.getElem?_modify, Option.some.injEq]
      by_cases hpr : p = r
      · subst hpr
        simp [hp]
      · simp [hpr]

theorem parent?_add (o : Outline) (e : Entry) (k : Nat) :
    (o.add e).parent? k = if k = o.nodes.size then o.parentOf e.level else o.parent? k := by
  rw [add, parent?_attach, parent?, Array.getElem?_push]
  split <;> rfl

theorem level_add (o : Outline) (e : Entry) (k : Nat) :
    (o.add e).level k = if k = o.nodes.size then e.level else o.level k := by
  rw [add, level_attach, level, Array.getElem?_push]
  split <;> rfl

theorem entries_add (o : Outline) (e : Entry) :
    (o.add e).nodes.toList.map Node.toEntry = o.nodes.toList.map Node.toEntry ++ [e] := by
  simp [add, entries_attach]

theorem childrenOf_push (o : Outline) (e : Entry) (q r : Option Nat) :
    childrenOf { o with nodes := o.nodes.push ⟨e, q, []⟩ } r = o.childrenOf r := by
  cases r with
  | none => rfl
  | some r =>
    simp only [childrenOf, Array.getElem?_push]
    split
    case isTrue h => simp [h]
    case isFalse h => rfl

theorem childrenOf_add (o : Outline) (e : Entry) (r : Option Nat)
    (h : ∀ p ∈ o.parentOf e.level, p < o.nodes.size) :
    (o.add e).childrenOf r =
      o.childrenOf r ++ if o.parentOf e.level = r then [o.nodes.size] else [] := by
  have hlt : ∀ p ∈ o.parentOf e.level, p < (o.nodes.push ⟨e, o.parentOf e.level, []⟩).size := by
    intro p hp
    rw [Array.size_push]
    exact Nat.lt_succ_of_lt (h p hp)
  rw [add, childrenOf_attach _ _ _ _ hlt, childrenOf_push]

theorem Nested.add {o : Outline} (h : Nested o) (e : Entry) : Nested (o.add e) where
  nearest := by
    intro i hi
    rw [size_add] at hi
    rw [level_add, parent?_add]
    by_cases hlast : i = o.nodes.size
    · subst hlast
      rw [if_pos rfl, if_pos rfl]
      refine (h.parentOf e.level).congr ?_
      intro k hk
      rw [level_add, if_neg (Nat.ne_of_lt hk)]
    · rw [if_neg hlast, if_neg hlast]
      refine (h.nearest i (by omega)).congr ?_
      intro k hk
      rw [level_add, if_neg (by omega)]
  children := by
    intro q
    have hlt : ∀ p ∈ o.parentOf e.level, p < o.nodes.size := by
      intro p hp
      have hn := h.parentOf e.level
      rw [hp] at hn
      exact hn.lt
    have hold : (List.range o.nodes.size).filter ((o.add e).parent? · = q) =
        (List.range o.nodes.size).filter (o.parent? · = q) := by
      apply List.filter_congr
      intro k hk
      rw [parent?_add, if_neg (Nat.ne_of_lt (List.mem_range.mp hk))]
    rw [childrenOf_add o e q hlt, h.children q, size_add, List.range_succ, List.filter_append, hold]
    simp [List.filter_cons, parent?_add]

theorem nested_build (es : List Entry) : Nested (build es) := by
  have hrun : ∀ o, Nested o → Nested (es.foldl Outline.add o) := by
    induction es with
    | nil => exact fun o h => h
    | cons e es ih => exact fun o h => ih (o.add e) (h.add e)
  exact hrun empty nested_empty

theorem entries_build (es : List Entry) : (build es).nodes.toList.map Node.toEntry = es := by
  have hrun : ∀ o : Outline, (es.foldl Outline.add o).nodes.toList.map Node.toEntry =
      o.nodes.toList.map Node.toEntry ++ es := by
    induction es with
    | nil => simp
    | cons e es ih =>
      intro o
      rw [List.foldl_cons, ih, entries_add, List.append_assoc]
      rfl
  simpa [build, empty] using hrun empty

/-- A shallower sibling would be the parent of the next, so levels never grow along siblings. -/
theorem Nested.levels_antitone {o : Outline} (h : Nested o) (q : Option Nat) :
    ((o.childrenOf q).map o.level).Pairwise (· ≥ ·) := by
  rw [h.children, List.pairwise_map]
  have hsorted : ((List.range o.nodes.size).filter (o.parent? · = q)).Pairwise (· < ·) :=
    List.pairwise_lt_range.filter _
  refine hsorted.imp_of_mem ?_
  intro i j hi hj hij
  simp only [List.mem_filter, List.mem_range, decide_eq_true_eq] at hi hj
  have hn := h.nearest j hj.1
  rw [hj.2] at hn
  refine hn.le_level hij ?_
  intro p hp
  exact h.parent_lt hi.1 (hi.2.trans hp)

def levelAt (es : List Entry) (k : Nat) : Nat := (es[k]?.map (·.level)).getD 0

theorem getElem?_build (es : List Entry) (k : Nat) :
    (build es).nodes[k]?.map Node.toEntry = es[k]? := by
  have he : ((build es).nodes.toList.map Node.toEntry)[k]? = es[k]? := by rw [entries_build]
  simpa using he

theorem level_build (es : List Entry) : (build es).level = levelAt es := by
  funext k
  rw [levelAt, ← getElem?_build, Option.map_map]
  rfl

/-- The outline of a list of entries has one node for each entry, in order. The parent of a node
is the last entry before it with a smaller level. So levels grow from a parent to a child, and
never along siblings or roots. -/
theorem build_nests_under_nearest (es : List Entry) :
    (build es).nodes.size = es.length ∧
    (∀ i (hi : i < es.length), ∃ n, (build es).nodes[i]? = some n ∧ n.toEntry = es[i] ∧
      Nearest (levelAt es) i es[i].level n.parent ∧
      (∀ p ∈ n.parent, levelAt es p < es[i].level) ∧
      (n.children.map (levelAt es)).Pairwise (· ≥ ·)) ∧
    ((build es).roots.map (levelAt es)).Pairwise (· ≥ ·) := by
  have hnested := nested_build es
  have hsiblings := hnested.levels_antitone
  rw [level_build] at hsiblings
  refine ⟨size_build es, ?_, hsiblings none⟩
  intro i hi
  have hsize : i < (build es).nodes.size := by rwa [size_build]
  have hget : (build es).nodes[i]? = some (build es).nodes[i] := Array.getElem?_eq_getElem hsize
  have hentry : (build es).nodes[i].toEntry = es[i] := by
    have h := getElem?_build es i
    rw [hget, List.getElem?_eq_getElem hi] at h
    exact Option.some.inj h
  have hlevel : levelAt es i = es[i].level := by
    rw [levelAt, List.getElem?_eq_getElem hi]
    rfl
  have hnear := hnested.nearest i hsize
  rw [level_build, hlevel, parent?, hget, Option.bind_some] at hnear
  have hchildren := hsiblings (some i)
  rw [childrenOf, hget] at hchildren
  refine ⟨_, hget, hentry, hnear, ?_, hchildren⟩
  intro p hp
  rw [Option.mem_def.mp hp] at hnear
  exact hnear.2.1

end Galley.Outline
