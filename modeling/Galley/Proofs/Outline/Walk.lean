import Mathlib.Data.List.Sort
import Mathlib.Data.Set.Card
import Mathlib.Order.Interval.Finset.Nat
import Galley.Proofs.Outline.Nesting
/-!
The walk through an outline. Its builder adds every node at the end of the last branch, so going
depth first is the same as going through the document.
-/
namespace Galley.Outline

theorem lt_size_of_parent? {o : Outline} {i p : Nat} (h : o.parent? i = some p) :
    i < o.nodes.size := by
  by_contra hi
  rw [parent?, Array.getElem?_eq_none (Nat.le_of_not_lt hi)] at h
  exact absurd h (by simp)

/-- Parents come before their children, and the lists of children and of roots say in order what
the parents say. -/
structure Forest (o : Outline) : Prop where
  parent_lt : ∀ p c, o.parent? c = some p → p < c
  mem_children : ∀ p c, c ∈ o.childrenOf (some p) ↔ o.parent? c = some p
  mem_roots : ∀ c, c ∈ o.roots ↔ c < o.nodes.size ∧ o.parent? c = none
  children_sorted : ∀ p, (o.childrenOf (some p)).Pairwise (· < ·)
  roots_sorted : o.roots.Pairwise (· < ·)

theorem Nested.mem_childrenOf {o : Outline} (h : Nested o) (q : Option Nat) (c : Nat) :
    c ∈ o.childrenOf q ↔ c < o.nodes.size ∧ o.parent? c = q := by
  simp [h.children q]

theorem Nested.sorted {o : Outline} (h : Nested o) (q : Option Nat) :
    (o.childrenOf q).Pairwise (· < ·) := by
  rw [h.children q]
  exact List.pairwise_lt_range.filter _

theorem Nested.forest {o : Outline} (h : Nested o) : Forest o where
  parent_lt := fun _ _ hp => h.parent_lt (lt_size_of_parent? hp) hp
  mem_children := by
    intro p c
    rw [h.mem_childrenOf]
    exact ⟨fun hc => hc.2, fun hp => ⟨lt_size_of_parent? hp, hp⟩⟩
  mem_roots := h.mem_childrenOf none
  children_sorted := fun p => h.sorted (some p)
  roots_sorted := h.sorted none

/-! Ancestors. -/

def ancestors (o : Outline) (i : Nat) : Set Nat :=
  {a | Relation.TransGen (fun p c => o.parent? c = some p) a i}

noncomputable def depth (o : Outline) (i : Nat) : Nat := (o.ancestors i).ncard

theorem ancestors_of_root {o : Outline} {i : Nat} (h : o.parent? i = none) :
    o.ancestors i = ∅ := by
  ext a
  simp [ancestors, Relation.TransGen.tail'_iff, h]

theorem ancestors_of_parent {o : Outline} {i p : Nat} (h : o.parent? i = some p) :
    o.ancestors i = insert p (o.ancestors p) := by
  ext a
  simp only [ancestors, Set.mem_ofPred_eq, Set.mem_insert_iff]
  rw [Relation.TransGen.tail'_iff]
  simp only [h, Option.some.injEq, exists_eq_right']
  rw [Relation.reflTransGen_iff_eq_or_transGen, eq_comm]

theorem Forest.lt_of_mem_ancestors {o : Outline} (h : Forest o) {a i : Nat}
    (ha : a ∈ o.ancestors i) : a < i := by
  induction ha with
  | single hp => exact h.parent_lt _ _ hp
  | tail _ hp ih => exact Nat.lt_trans ih (h.parent_lt _ _ hp)

theorem depth_of_root {o : Outline} {i : Nat} (h : o.parent? i = none) : o.depth i = 0 := by
  rw [depth, ancestors_of_root h, Set.ncard_empty]

theorem Forest.depth_of_parent {o : Outline} (h : Forest o) {i p : Nat}
    (hp : o.parent? i = some p) : o.depth i = o.depth p + 1 := by
  have hnot : p ∉ o.ancestors p := fun hm => Nat.lt_irrefl p (h.lt_of_mem_ancestors hm)
  have hfinite : (o.ancestors p).Finite :=
    (Set.finite_lt_nat p).subset fun _ ha => h.lt_of_mem_ancestors ha
  rw [depth, ancestors_of_parent hp, Set.ncard_insert_of_notMem hnot hfinite]
  rfl

/-! The stack. -/

/-- What comes out of a stack of nodes with their depths when its top is taken off and replaced by
the children until nothing is left. -/
inductive Walks (o : Outline) : List (Nat × Nat) → List (Nat × Node) → Prop where
  | done : Walks o [] []
  | next {depth i : Nat} {stack : List (Nat × Nat)} {n : Node} {out : List (Nat × Node)} :
    o.nodes[i]? = some n → Walks o (n.children.map (depth + 1, ·) ++ stack) out →
    Walks o ((depth, i) :: stack) ((depth, n) :: out)

theorem Walks.visit_eq {o : Outline} {stack : List (Nat × Nat)} {out : List (Nat × Node)}
    (h : Walks o stack out) (fuel : Nat) (hfuel : out.length ≤ fuel) :
    o.visit fuel stack = out := by
  induction h generalizing fuel with
  | done => cases fuel <;> rfl
  | next hn _ ih =>
    cases fuel with
    | zero => exact absurd hfuel (by simp)
    | succ fuel =>
      have hrest := ih fuel (Nat.le_of_succ_le_succ hfuel)
      simp only [visit, hn, hrest]

/-- The nodes on the stack when the next one to come out is at a given place: those from there on
whose parents came out before. -/
def waiting (o : Outline) (k : Nat) : List Nat :=
  (List.range o.nodes.size).filter fun i => k ≤ i ∧ ∀ p ∈ o.parent? i, p < k

def waitingBelow (o : Outline) (k : Nat) : List Nat :=
  (List.range o.nodes.size).filter fun i => k < i ∧ ∀ p ∈ o.parent? i, p < k

theorem mem_waiting {o : Outline} {k i : Nat} :
    i ∈ o.waiting k ↔ i < o.nodes.size ∧ k ≤ i ∧ ∀ p ∈ o.parent? i, p < k := by
  simp [waiting]

theorem mem_waitingBelow {o : Outline} {k i : Nat} :
    i ∈ o.waitingBelow k ↔ i < o.nodes.size ∧ k < i ∧ ∀ p ∈ o.parent? i, p < k := by
  simp [waitingBelow]

theorem waiting_sorted (o : Outline) (k : Nat) : (o.waiting k).Pairwise (· < ·) :=
  List.pairwise_lt_range.filter _

theorem waitingBelow_sorted (o : Outline) (k : Nat) : (o.waitingBelow k).Pairwise (· < ·) :=
  List.pairwise_lt_range.filter _

theorem Nested.waiting_zero {o : Outline} (h : Nested o) : o.waiting 0 = o.roots := by
  refine (waiting_sorted o 0).eq_of_mem_iff (h.sorted none) ?_
  intro i
  rw [mem_waiting, h.forest.mem_roots]
  cases o.parent? i <;> simp

theorem waiting_size (o : Outline) : o.waiting o.nodes.size = [] := by
  apply List.eq_nil_iff_forall_not_mem.mpr
  intro i hi
  rw [mem_waiting] at hi
  omega

theorem Forest.waiting_eq_cons {o : Outline} (h : Forest o) {k : Nat} (hk : k < o.nodes.size) :
    o.waiting k = k :: o.waitingBelow k := by
  have hsorted : (k :: o.waitingBelow k).Pairwise (· < ·) := by
    refine List.pairwise_cons.mpr ⟨?_, waitingBelow_sorted o k⟩
    intro i hi
    exact (mem_waitingBelow.mp hi).2.1
  refine (waiting_sorted o k).eq_of_mem_iff hsorted ?_
  intro i
  rw [List.mem_cons, mem_waiting, mem_waitingBelow]
  have hparent : ∀ p ∈ o.parent? k, p < k := fun p hp => h.parent_lt p k hp
  obtain rfl | hne := eq_or_ne i k
  · simpa [hk] using hparent
  · have : k ≤ i ↔ k < i := by omega
    simp [hne, this]

theorem Nested.child_lt_waiting {o : Outline} (h : Nested o) {k i j : Nat}
    (hi : o.parent? i = some k) (hj : j ∈ o.waitingBelow k) : i < j := by
  obtain ⟨hjs, hkj, hup⟩ := mem_waitingBelow.mp hj
  have hne : j ≠ i := by
    rintro rfl
    exact Nat.lt_irrefl k (hup k hi)
  by_contra hij
  have hnear := h.nearest i (lt_size_of_parent? hi)
  rw [hi] at hnear
  -- Standing between `k` and its child, `j` is as deep as the child; and `k`, which stands between
  -- `j` and the parent of `j`, is as deep as `j`. But the child is deeper than `k`.
  obtain ⟨-, hki, hbetween⟩ := hnear
  have hij' : o.level i ≤ o.level j := hbetween j (by omega) hkj
  have hjk : o.level j ≤ o.level k := (h.nearest j hjs).le_level hkj hup
  omega

theorem Nested.waiting_succ {o : Outline} (h : Nested o) (k : Nat) :
    o.waiting (k + 1) = o.childrenOf (some k) ++ o.waitingBelow k := by
  have hsorted : (o.childrenOf (some k) ++ o.waitingBelow k).Pairwise (· < ·) := by
    refine List.pairwise_append.mpr ⟨h.sorted (some k), waitingBelow_sorted o k, ?_⟩
    intro i hi j hj
    exact h.child_lt_waiting ((h.forest.mem_children k i).mp hi) hj
  refine (waiting_sorted o (k + 1)).eq_of_mem_iff hsorted ?_
  intro i
  rw [List.mem_append, h.mem_childrenOf, mem_waiting, mem_waitingBelow]
  cases hp : o.parent? i with
  | none => simp
  | some p =>
    have hlt : p < i := h.forest.parent_lt p i hp
    simp only [Option.mem_def, Option.some.injEq, forall_eq']
    omega

noncomputable def placed (o : Outline) : List (Nat × Node) :=
  o.nodes.toList.mapIdx fun i n => (o.depth i, n)

theorem length_placed (o : Outline) : o.placed.length = o.nodes.size := by
  simp [placed]

theorem Nested.walks_waiting {o : Outline} (h : Nested o) (m k : Nat)
    (hk : k + m = o.nodes.size) :
    Walks o ((o.waiting k).map fun i => (o.depth i, i)) (o.placed.drop k) := by
  -- By induction on the number of nodes still to come: the top of the stack is the node at `k`,
  -- and putting its children on what is below leaves the stack for `k + 1`.
  induction m generalizing k with
  | zero =>
    obtain rfl : k = o.nodes.size := hk
    rw [waiting_size, ← length_placed, List.drop_length]
    exact .done
  | succ m ih =>
    have hks : k < o.nodes.size := by omega
    have hkp : k < o.placed.length := by rwa [length_placed]
    have hnode : o.nodes[k]? = some o.nodes[k] := Array.getElem?_eq_getElem hks
    have hchildren : o.childrenOf (some k) = o.nodes[k].children := by
      rw [childrenOf, hnode]
      rfl
    have hout : o.placed[k] = (o.depth k, o.nodes[k]) := by
      simp [placed]
    rw [h.forest.waiting_eq_cons hks, List.drop_eq_getElem_cons hkp, hout]
    refine .next hnode ?_
    have hstack : o.nodes[k].children.map (o.depth k + 1, ·) =
        (o.childrenOf (some k)).map fun i => (o.depth i, i) := by
      rw [hchildren]
      apply List.map_congr_left
      intro i hi
      rw [← hchildren, h.forest.mem_children] at hi
      rw [h.forest.depth_of_parent hi]
    rw [hstack, ← List.map_append, ← h.waiting_succ]
    exact ih (k + 1) (by omega)

theorem Nested.walks_placed {o : Outline} (h : Nested o) :
    Walks o (o.roots.map (0, ·)) o.placed := by
  have hrun := h.walks_waiting o.nodes.size 0 (Nat.zero_add _)
  have hroots : (o.waiting 0).map (fun i => (o.depth i, i)) = o.roots.map (0, ·) := by
    rw [h.waiting_zero]
    apply List.map_congr_left
    intro i hi
    rw [depth_of_root ((h.forest.mem_roots i).mp hi).2]
  rwa [hroots, List.drop_zero] at hrun

theorem Nested.walk_eq_placed {o : Outline} (h : Nested o) : o.walk = o.placed :=
  h.walks_placed.visit_eq o.nodes.size (Nat.le_of_eq (length_placed o))

/-- An outline is a forest whose nodes are numbered in the order of the document. Walking through
it empties the stack and gives every node once, in this order, with the number of its ancestors. -/
theorem walk_build_in_order (es : List Entry) :
    Forest (build es) ∧
    Walks (build es) ((build es).roots.map (0, ·)) (build es).walk ∧
    (build es).walk.length = es.length ∧
    ∀ i (hi : i < (build es).nodes.size),
      (build es).walk[i]? = some (((build es).ancestors i).ncard, (build es).nodes[i]) := by
  have h := nested_build es
  rw [h.walk_eq_placed]
  refine ⟨h.forest, h.walks_placed, ?_, ?_⟩
  · rw [length_placed, size_build]
  · intro i hi
    simp [placed, hi, depth]

end Galley.Outline
