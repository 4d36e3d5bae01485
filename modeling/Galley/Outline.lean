/-!
Outlines. Bookmarks come as a flat list of entries with levels; an outline nests each of them under
the nearest entry before it whose level is smaller.
-/
namespace Galley.Outline

structure Entry where
  title : String
  target : String
  level : Nat
  deriving DecidableEq

structure Node extends Entry where
  parent : Option Nat
  children : List Nat
  deriving DecidableEq

end Outline

/-- A forest of nodes in document order, which refer to each other by place. -/
structure Outline where
  nodes : Array Outline.Node
  roots : List Nat
  deriving DecidableEq

namespace Outline

def empty : Outline := ⟨#[], []⟩

def parent? (o : Outline) (i : Nat) : Option Nat := o.nodes[i]?.bind (·.parent)

def level (o : Outline) (i : Nat) : Nat := (o.nodes[i]?.map (·.level)).getD 0

/-- Goes up from an ancestor until its level is not deeper. -/
def climb (o : Outline) (level : Nat) : Nat → Option Nat → Option Nat
  | 0, _ => none
  | _, none => none
  | fuel + 1, some a =>
    if o.level a = level then o.parent? a
    else if o.level a < level then some a
    else climb o level fuel (o.parent? a)

def parentOf (o : Outline) (level : Nat) : Option Nat :=
  match o.nodes.size with
  | 0 => none
  | last + 1 =>
    if o.level last < level then some last
    else if o.level last = level then o.parent? last
    else o.climb level (last + 1) (o.parent? last)

def attach (o : Outline) (i : Nat) : Option Nat → Outline
  | none => { o with roots := o.roots ++ [i] }
  | some p => { o with nodes := o.nodes.modify p fun n => { n with children := n.children ++ [i] } }

def add (o : Outline) (e : Entry) : Outline :=
  let parent := o.parentOf e.level
  let i := o.nodes.size
  attach { o with nodes := o.nodes.push ⟨e, parent, []⟩ } i parent

def build (entries : List Entry) : Outline := entries.foldl add empty

theorem size_attach (o : Outline) (i : Nat) (parent : Option Nat) :
    (o.attach i parent).nodes.size = o.nodes.size := by
  cases parent <;> simp [attach]

theorem size_add (o : Outline) (e : Entry) : (o.add e).nodes.size = o.nodes.size + 1 := by
  simp [add, size_attach]

theorem size_build (es : List Entry) : (build es).nodes.size = es.length := by
  have h : ∀ o : Outline, (es.foldl add o).nodes.size = o.nodes.size + es.length := by
    induction es with
    | nil => intro o; rfl
    | cons e es ih => intro o; rw [List.foldl_cons, ih, size_add, List.length_cons]; omega
  simpa [build, empty] using h empty

/-- Visits nodes depth first, given those still to be visited with their depths. -/
def visit (o : Outline) : Nat → List (Nat × Nat) → List (Nat × Node)
  | 0, _ => []
  | _, [] => []
  | fuel + 1, (depth, i) :: stack =>
    match o.nodes[i]? with
    | none => visit o fuel stack
    | some n => (depth, n) :: visit o fuel (n.children.map (depth + 1, ·) ++ stack)

def walk (o : Outline) : List (Nat × Node) := o.visit o.nodes.size (o.roots.map (0, ·))

def display (o : Outline) : String :=
  String.join (o.walk.map fun (depth, n) =>
    String.ofList (List.replicate (2 * depth) ' ') ++ n.title ++ "\n")

end Outline

end Galley
