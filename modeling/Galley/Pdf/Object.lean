/-! The objects of PDF syntax, and looking things up in them. -/
namespace Galley.Pdf

inductive Object where
  | name (s : String)
  | string (s : String)
  | number (n : Float)
  /-- A word that is neither a name nor a number. -/
  | word (s : String)
  | array (elements : List Object)
  /-- Entries in the order of the source; a key may occur again. -/
  | dict (entries : List (String × Object))
  deriving Inhabited

abbrev Entries := List (String × Object)

namespace Object

/-- Induction in which elements and values come before the array or dictionary that they are in. -/
@[induction_eliminator]
theorem induction {motive : Object → Prop}
    (name : ∀ s, motive (.name s))
    (string : ∀ s, motive (.string s))
    (number : ∀ n, motive (.number n))
    (word : ∀ s, motive (.word s))
    (array : ∀ elements, (∀ e ∈ elements, motive e) → motive (.array elements))
    (dict : ∀ entries : Entries, (∀ e ∈ entries, motive e.2) → motive (.dict entries))
    (o : Object) : motive o :=
  match o with
  | .name s => name s
  | .string s => string s
  | .number n => number n
  | .word s => word s
  | .array elements => array elements fun e _ => e.induction name string number word array dict
  | .dict entries => dict entries fun e _ => e.2.induction name string number word array dict
termination_by sizeOf o
decreasing_by
  · have := List.sizeOf_lt_of_mem ‹e ∈ elements›
    simp only [Object.array.sizeOf_spec]
    omega
  · have hmem := List.sizeOf_lt_of_mem ‹e ∈ entries›
    have hsnd : sizeOf e.2 < sizeOf e := by
      cases e
      simp only [Prod.mk.sizeOf_spec]
      omega
    simp only [Object.dict.sizeOf_spec]
    omega

def text? : Object → Option String
  | .name s => some s
  | .string s => some s
  | _ => none

def number? : Object → Option Float
  | .number n => some n
  | _ => none

def numbers? : Object → Option (List Float)
  | .array es => some (es.filterMap number?)
  | _ => none

end Object

mutual

/-- The value of a key in an object or in the dictionaries within it. -/
def Object.find? (key : String) : Object → Option Object
  | .dict entries =>
    match entries.lookup key with
    | some v => some v
    | none => findIn? key entries
  | .array es => findAmong? key es
  | _ => none

def findIn? (key : String) : List (String × Object) → Option Object
  | [] => none
  | (_, v) :: r =>
    match v.find? key with
    | some x => some x
    | none => findIn? key r

def findAmong? (key : String) : List Object → Option Object
  | [] => none
  | v :: r =>
    match v.find? key with
    | some x => some x
    | none => findAmong? key r

end

def Entries.value? (entries : Entries) (key : String) : Option Object :=
  (Object.dict entries).find? key

/-- Pairs objects up as keys and values. What stands where a key should be and is no name is
dropped, and so is a key without a value. -/
def pair : List Object → Entries
  | .name k :: v :: r => (k, v) :: pair r
  | _ :: r => pair r
  | [] => []

end Galley.Pdf
