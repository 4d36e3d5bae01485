import Galley.Proofs.Pdf.Parsing
/-!
Reading objects at places of a list of lexemes. A loop over objects is moved on by what is read in
it, which may be no object at all, and still every array, every dictionary and the whole list is
read to its end, whatever brackets are missing or stray.
-/
namespace Galley.Pdf

def Lexeme.object? : Lexeme → Option Object
  | .name s => some (.name s)
  | .string s => some (.string s)
  | .number x => some (.number x)
  | .word s => some (.word s)
  | _ => none

def Lexeme.opens? : Lexeme → Option Bracket
  | .arrayOpen => some .array
  | .dictOpen => some .dict
  | _ => none

def Bracket.enclose : Bracket → List Object → Object
  | .array, os => .array os
  | .dict, os => .dict (pair os)

/-! A run that did not end would have no result in these relations. -/

mutual

/-- One object is read at a place, or none, and reading is left at another place. -/
inductive Reads (ls : List Lexeme) : Nat → Option Object → Nat → Prop
  | past {i : Nat} (h : ls.length ≤ i) : Reads ls i none i
  | plain {i : Nat} {x : Lexeme} {o : Object} (h : ls[i]? = some x) (ho : x.object? = some o) :
      Reads ls i (some o) (i + 1)
  | opening {i j : Nat} {x : Lexeme} {b : Bracket} {os : List Object} (h : ls[i]? = some x)
      (hb : x.opens? = some b) (hos : ReadsTo ls (some b) (i + 1) os j) :
      Reads ls i (some (b.enclose os)) j
  | closing {i : Nat} {x : Lexeme} {b : Bracket} (h : ls[i]? = some x) (hb : x.closes? = some b) :
      Reads ls i none (i + 1)

/-- Objects are read one after another, up to a closing bracket of a kind if one is given, and to
the end of the lexemes if that comes first. -/
inductive ReadsTo (ls : List Lexeme) : Option Bracket → Nat → List Object → Nat → Prop
  | finish {b? : Option Bracket} {i : Nat} (h : ls.length ≤ i) : ReadsTo ls b? i [] i
  | close {b : Bracket} {i : Nat} (h : ls[i]? = some b.close) : ReadsTo ls (some b) i [] (i + 1)
  | next {b? : Option Bracket} {i j k : Nat} {o : Option Object} {os : List Object}
      (h : i < ls.length) (hb : ∀ b ∈ b?, ls[i]? ≠ some b.close) (ho : Reads ls i o j)
      (hos : ReadsTo ls b? j os k) : ReadsTo ls b? i (o.toList ++ os) k

end

variable {ls : List Lexeme}

/-! Reading moves forward. -/

mutual

theorem Reads.forward {i j : Nat} {o : Option Object} :
    Reads ls i o j → i < ls.length → i < j ∧ j ≤ ls.length
  | .past h, hi => absurd hi (Nat.not_lt.mpr h)
  | .plain _ _, hi => ⟨Nat.lt_succ_self i, hi⟩
  | .opening _ _ hos, hi => hos.forward hi
  | .closing _ _, hi => ⟨Nat.lt_succ_self i, hi⟩

theorem ReadsTo.forward {b? : Option Bracket} {i j : Nat} {os : List Object} :
    ReadsTo ls b? i os j → i ≤ ls.length → i ≤ j ∧ j ≤ ls.length
  | .finish _, hi => ⟨Nat.le_refl i, hi⟩
  | .close h, _ => ⟨Nat.le_succ i, (List.getElem?_eq_some_iff.mp h).1⟩
  | .next h _ ho hos, _ => by
    have hfirst := ho.forward h
    have hrest := hos.forward hfirst.2
    omega

end

theorem ReadsTo.stops {b? : Option Bracket} {i j : Nat} {os : List Object} :
    ReadsTo ls b? i os j → i ≤ ls.length →
      j = ls.length ∨ ∃ b ∈ b?, ∃ k, i ≤ k ∧ ls[k]? = some b.close ∧ j = k + 1
  | .finish h, hi => .inl (Nat.le_antisymm hi h)
  | .close h, _ => .inr ⟨_, rfl, i, Nat.le_refl i, h, rfl⟩
  | .next h _ ho hos, _ => by
    have hfirst := ho.forward h
    obtain hend | ⟨b, hb, k, hk, hclose, hj⟩ := hos.stops hfirst.2
    · exact .inl hend
    · exact .inr ⟨b, hb, k, by omega, hclose, hj⟩

/-! Reading ends. -/

/-- A loop ends if each reading in it does, since it never comes back to a place. -/
theorem exists_readsTo (b? : Option Bracket) {i : Nat}
    (hone : ∀ k, i ≤ k → ∃ o j, Reads ls k o j) : ∃ os j, ReadsTo ls b? i os j := by
  by_cases hend : ls.length ≤ i
  · exact ⟨[], i, .finish hend⟩
  have hlt : i < ls.length := Nat.not_le.mp hend
  by_cases hclose : ∃ b ∈ b?, ls[i]? = some b.close
  · obtain ⟨b, rfl, hb⟩ := hclose
    exact ⟨[], i + 1, .close hb⟩
  obtain ⟨o, j, ho⟩ := hone i (Nat.le_refl i)
  have hij := (ho.forward hlt).1
  obtain ⟨os, k, hos⟩ := exists_readsTo b? fun k (hk : j ≤ k) => hone k (by omega)
  exact ⟨_, k, .next hlt (fun b hb h => hclose ⟨b, hb, h⟩) ho hos⟩
termination_by ls.length - i

theorem Lexeme.object?_isSome {x : Lexeme} (ho : x.opens? = none) (hc : x.closes? = none) :
    ∃ o, x.object? = some o := by
  cases x with
  | arrayOpen | dictOpen => cases ho
  | arrayClose | dictClose => cases hc
  | _ => exact ⟨_, rfl⟩

theorem exists_reads (ls : List Lexeme) (i : Nat) : ∃ o j, Reads ls i o j := by
  by_cases hend : ls.length ≤ i
  · exact ⟨none, i, .past hend⟩
  have hlt : i < ls.length := Nat.not_le.mp hend
  have hx : ls[i]? = some ls[i] := List.getElem?_eq_getElem hlt
  cases hopens : ls[i].opens? with
  | some b =>
    -- What is in the brackets begins behind the opening one.
    obtain ⟨os, j, hos⟩ := exists_readsTo (some b) fun k (hk : i + 1 ≤ k) => exists_reads ls k
    exact ⟨_, j, .opening hx hopens hos⟩
  | none =>
    cases hcloses : ls[i].closes? with
    | some b => exact ⟨none, i + 1, .closing hx hcloses⟩
    | none =>
      obtain ⟨o, ho⟩ := Lexeme.object?_isSome hopens hcloses
      exact ⟨some o, i + 1, .plain hx ho⟩
termination_by ls.length - i

/-! What is read from a place on is what the lexemes from there on are parsed as. -/

theorem parseFrom_of_object? {x : Lexeme} {o : Object} (h : x.object? = some o)
    (r : List Lexeme) : parsed (parseFrom x r) = (some o, r) := by
  cases x with
  | arrayOpen | arrayClose | dictOpen | dictClose => cases h
  | _ =>
    rw [parseFrom]
    exact congrArg (·, r) h

theorem parseFrom_of_opens? {x : Lexeme} {b : Bracket} (h : x.opens? = some b)
    (r : List Lexeme) : parsed (parseFrom x r) =
      (some (b.enclose (parsed (parseUntil b r)).1), (parsed (parseUntil b r)).2) := by
  cases x with
  | arrayOpen =>
    obtain rfl := Option.some.inj h
    exact parseFrom_arrayOpen r
  | dictOpen =>
    obtain rfl := Option.some.inj h
    exact parseFrom_dictOpen r
  | _ => cases h

theorem parseFrom_of_closes? {x : Lexeme} {b : Bracket} (h : x.closes? = some b)
    (r : List Lexeme) : parsed (parseFrom x r) = (none, r) := by
  cases x with
  | arrayClose | dictClose =>
    rw [parseFrom]
    rfl
  | _ => cases h

theorem eq_close_of_closes? {x : Lexeme} {b : Bracket} (h : x.closes? = some b) : x = b.close := by
  cases x with
  | arrayClose | dictClose =>
    obtain rfl := Option.some.inj h
    rfl
  | _ => cases h

def parseTo : Option Bracket → List Lexeme → List Object × List Lexeme
  | some b, ls => parsed (parseUntil b ls)
  | none, ls => (parseAll ls, [])

theorem parseTo_nil (b? : Option Bracket) : parseTo b? [] = ([], []) := by
  cases b? with
  | none => rw [parseTo, parseAll]
  | some b =>
    rw [parseTo, parseUntil]
    rfl

theorem parseTo_cons {b? : Option Bracket} {x : Lexeme} (h : ∀ b ∈ b?, x ≠ b.close)
    (r : List Lexeme) :
    parseTo b? (x :: r) =
      ((parsed (parseFrom x r)).1.toList ++ (parseTo b? (parsed (parseFrom x r)).2).1,
        (parseTo b? (parsed (parseFrom x r)).2).2) := by
  cases b? with
  | none => exact congrArg (·, []) (parseAll_cons x r)
  | some b => exact parseUntil_cons (fun hc => h b rfl (eq_close_of_closes? hc)) r

theorem drop_of_getElem? {i : Nat} {x : Lexeme} (h : ls[i]? = some x) :
    ls.drop i = x :: ls.drop (i + 1) := by
  obtain ⟨hi, rfl⟩ := List.getElem?_eq_some_iff.mp h
  exact List.drop_eq_getElem_cons hi

mutual

theorem Reads.parseFrom_eq {i j : Nat} {o : Option Object} {x : Lexeme} :
    Reads ls i o j → ls[i]? = some x → parsed (parseFrom x (ls.drop (i + 1))) = (o, ls.drop j)
  | .past h, hx => by
    rw [List.getElem?_eq_none h] at hx
    cases hx
  | .plain h ho, hx => by
    obtain rfl := Option.some.inj (hx.symm.trans h)
    exact parseFrom_of_object? ho _
  | .opening h hb hos, hx => by
    obtain rfl := Option.some.inj (hx.symm.trans h)
    have hbody : parsed (parseUntil _ (ls.drop (i + 1))) = _ := hos.parseTo_eq
    rw [parseFrom_of_opens? hb, hbody]
  | .closing h hb, hx => by
    obtain rfl := Option.some.inj (hx.symm.trans h)
    exact parseFrom_of_closes? hb _

theorem ReadsTo.parseTo_eq {b? : Option Bracket} {i j : Nat} {os : List Object} :
    ReadsTo ls b? i os j → parseTo b? (ls.drop i) = (os, ls.drop j)
  | .finish h => by rw [List.drop_eq_nil_of_le h, parseTo_nil]
  | .close h => by
    rw [drop_of_getElem? h]
    exact parseUntil_close _ _
  | .next h hb ho hos => by
    have hx : ls[i]? = some ls[i] := List.getElem?_eq_getElem h
    have hopen : ∀ b ∈ b?, ls[i] ≠ b.close := fun b hmem heq => hb b hmem (heq ▸ hx)
    rw [drop_of_getElem? hx, parseTo_cons hopen, ho.parseFrom_eq hx, hos.parseTo_eq]

end

/-! Reading has one result. -/

theorem eq_of_drop_eq {j k : Nat} (hj : j ≤ ls.length) (hk : k ≤ ls.length)
    (h : ls.drop j = ls.drop k) : j = k := by
  have hlength := congrArg List.length h
  rw [List.length_drop, List.length_drop] at hlength
  omega

theorem Reads.eq {i j k : Nat} {o p : Option Object} (hi : i < ls.length) (ho : Reads ls i o j)
    (hp : Reads ls i p k) : p = o ∧ k = j := by
  have hx : ls[i]? = some ls[i] := List.getElem?_eq_getElem hi
  obtain ⟨hfound, hdrop⟩ := Prod.mk.inj ((hp.parseFrom_eq hx).symm.trans (ho.parseFrom_eq hx))
  exact ⟨hfound, eq_of_drop_eq (hp.forward hi).2 (ho.forward hi).2 hdrop⟩

theorem ReadsTo.eq {b? : Option Bracket} {i j k : Nat} {os ps : List Object}
    (hi : i ≤ ls.length) (ho : ReadsTo ls b? i os j) (hp : ReadsTo ls b? i ps k) :
    ps = os ∧ k = j := by
  obtain ⟨hfound, hdrop⟩ := Prod.mk.inj (hp.parseTo_eq.symm.trans ho.parseTo_eq)
  exact ⟨hfound, eq_of_drop_eq (hp.forward hi).2 (ho.forward hi).2 hdrop⟩

theorem Reads.eq_none_iff {i j : Nat} {o : Option Object} {x : Lexeme} (h : Reads ls i o j)
    (hx : ls[i]? = some x) : o = none ↔ x.closes?.isSome := by
  cases h with
  | past h =>
    rw [List.getElem?_eq_none h] at hx
    cases hx
  | plain h ho =>
    obtain rfl := Option.some.inj (hx.symm.trans h)
    cases x with
    | arrayOpen | arrayClose | dictOpen | dictClose => cases ho
    | _ => simp [Lexeme.closes?]
  | opening h hb hos =>
    obtain rfl := Option.some.inj (hx.symm.trans h)
    cases x with
    | arrayOpen | dictOpen => simp [Lexeme.closes?]
    | _ => cases hb
  | closing h hb =>
    obtain rfl := Option.some.inj (hx.symm.trans h)
    simp [hb]

/-- Whatever the brackets among lexemes, reading an object ends, moves forward and stays within the
lexemes, and reads nothing only from a closing bracket. So an array or a dictionary ends behind its
closing bracket or with the lexemes, and the objects of all the lexemes are read up to the end. -/
theorem reading_moves_forward (ls : List Lexeme) :
    (∀ i (h : i < ls.length), ∃ o j, (∀ p k, Reads ls i p k ↔ p = o ∧ k = j) ∧
      i < j ∧ j ≤ ls.length ∧ (o = none ↔ ls[i].closes?.isSome) ∧
      parsed (parseFrom ls[i] (ls.drop (i + 1))) = (o, ls.drop j)) ∧
    (∀ b i, i ≤ ls.length → ∃ os j, (∀ ps k, ReadsTo ls (some b) i ps k ↔ ps = os ∧ k = j) ∧
      i ≤ j ∧ j ≤ ls.length ∧
      (j = ls.length ∨ ∃ k, i ≤ k ∧ ls[k]? = some b.close ∧ j = k + 1) ∧
      parsed (parseUntil b (ls.drop i)) = (os, ls.drop j)) ∧
    (∀ os j, ReadsTo ls none 0 os j ↔ os = parseAll ls ∧ j = ls.length) := by
  refine ⟨?_, ?_, ?_⟩
  · intro i hi
    have hx : ls[i]? = some ls[i] := List.getElem?_eq_getElem hi
    obtain ⟨o, j, ho⟩ := exists_reads ls i
    obtain ⟨hforward, hbound⟩ := ho.forward hi
    refine ⟨o, j, fun p k => ⟨ho.eq hi, ?_⟩, hforward, hbound, ho.eq_none_iff hx,
      ho.parseFrom_eq hx⟩
    rintro ⟨rfl, rfl⟩
    exact ho
  · intro b i hi
    obtain ⟨os, j, hos⟩ := exists_readsTo (some b) fun k (_ : i ≤ k) => exists_reads ls k
    obtain ⟨hforward, hbound⟩ := hos.forward hi
    refine ⟨os, j, fun ps k => ⟨hos.eq hi, ?_⟩, hforward, hbound, ?_, hos.parseTo_eq⟩
    · rintro ⟨rfl, rfl⟩
      exact hos
    · simpa using hos.stops hi
  · obtain ⟨os, j, hos⟩ := exists_readsTo none fun k (_ : 0 ≤ k) => exists_reads ls k
    have hend : j = ls.length := by simpa using hos.stops (Nat.zero_le _)
    have hall : parseAll ls = os := congrArg Prod.fst hos.parseTo_eq
    rw [hall, ← hend]
    intro ps k
    refine ⟨hos.eq (Nat.zero_le _), ?_⟩
    rintro ⟨rfl, rfl⟩
    exact hos

/-- A bracket that does not belong there in a dictionary, another behind it, and an open array. -/
theorem reading_moves_forward_past_stray_brackets :
    let ls : List Lexeme := [.dictOpen, .name "A", .arrayClose, .word "x", .dictClose, .dictClose,
      .arrayOpen, .word "y"]
    (5 < ls.length ∧ ∃ j, 5 < j ∧ ∀ o k, Reads ls 5 o k → o = none ∧ k = j) ∧
    (1 ≤ ls.length ∧ ReadsTo ls (some .dict) 1 [.name "A", .word "x"] 5 ∧
      parsed (parseUntil .dict (ls.drop 1)) = ([.name "A", .word "x"], ls.drop 5)) ∧
    parseAll ls = [.dict [("A", .word "x")], .array [.word "y"]] := by
  intro ls
  obtain ⟨hone, hloop, hall⟩ := reading_moves_forward ls
  have hinner : ReadsTo ls (some .dict) 1 [.name "A", .word "x"] 5 :=
    .next (by decide) (by simp [ls, Bracket.close]) (.plain rfl rfl)
      (.next (by decide) (by simp [ls, Bracket.close]) (.closing rfl rfl)
        (.next (by decide) (by simp [ls, Bracket.close]) (.plain rfl rfl) (.close rfl)))
  have hopen : ReadsTo ls (some .array) 7 [.word "y"] 8 :=
    .next (by decide) (by simp [ls, Bracket.close]) (.plain rfl rfl) (.finish (by decide))
  have hwhole : ReadsTo ls none 0 [.dict [("A", .word "x")], .array [.word "y"]] 8 :=
    .next (by decide) (by simp) (.opening rfl rfl hinner)
      (.next (by decide) (by simp) (.closing rfl rfl)
        (.next (by decide) (by simp) (.opening rfl rfl hopen) (.finish (by decide))))
  obtain ⟨o, j, hreads, hforward, -, hnone, -⟩ := hone 5 (by decide)
  obtain ⟨os, k, hreadsTo, -, -, -, hparsed⟩ := hloop .dict 1 (by decide)
  obtain ⟨rfl, rfl⟩ := (hreadsTo _ _).mp hinner
  refine ⟨⟨by decide, j, hforward, ?_⟩, ⟨by decide, hinner, hparsed⟩, ((hall _ _).mp hwhole).1.symm⟩
  intro p k hp
  rw [← hnone.mpr rfl]
  exact (hreads p k).mp hp

end Galley.Pdf
