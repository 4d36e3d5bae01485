import Galley.Pdf.Parse
/-!
Objects and their lexemes. The lexemes of an object, with brackets around the elements of arrays
and the entries of dictionaries, are parsed as that object whatever comes after them.
-/
namespace Galley.Pdf

/-! What parsing does with the first lexeme. -/

def parsed {α : Type} {ls : List Lexeme} (p : α × Rest ls) : α × List Lexeme := (p.1, p.2.val)

def Bracket.close : Bracket → Lexeme
  | .array => .arrayClose
  | .dict => .dictClose

theorem parseUntil_close (b : Bracket) (r : List Lexeme) :
    parsed (parseUntil b (b.close :: r)) = ([], r) := by
  have hclose : b.close.closes? = some b := by cases b <;> rfl
  rw [parseUntil, if_pos hclose]
  rfl

theorem parseUntil_cons {b : Bracket} {x : Lexeme} (h : x.closes? ≠ some b) (r : List Lexeme) :
    parsed (parseUntil b (x :: r)) =
      ((parsed (parseFrom x r)).1.toList ++ (parsed (parseUntil b (parsed (parseFrom x r)).2)).1,
        (parsed (parseUntil b (parsed (parseFrom x r)).2)).2) := by
  rw [parseUntil, if_neg h]
  rfl

theorem parseAll_cons (x : Lexeme) (r : List Lexeme) :
    parseAll (x :: r) =
      (parsed (parseFrom x r)).1.toList ++ parseAll (parsed (parseFrom x r)).2 := by
  rw [parseAll]
  rfl

theorem parseFrom_arrayOpen (r : List Lexeme) :
    parsed (parseFrom .arrayOpen r) =
      (some (.array (parsed (parseUntil .array r)).1), (parsed (parseUntil .array r)).2) := by
  rw [parseFrom]
  rfl

theorem parseFrom_dictOpen (r : List Lexeme) :
    parsed (parseFrom .dictOpen r) =
      (some (.dict (pair (parsed (parseUntil .dict r)).1)), (parsed (parseUntil .dict r)).2) := by
  rw [parseFrom]
  rfl

/-! The lexemes of objects. -/

mutual

def Object.lexemes : Object → List Lexeme
  | .name s => [.name s]
  | .string s => [.string s]
  | .number x => [.number x]
  | .word s => [.word s]
  | .array es => .arrayOpen :: lexemesOf es ++ [.arrayClose]
  | .dict entries => .dictOpen :: lexemesOfEntries entries ++ [.dictClose]

def lexemesOf : List Object → List Lexeme
  | [] => []
  | o :: os => o.lexemes ++ lexemesOf os

def lexemesOfEntries : List (String × Object) → List Lexeme
  | [] => []
  | (k, v) :: entries => .name k :: v.lexemes ++ lexemesOfEntries entries

end

def unpaired (entries : Entries) : List Object := entries.flatMap fun (k, v) => [.name k, v]

theorem pair_unpaired (entries : Entries) : pair (unpaired entries) = entries := by
  induction entries with
  | nil => rfl
  | cons e entries ih => simpa [unpaired, pair] using ih

theorem lexemesOf_unpaired (entries : Entries) :
    lexemesOf (unpaired entries) = lexemesOfEntries entries := by
  induction entries with
  | nil => rfl
  | cons e entries ih => simpa [unpaired, lexemesOf, lexemesOfEntries, Object.lexemes] using ih

/-- An object is parsed from its lexemes, and what comes after them is left. -/
def Object.Parses (o : Object) : Prop :=
  ∃ x ls, o.lexemes = x :: ls ∧ x.closes? = none ∧
    ∀ r, parsed (parseFrom x (ls ++ r)) = (some o, r)

theorem parseUntil_lexemesOf {os : List Object} (h : ∀ o ∈ os, o.Parses) (b : Bracket)
    (r : List Lexeme) : parsed (parseUntil b (lexemesOf os ++ b.close :: r)) = (os, r) := by
  induction os with
  | nil => exact parseUntil_close b r
  | cons o os ih =>
    obtain ⟨x, ls, hlexemes, hopen, hparse⟩ := h o List.mem_cons_self
    have hrest := ih fun p hp => h p (List.mem_cons_of_mem o hp)
    have hne : x.closes? ≠ some b := by simp [hopen]
    rw [lexemesOf, hlexemes, List.append_assoc, List.cons_append, parseUntil_cons hne, hparse,
      hrest]
    rfl

theorem parseAll_lexemesOf {os : List Object} (h : ∀ o ∈ os, o.Parses) :
    parseAll (lexemesOf os) = os := by
  induction os with
  | nil => rw [lexemesOf, parseAll]
  | cons o os ih =>
    obtain ⟨x, ls, hlexemes, -, hparse⟩ := h o List.mem_cons_self
    have hrest := ih fun p hp => h p (List.mem_cons_of_mem o hp)
    rw [lexemesOf, hlexemes, List.cons_append, parseAll_cons, hparse, hrest]
    rfl

theorem parses_array {es : List Object} (h : ∀ e ∈ es, e.Parses) : (Object.array es).Parses := by
  refine ⟨.arrayOpen, lexemesOf es ++ [.arrayClose], rfl, rfl, ?_⟩
  intro r
  have helements : parsed (parseUntil .array (lexemesOf es ++ ([.arrayClose] ++ r))) = (es, r) :=
    parseUntil_lexemesOf h .array r
  rw [parseFrom_arrayOpen, List.append_assoc, helements]

theorem parses_name (s : String) : (Object.name s).Parses :=
  ⟨.name s, [], rfl, rfl, fun r => by rw [List.nil_append, parseFrom]; rfl⟩

theorem parses_unpaired {entries : Entries} (h : ∀ e ∈ entries, e.2.Parses) :
    ∀ o ∈ unpaired entries, o.Parses := by
  intro o ho
  obtain ⟨⟨k, v⟩, he, ho⟩ := List.mem_flatMap.mp ho
  obtain rfl | rfl : o = .name k ∨ o = v := by simpa using ho
  · exact parses_name k
  · exact h _ he

theorem parses_dict {entries : Entries} (h : ∀ e ∈ entries, e.2.Parses) :
    (Object.dict entries).Parses := by
  refine ⟨.dictOpen, lexemesOfEntries entries ++ [.dictClose], rfl, rfl, ?_⟩
  intro r
  have hentries : parsed (parseUntil .dict (lexemesOfEntries entries ++ ([.dictClose] ++ r))) =
      (unpaired entries, r) := by
    rw [← lexemesOf_unpaired]
    exact parseUntil_lexemesOf (parses_unpaired h) .dict r
  rw [parseFrom_dictOpen, List.append_assoc, hentries, pair_unpaired]

theorem Object.parses (o : Object) : o.Parses := by
  induction o with
  | name s => exact parses_name s
  | string s => exact ⟨.string s, [], rfl, rfl, fun r => by rw [List.nil_append, parseFrom]; rfl⟩
  | number x => exact ⟨.number x, [], rfl, rfl, fun r => by rw [List.nil_append, parseFrom]; rfl⟩
  | word s => exact ⟨.word s, [], rfl, rfl, fun r => by rw [List.nil_append, parseFrom]; rfl⟩
  | array es ih => exact parses_array ih
  | dict entries ih => exact parses_dict ih

theorem parseAll_lexemes (os : List Object) : parseAll (lexemesOf os) = os :=
  parseAll_lexemesOf fun o _ => o.parses

end Galley.Pdf
