/-! Blank characters of Unicode text, and cutting text at them. -/
namespace Galley.Text

/-- The characters with the Unicode property White_Space. -/
def isSpace (c : Char) : Bool :=
  let n := c.toNat
  (0x09 ≤ n && n ≤ 0x0D) || n == 0x20 || n == 0x85 || n == 0xA0 || n == 0x1680 ||
    (0x2000 ≤ n && n ≤ 0x200A) || n == 0x2028 || n == 0x2029 || n == 0x202F ||
    n == 0x205F || n == 0x3000

def trimStart (s : List Char) : List Char := s.dropWhile isSpace

def trimEnd (s : List Char) : List Char := (s.reverse.dropWhile isSpace).reverse

def trim (s : List Char) : List Char := trimEnd (trimStart s)

/-- The text before and after the first character of a kind. -/
def cut (p : Char → Bool) : List Char → Option (List Char × List Char)
  | [] => none
  | c :: s => if p c then some ([], s) else (cut p s).map fun (a, b) => (c :: a, b)

theorem cut_length {p : Char → Bool} {s a b : List Char} (h : cut p s = some (a, b)) :
    b.length < s.length := by
  induction s generalizing a with
  | nil => simp [cut] at h
  | cons c s ih =>
    by_cases hc : p c = true
    · simp [cut, hc] at h
      simp [h.2]
    · simp [cut, hc] at h
      obtain ⟨x, hx, _⟩ := h
      exact Nat.lt_succ_of_lt (ih hx)

theorem cut_append {p : Char → Bool} {a b : List Char} {c : Char} (ha : ∀ x ∈ a, p x = false)
    (hc : p c = true) : cut p (a ++ c :: b) = some (a, b) := by
  induction a with
  | nil => simp [cut, hc]
  | cons x a ih =>
    have hx : p x = false := ha x List.mem_cons_self
    simp [cut, hx, ih fun y hy => ha y (List.mem_cons_of_mem x hy)]

def words (s : List Char) : List (List Char) := (s.splitOnP isSpace).filter (!·.isEmpty)

def occursIn (w : List Char) : List Char → Bool
  | [] => w.isEmpty
  | c :: s => w.isPrefixOf (c :: s) || occursIn w s

end Galley.Text
