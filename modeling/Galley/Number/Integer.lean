/-! Whole numbers written in digits, and the bounds of device numbers. -/
namespace Galley.Number

def digit? (base : Nat) (c : Char) : Option Nat :=
  let n := c.toNat
  let d :=
    if '0'.toNat ≤ n && n ≤ '9'.toNat then n - '0'.toNat
    else if 'a'.toNat ≤ n && n ≤ 'f'.toNat then n - 'a'.toNat + 10
    else if 'A'.toNat ≤ n && n ≤ 'F'.toNat then n - 'A'.toNat + 10
    else base
  if d < base then some d else none

def ofDigits (base : Nat) (ds : List Nat) : Nat := ds.foldl (fun n d => n * base + d) 0

def digits? (base : Nat) (s : List Char) : Option Nat :=
  if s.isEmpty then none else (s.mapM (digit? base)).map (ofDigits base)

/-- Reads digits after an optional plus sign. -/
def natural? (base : Nat) : List Char → Option Nat
  | '+' :: s => digits? base s
  | s => digits? base s

/-- Reads decimal digits after an optional sign. -/
def integer? : List Char → Option Int
  | '-' :: s => (digits? 10 s).map fun n => -(n : Int)
  | s => (natural? 10 s).map Int.ofNat

def least : Int := -2147483648

def greatest : Int := 2147483647

/-- The nearest number within the bounds of a device number. -/
def saturate (n : Int) : Int := max least (min greatest n)

theorem least_le_saturate (n : Int) : least ≤ saturate n := by
  unfold saturate; omega

theorem saturate_le_greatest (n : Int) : saturate n ≤ greatest := by
  have : least ≤ greatest := by decide
  unfold saturate; omega

theorem saturate_of_mem {n : Int} (hl : least ≤ n) (hg : n ≤ greatest) : saturate n = n := by
  unfold saturate; omega

def add (a b : Int) : Int := saturate (a + b)

/-- The device number with the same last 32 bits. -/
def wrap (n : Int) : Int := Int.bmod n 4294967296

/-- Reads a device number; one beyond the bounds is not a number. -/
def coordinate? (s : List Char) : Option Int :=
  (integer? s).filter fun n => least ≤ n && n ≤ greatest

def below? (base bound : Nat) (s : List Char) : Option Nat :=
  (natural? base s).filter (· < bound)

end Galley.Number
