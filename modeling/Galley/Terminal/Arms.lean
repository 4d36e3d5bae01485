/-! Box drawing characters as sets of arms that leave a cell. -/
namespace Galley.Terminal

structure Arms where
  up : Bool
  down : Bool
  left : Bool
  right : Bool
  deriving DecidableEq

namespace Arms

def none : Arms := ⟨false, false, false, false⟩

def union (a b : Arms) : Arms :=
  ⟨a.up || b.up, a.down || b.down, a.left || b.left, a.right || b.right⟩

def ofChar : Char → Arms
  | '─' => ⟨false, false, true, true⟩
  | '│' => ⟨true, true, false, false⟩
  | '┌' => ⟨false, true, false, true⟩
  | '┐' => ⟨false, true, true, false⟩
  | '└' => ⟨true, false, false, true⟩
  | '┘' => ⟨true, false, true, false⟩
  | '┬' => ⟨false, true, true, true⟩
  | '┴' => ⟨true, false, true, true⟩
  | '├' => ⟨true, true, false, true⟩
  | '┤' => ⟨true, true, true, false⟩
  | '┼' => ⟨true, true, true, true⟩
  | _ => none

/-- The character with given arms. A single arm looks like a whole line. -/
def char : Arms → Char
  | ⟨false, false, _, _⟩ => '─'
  | ⟨_, _, false, false⟩ => '│'
  | ⟨false, true, false, true⟩ => '┌'
  | ⟨false, true, true, false⟩ => '┐'
  | ⟨true, false, false, true⟩ => '└'
  | ⟨true, false, true, false⟩ => '┘'
  | ⟨false, true, true, true⟩ => '┬'
  | ⟨true, false, true, true⟩ => '┴'
  | ⟨true, true, false, true⟩ => '├'
  | ⟨true, true, true, false⟩ => '┤'
  | ⟨true, true, true, true⟩ => '┼'

end Arms

end Galley.Terminal
