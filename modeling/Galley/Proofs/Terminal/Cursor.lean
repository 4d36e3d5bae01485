import Galley.Terminal.Screen
/-!
The cursor of a screen: where the next character would be and in which style. Each call moves and
sets it in the same way, whatever is on the pages and whether or not anything is shown.
-/
namespace Galley.Terminal
open Device

structure Cursor where
  horizontal : Int
  vertical : Int
  h : Int
  v : Int
  face : Font.Face
  colour : Int
  visible : Bool
  sgr : Bool

def Screen.cursor (s : Screen) : Cursor :=
  ⟨s.horizontal, s.vertical, s.h, s.v, s.face, s.colour, s.visible, s.sgr⟩

namespace Cursor

def step (k : Cursor) : Call → Cursor
  | .resolution r =>
    if Screen.maxUnitsPerInch < r.unitsPerInch then k
    else { k with horizontal := max r.horizontal 1, vertical := max r.vertical 1 }
  | .beginPage _ => { k with h := 0, v := 0 }
  | .setFont _ name => { k with face := .ofName (name.getD "") }
  | .moveToH h => { k with h := h }
  | .moveByH dh => { k with h := Number.add k.h dh }
  | .moveToV v => { k with v := v }
  | .moveByV dv => { k with v := Number.add k.v dv }
  | .printText text tracking =>
    let width := Number.add k.horizontal tracking
    { k with h := text.toList.foldl (fun h _ => Number.add h width) k.h }
  | .draw d => { k with h := Number.add k.h d.advance.1, v := Number.add k.v d.advance.2 }
  | .strokeColour c => { k with colour := Palette.index c }
  | .visible on => { k with visible := on }
  | .sgr on => { k with sgr := on }
  | _ => k

def receive (k : Cursor) (c : Call) : Cursor := c.expand.foldl step k

theorem receive_textRun (k : Cursor) (run : List RunPiece) :
    ∃ h, k.receive (.textRun run) = { k with h := h } := by
  show ∃ h, (run.map RunPiece.call).foldl step k = { k with h := h }
  induction run generalizing k with
  | nil => exact ⟨k.h, rfl⟩
  | cons piece run ih =>
    have hpiece : ∃ h, k.step piece.call = { k with h := h } := by
      cases piece <;> exact ⟨_, rfl⟩
    obtain ⟨h, hstep⟩ := hpiece
    obtain ⟨h', hrun⟩ := ih (k.step piece.call)
    refine ⟨h', ?_⟩
    rw [List.map_cons, List.foldl_cons, hrun, hstep]

end Cursor

namespace Screen

/-! Showing something leaves the cursor where it is. -/

theorem cursor_put (s : Screen) (offset : Int) (ch : Char) :
    (s.put offset ch).cursor = s.cursor := by
  rw [put]
  split <;> rfl

theorem cursor_putAll (s : Screen) (offset : Nat) (cs : List Char) :
    (s.putAll offset cs).cursor = s.cursor := by
  induction cs generalizing s offset with
  | nil => rfl
  | cons c cs ih => rw [putAll, ih, cursor_put]

theorem cursor_plot (s : Screen) (start stop : Int × Int) :
    (s.plot start stop).cursor = s.cursor := by
  unfold plot
  cases s.pages <;> dsimp only <;> split <;> rfl

theorem cursor_type (s : Screen) (tracking : Int) (cs : List Char) :
    (s.type tracking cs).cursor =
      { s.cursor with
        h := cs.foldl (fun h _ => Number.add h (Number.add s.cursor.horizontal tracking))
          s.cursor.h } := by
  induction cs generalizing s with
  | nil => rfl
  | cons c cs ih =>
    let t : Screen := { s.put 0 c with
      h := Number.add (s.put 0 c).h (Number.add (s.put 0 c).horizontal tracking) }
    have hmoved : t.cursor =
        { s.cursor with h := Number.add s.h (Number.add s.horizontal tracking) } :=
      congrArg (fun k : Cursor => { k with h := Number.add k.h (Number.add k.horizontal tracking) })
        (s.cursor_put 0 c)
    have hrest := ih t
    rw [hmoved] at hrest
    exact hrest

theorem cursor_lineTo (s : Screen) (h v : Int) :
    (s.lineTo h v).cursor = { s.cursor with h := h, v := v } := by
  rw [lineTo]
  split
  · rw [← s.cursor_plot (s.place s.h s.v) (s.place h v)]
    rfl
  · rfl

theorem cursor_lines (s : Screen) (offsets : List (Int × Int)) :
    ∃ h v, (offsets.foldl lineBy s).cursor = { s.cursor with h := h, v := v } := by
  induction offsets generalizing s with
  | nil => exact ⟨s.h, s.v, rfl⟩
  | cons d offsets ih =>
    obtain ⟨h, v, hrest⟩ := ih (s.lineBy d)
    refine ⟨h, v, ?_⟩
    rw [List.foldl_cons, hrest, lineBy, cursor_lineTo]

theorem cursor_draw (s : Screen) (d : Drawing) :
    (s.draw d).cursor =
      { s.cursor with h := Number.add s.h d.advance.1, v := Number.add s.v d.advance.2 } := by
  cases d
  case line dh dv => exact cursor_lineTo s _ _
  case polygon offsets filled =>
    -- The sides and the one that closes them do not count: the move starts where they began.
    obtain ⟨h, v, hsides⟩ := s.cursor_lines offsets
    have hclosed := cursor_lineTo (offsets.foldl lineBy s) s.h s.v
    rw [hsides] at hclosed
    exact congrArg (fun k : Cursor => { k with
      h := Number.add s.h (Drawing.total offsets).1
      v := Number.add s.v (Drawing.total offsets).2 }) hclosed
  all_goals rfl

theorem cursor_step (s : Screen) (c : Call) : (s.step c).cursor = s.cursor.step c := by
  cases c
  case resolution r =>
    rw [step, setResolution, Cursor.step]
    split <;> rfl
  case printGlyph text => exact cursor_putAll s 0 text.toList
  case printText text tracking => exact cursor_type s tracking text.toList
  case draw d => exact cursor_draw s d
  all_goals rfl

theorem cursor_receive (s : Screen) (c : Call) : (s.receive c).cursor = s.cursor.receive c := by
  rw [receive, Cursor.receive]
  induction c.expand generalizing s with
  | nil => rfl
  | cons x xs ih => rw [List.foldl_cons, ih, cursor_step, List.foldl_cons]

theorem cursor_receiveAll (s : Screen) (cs : List Call) :
    (screen.receiveAll s cs).cursor = cs.foldl Cursor.receive s.cursor := by
  induction cs generalizing s with
  | nil => rfl
  | cons c cs ih =>
    rw [List.foldl_cons, ← cursor_receive]
    exact ih (s.receive c)

end Screen

end Galley.Terminal
