import Galley.Proofs.Device.Delivery
import Galley.Proofs.Number.Bounds
import Galley.Proofs.Terminal.Cursor
import Galley.Terminal.Document
/-!
The vertical position on a screen. The screen follows it by the lines and moves that it draws and
the interpreter by the advance of each command, and the two are never apart.
-/
namespace Galley

namespace Token
open Number

theorem fits_value (t : Token) : Fits t.value := by
  rw [value, numberOf]
  cases h : coordinate? (Text.trim t.operand.toList) with
  | none => exact fits_zero
  | some n => exact fits_of_coordinate? h

theorem fits_vertical {v : Int} (hv : Fits v) (t : Token) : Fits (t.vertical v) := by
  rw [vertical]
  split
  · exact fits_value t
  · exact fits_add _ _
  · split
    · exact fits_add _ _
    · exact hv
  · exact hv

end Token

theorem Interpreter.fits_v_exec {st : Interpreter} (h : Number.Fits st.v) (t : Token) :
    Number.Fits (st.exec t).1.v := by
  rw [(st.moves_exec t).v]
  split
  · exact Number.fits_zero
  · exact t.fits_vertical h

namespace Terminal
open Device

/-! The screen moves up and down as its calls say. -/

namespace Screen

theorem v_step {s : Screen} {p q : Place} {c : Call} (hc : p.after? c = some q) (h : s.v = p.v) :
    (s.step c).v = q.v := by
  refine (congrArg Cursor.v (s.cursor_step c)).trans ?_
  cases c
  case beginPage number =>
    cases hp : p.inPage with
    | true => simp [Place.after?, hp] at hc
    | false =>
      obtain rfl : ⟨p.page + 1, true, 0⟩ = q := by simpa [Place.after?, hp] using hc
      rfl
  case endPage =>
    cases hp : p.inPage with
    | false => simp [Place.after?, hp] at hc
    | true =>
      obtain rfl : { p with inPage := false } = q := by simpa [Place.after?, hp] using hc
      exact h
  all_goals obtain rfl := Option.some.inj hc
  case resolution r =>
    rw [Cursor.step]
    split <;> exact h
  case moveToV v => rfl
  case moveByV dv => exact congrArg (Number.add · dv) h
  -- A shape moves the screen by the advance that the interpreter counts.
  case draw d => exact congrArg (Number.add · d.advance.2) h
  all_goals exact h

theorem v_run (s : Screen) (run : List RunPiece) : (s.receive (.textRun run)).v = s.v := by
  obtain ⟨h, hrun⟩ := s.cursor.receive_textRun run
  refine (congrArg Cursor.v (s.cursor_receive (.textRun run))).trans ?_
  rw [hrun]
  rfl

end Screen

theorem follows_screen : screen.Follows fun s p => s.v = p.v := by
  intro s p q c h hc
  cases c
  case textRun run =>
    obtain rfl := Option.some.inj hc
    exact (s.v_run run).trans h
  all_goals exact Screen.v_step hc h

/-- After every command of a document, one that is refused included, the vertical position of the
interpreter is that of the screen. -/
theorem vertical_in_step (options : Options) (legacy : Bool) (source : String) (n : Nat) :
    let s := (Session.feed screen ⟨.initial, .initial options.resolution options.sgr⟩
      ((Token.tokenize legacy source).take n)).1
    s.interpreter.v = s.device.v ∧ Number.Fits s.device.v := by
  intro s
  have hv : s.device.v = s.interpreter.v := follows_screen.feed rfl _
  have hfits : Number.Fits s.interpreter.v := by
    refine Session.feed_keeps (P := fun u => Number.Fits u.interpreter.v) (fun u t hu => ?_)
      Number.fits_zero _
    rw [Session.exec_eq]
    exact Interpreter.fits_v_exec hu t
  exact ⟨hv.symm, hv ▸ hfits⟩

end Terminal

end Galley
