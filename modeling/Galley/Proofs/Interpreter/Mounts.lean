import Galley.Proofs.Device.Buffering
import Galley.Proofs.Interpreter.WellFormed
/-!
What one command does to the mounted fonts, the selected position and the symbols shown. Only font
commands and the controls that mount fonts have to do with them.
-/
namespace Galley.Interpreter
open Token

structure Keeps (st st' : Interpreter) : Prop where
  mounts : st'.mounts = st.mounts
  font : st'.font = st.font
  symbolMap : st'.symbolMap = st.symbolMap
  warnings : st'.warnings = st.warnings

theorem keeps_takeMarks (st : Interpreter) (text : String) : st.Keeps (st.takeMarks text) := by
  refine List.foldlRecOn (motive := st.Keeps) _ _ ⟨rfl, rfl, rfl, rfl⟩ fun u hu m _ => ?_
  obtain ⟨hmounts, hfont, hmap, hwarnings⟩ := hu
  rw [takeMark]
  cases m.destination? <;> exact ⟨hmounts, hfont, hmap, hwarnings⟩

theorem keeps_endPage (st : Interpreter) : st.Keeps st.endPage.1 := by
  rw [endPage]
  split <;> exact ⟨rfl, rfl, rfl, rfl⟩

theorem keeps_drawing (st : Interpreter) (s : List Char) : st.Keeps (st.drawing s).state := by
  unfold drawing
  split
  case h_4 =>
    rw [drawShape]
    dsimp only
    split <;> exact ⟨rfl, rfl, rfl, rfl⟩
  all_goals exact ⟨rfl, rfl, rfl, rfl⟩

theorem kind_of_mount? {t : Token} {m : Int × String} (h : t.mount? = some m) :
    t.kind = .deviceControl := by
  rw [mount?] at h
  split at h
  · assumption
  · cases h

theorem perform_of_mount {t : Token} {n : Int} {name : String} (h : t.mount? = some (n, name))
    (st : Interpreter) : (st.perform t).state = st.mountFont n name := by
  rw [mount?] at h
  split at h
  case isFalse => cases h
  case isTrue hk =>
    split at h
    case h_1 i font hc =>
      obtain ⟨rfl, rfl⟩ := Prod.mk.inj (Option.some.inj h)
      simp only [perform, hk, hc]
      rfl
    case h_2 => cases h

theorem perform_of_setFont {t : Token} (h : t.kind = .setFont) (st : Interpreter) :
    (st.perform t).state =
      { st with
        font := t.value
        symbolMap := (st.mounted? t.value).bind Font.SymbolMap.ofFont? } := by
  rw [perform, h]
  simp only [selectFont, readInt_fst]
  rfl

theorem keeps_control {t : Token} (hk : t.kind = .deviceControl) (h : t.mount? = none)
    (st : Interpreter) : st.Keeps (st.control (Control.parse t.operand)).1 := by
  rw [mount?, if_pos hk] at h
  cases hc : Control.parse t.operand with
  | mountFont n name => simp [hc] at h
  | stop => exact keeps_endPage st
  | escape e =>
    cases e with
    | exec s code => exact keeps_takeMarks st code
    | other text => exact keeps_takeMarks st text
    | _ => exact ⟨rfl, rfl, rfl, rfl⟩
  | _ => exact ⟨rfl, rfl, rfl, rfl⟩

theorem keeps_perform {t : Token} (hf : t.kind ≠ .setFont) (hm : t.mount? = none)
    (st : Interpreter) : st.Keeps (st.perform t).state := by
  unfold perform
  dsimp only
  cases hk : t.kind <;> dsimp only
  case setFont => exact absurd hk hf
  case deviceControl => exact keeps_control hk hm st
  case drawing => exact keeps_drawing st _
  case charNamed =>
    rw [namedGlyph]
    split <;> exact ⟨rfl, rfl, rfl, rfl⟩
  case charIndexed =>
    rw [indexedGlyph]
    dsimp only
    split <;> exact ⟨rfl, rfl, rfl, rfl⟩
  all_goals constructor <;> rfl

structure Mounted (st st' : Interpreter) (new : Option (Int × String)) : Prop where
  warnings : st'.warnings = st.warnings
  mounts : st'.mounts = new.toList ++ st.mounts

theorem mounted_perform (st : Interpreter) (t : Token) :
    st.Mounted (st.perform t).state t.mount? := by
  cases hm : t.mount? with
  | some m =>
    rw [perform_of_mount hm]
    exact ⟨rfl, rfl⟩
  | none =>
    by_cases hf : t.kind = .setFont
    · rw [perform_of_setFont hf]
      exact ⟨rfl, rfl⟩
    · have hkeeps := keeps_perform hf hm st
      exact ⟨hkeeps.warnings, hkeeps.mounts⟩

theorem keeps_finish (st : Interpreter) : st.Keeps st.finish.1 := by
  have hpage := keeps_endPage st.forget
  show st.Keeps st.flush.1.endPage.1
  rw [flush_fst]
  exact ⟨hpage.mounts, hpage.font, hpage.symbolMap, hpage.warnings⟩

end Galley.Interpreter
