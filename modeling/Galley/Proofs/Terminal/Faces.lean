import Mathlib.Data.List.DropRight
import Galley.Proofs.Device.Delivery
import Galley.Proofs.Device.SelectedFont
import Galley.Proofs.Interpreter.Origins
import Galley.Proofs.Terminal.Cursor
import Galley.Proofs.Terminal.Writes
import Galley.Terminal.Document
/-!
The faces that text is shown in. A screen hears of a font when it is selected. Text is in the face
of the font that was mounted then, and not of one that is mounted at the same position later, though
its symbols are.
-/
namespace Galley
open Device

namespace Token

/-- The name of the font mounted last at the position selected last. -/
def fontMounted? (ts : List Token) : Option String := lastMounted? (lastSelected ts) ts

def upToFont (ts : List Token) : List Token := ts.rdropWhile (·.kind ≠ .setFont)

def sinceFont (ts : List Token) : List Token := ts.rtakeWhile (·.kind ≠ .setFont)

/-- The name of the font that the last font command found at the position it selects. -/
def fontFound? (ts : List Token) : Option String := lastMounted? (lastSelected ts) (upToFont ts)

theorem fontFound?_concat_of_setFont {t : Token} (h : t.kind = .setFont) (ts : List Token) :
    fontFound? (ts ++ [t]) = lastMounted? t.value ts := by
  have hup : upToFont (ts ++ [t]) = ts ++ [t] := List.rdropWhile_concat_neg _ _ _ (by simp [h])
  have hat : t.mountsAt? t.value = none := by simp [mountsAt?, mount?, h]
  rw [fontFound?, hup, lastSelected_concat, selects?, if_pos h, Option.getD_some,
    lastMounted?_concat, hat, Option.none_or]

theorem fontFound?_concat_of_ne {t : Token} (h : t.kind ≠ .setFont) (ts : List Token) :
    fontFound? (ts ++ [t]) = fontFound? ts := by
  have hup : upToFont (ts ++ [t]) = upToFont ts := List.rdropWhile_concat_pos _ _ _ (by simp [h])
  rw [fontFound?, hup, lastSelected_concat, selects?, if_neg h]
  rfl

theorem fontFound?_eq {ts : List Token}
    (h : ∀ t ∈ sinceFont ts, t.mountsAt? (lastSelected ts) = none) :
    fontFound? ts = fontMounted? ts := by
  have hsince : (sinceFont ts).filterMap (mountsAt? (lastSelected ts)) = [] :=
    List.filterMap_eq_nil_iff.mpr h
  have hall : upToFont ts ++ sinceFont ts = ts := List.rdropWhile_append_rtakeWhile
  have hmounts : ts.filterMap (mountsAt? (lastSelected ts)) =
      (upToFont ts).filterMap (mountsAt? (lastSelected ts)) := by
    conv_lhs => rw [← hall, List.filterMap_append, hall, hsince, List.append_nil]
  rw [fontFound?, fontMounted?, lastMounted?, lastMounted?, hmounts]

end Token

/-! Calls that select fonts. -/

def Device.Call.font? : Call → Option (Option String)
  | .setFont _ name => some name
  | _ => none

namespace Interpreter

theorem font_exec_of_ne {t : Token} (h : t.kind ≠ .setFont) (st : Interpreter) :
    (st.exec t).2.filterMap Call.font? = [] := by
  refine filterMap_exec_eq_nil (fun _ => rfl) (fun x hx => ?_) st
  cases x
  case setFont index name => exact absurd (List.mem_singleton.mp hx) h
  all_goals rfl

theorem calls_exec_of_setFont {t : Token} (h : t.kind = .setFont) (st : Interpreter) :
    (st.exec t).2 = st.flush.2 ++ [.setFont t.value (st.mounted? t.value)] := by
  have hp : st.piece? t = none := by simp [piece?, h]
  have hcalls : (st.forget.execDirect t).2 = [.setFont t.value (st.mounted? t.value)] := by
    rw [execDirect, perform, h]
    simp only [selectFont, readInt_fst]
    rfl
  rw [exec_of_none hp, hcalls]

end Interpreter

namespace Terminal

namespace Screen

/-! What is written for text. -/

def write (s : Screen) (offset : Int) (ch : Char) : List Write :=
  let (row, col) := s.place s.h s.v
  if s.visible then [⟨row, Number.add col offset, s.cell ch⟩] else []

def writesAcross (s : Screen) (offset : Nat) : List Char → List Write
  | [] => []
  | c :: cs =>
    let column := Number.wrap offset
    s.write column c ++ (s.put column c).writesAcross (offset + 1) cs

def writesTyped (s : Screen) (tracking : Int) : List Char → List Write
  | [] => []
  | c :: cs =>
    let t := s.put 0 c
    s.write 0 c ++ writesTyped { t with h := Number.add t.h (Number.add t.horizontal tracking) }
      tracking cs

def writesFor (s : Screen) : Call → List Write
  | .printGlyph text => s.writesAcross 0 text.toList
  | .printText text tracking => s.writesTyped tracking text.toList
  | _ => []

def stamp (pages : List Grid) (ws : List Write) : List Grid :=
  ws.foldl (fun pages w => onPage (·.set w.row w.col w.cell) pages) pages

theorem stamp_append (pages : List Grid) (ws vs : List Write) :
    stamp pages (ws ++ vs) = stamp (stamp pages ws) vs := List.foldl_append

theorem pages_put (s : Screen) (offset : Int) (ch : Char) :
    (s.put offset ch).pages = stamp s.pages (s.write offset ch) := by
  rw [put, write]
  dsimp only
  split <;> rfl

theorem pages_putAll (s : Screen) (offset : Nat) (cs : List Char) :
    (s.putAll offset cs).pages = stamp s.pages (s.writesAcross offset cs) := by
  induction cs generalizing s offset with
  | nil => rfl
  | cons c cs ih => rw [putAll, ih, pages_put, writesAcross, stamp_append]

theorem pages_type (s : Screen) (tracking : Int) (cs : List Char) :
    (s.type tracking cs).pages = stamp s.pages (s.writesTyped tracking cs) := by
  induction cs generalizing s with
  | nil => rfl
  | cons c cs ih =>
    rw [type, writesTyped, stamp_append, ← pages_put]
    exact ih _

theorem pages_step (s : Screen) (c : Call) (hdraw : ∀ d, c ≠ .draw d)
    (hbegin : ∀ n, c ≠ .beginPage n) : (s.step c).pages = stamp s.pages (s.writesFor c) := by
  cases c
  case resolution r =>
    rw [step, setResolution]
    split <;> rfl
  case beginPage n => exact absurd rfl (hbegin n)
  case draw d => exact absurd rfl (hdraw d)
  case printGlyph text => exact pages_putAll s 0 text.toList
  case printText text tracking => exact pages_type s tracking text.toList
  all_goals rfl

/-! The cells that are written. -/

theorem cell_write (s : Screen) (offset : Int) (ch : Char) :
    ∀ w ∈ s.write offset ch, w.cell = s.cell ch := by
  rw [write]
  dsimp only
  split <;> simp

theorem cell_put (s : Screen) (offset : Int) (ch : Char) : (s.put offset ch).cell = s.cell := by
  rw [put]
  split <;> rfl

theorem cell_writesAcross (s : Screen) (offset : Nat) (cs : List Char) :
    ∀ w ∈ s.writesAcross offset cs, ∃ ch ∈ cs, w.cell = s.cell ch := by
  induction cs generalizing s offset with
  | nil => exact List.forall_mem_nil _
  | cons c cs ih =>
    have hrest := ih (s.put (Number.wrap offset) c) (offset + 1)
    rw [cell_put] at hrest
    refine List.forall_mem_append.mpr ⟨fun w hw => ?_, fun w hw => ?_⟩
    · exact ⟨c, List.mem_cons_self, s.cell_write (Number.wrap offset) c w hw⟩
    · obtain ⟨ch, hch, hcell⟩ := hrest w hw
      exact ⟨ch, List.mem_cons_of_mem c hch, hcell⟩

theorem cell_writesTyped (s : Screen) (tracking : Int) (cs : List Char) :
    ∀ w ∈ s.writesTyped tracking cs, ∃ ch ∈ cs, w.cell = s.cell ch := by
  induction cs generalizing s with
  | nil => exact List.forall_mem_nil _
  | cons c cs ih =>
    refine List.forall_mem_append.mpr ⟨fun w hw => ?_, fun w hw => ?_⟩
    · exact ⟨c, List.mem_cons_self, s.cell_write 0 c w hw⟩
    · obtain ⟨ch, hch, hcell⟩ := ih _ w hw
      exact ⟨ch, List.mem_cons_of_mem c hch, hcell.trans (congrFun (s.cell_put 0 c) ch)⟩

theorem cell_writesFor (s : Screen) (c : Call) :
    ∀ w ∈ s.writesFor c, ∃ ch ∈ c.printed, w.cell = s.cell ch := by
  cases c
  case printGlyph text => exact s.cell_writesAcross 0 text.toList
  case printText text tracking => exact s.cell_writesTyped tracking text.toList
  all_goals exact List.forall_mem_nil _

/-! Faces. -/

theorem face_writesFor (s : Screen) (c : Call) : ∀ w ∈ s.writesFor c, w.cell.face = s.face := by
  intro w hw
  obtain ⟨ch, -, hcell⟩ := s.cell_writesFor c w hw
  rw [hcell]
  rfl

theorem face_step (s : Screen) {c : Call} (h : c.font? = none) : (s.step c).face = s.face := by
  refine (congrArg Cursor.face (s.cursor_step c)).trans ?_
  cases c
  case resolution r =>
    rw [Cursor.step]
    split <;> rfl
  case setFont index name => cases h
  all_goals rfl

def writesForAll (s : Screen) : List Call → List Write
  | [] => []
  | c :: cs => s.writesFor c ++ (s.step c).writesForAll cs

theorem face_writesForAll {cs : List Call} (h : ∀ c ∈ cs, c.font? = none) (s : Screen) :
    (∀ w ∈ s.writesForAll cs, w.cell.face = s.face) ∧ (cs.foldl step s).face = s.face := by
  induction cs generalizing s with
  | nil => exact ⟨List.forall_mem_nil _, rfl⟩
  | cons c cs ih =>
    obtain ⟨hc, hcs⟩ := List.forall_mem_cons.mp h
    obtain ⟨hwrites, hface⟩ := ih hcs (s.step c)
    rw [s.face_step hc] at hwrites hface
    exact ⟨List.forall_mem_append.mpr ⟨s.face_writesFor c, hwrites⟩, hface⟩

def textWrites (s : Screen) (cs : List Call) : List Write := s.writesForAll (cs.flatMap Call.expand)

theorem writesForAll_append (s : Screen) (cs ds : List Call) :
    s.writesForAll (cs ++ ds) = s.writesForAll cs ++ (cs.foldl step s).writesForAll ds := by
  induction cs generalizing s with
  | nil => rfl
  | cons c cs ih => simp only [List.cons_append, writesForAll, ih, List.append_assoc, List.foldl_cons]

theorem receiveAll_eq (s : Screen) (cs : List Call) :
    screen.receiveAll s cs = (cs.flatMap Call.expand).foldl step s := List.foldl_flatMap.symm

theorem font_expand {cs : List Call} (h : cs.filterMap Call.font? = []) :
    ∀ c ∈ cs.flatMap Call.expand, c.font? = none := by
  rw [← List.filterMap_eq_nil_iff,
    Interpreter.filterMap_expand (fun _ => rfl) (fun p => by cases p <;> rfl), h]

theorem face_textWrites {cs : List Call} (h : cs.filterMap Call.font? = []) (s : Screen) :
    (∀ w ∈ s.textWrites cs, w.cell.face = s.face) ∧ (screen.receiveAll s cs).face = s.face := by
  rw [receiveAll_eq]
  exact face_writesForAll (font_expand h) s

theorem face_textWrites_concat {cs : List Call} (h : cs.filterMap Call.font? = []) (s : Screen)
    (index : Int) (name : Option String) :
    (∀ w ∈ s.textWrites (cs ++ [.setFont index name]), w.cell.face = s.face) ∧
      (screen.receiveAll s (cs ++ [.setFont index name])).face = .ofName (name.getD "") := by
  have hwrites : s.textWrites (cs ++ [.setFont index name]) = s.textWrites cs := by
    rw [textWrites, List.flatMap_append, writesForAll_append]
    exact List.append_nil _
  rw [hwrites, Sink.receiveAll_append]
  exact ⟨(face_textWrites h s).1, rfl⟩

end Screen

open Device.Session

/-- What a session writes for the text of commands, each write with the commands executed before
those that make it. -/
def textWrites (s : Session Screen) (seen : List Token) : List Token → List (List Token × Write)
  | [] => (s.device.textWrites s.interpreter.finish.2).map (seen, ·)
  | t :: ts =>
    (s.device.textWrites (s.interpreter.exec t).2).map (seen, ·) ++
      match s.exec screen t with
      | (_, some _) => []
      | (u, none) => textWrites u (seen ++ [t]) ts

def Faced (s : Screen) (seen : List Token) : Prop :=
  s.face = .ofName ((Token.fontFound? seen).getD "")

theorem face_exec {s : Session Screen} {seen : List Token} (hs : Selects s.interpreter seen)
    (hface : Faced s.device seen) (t : Token) :
    (∀ w ∈ s.device.textWrites (s.interpreter.exec t).2, w.cell.face = s.device.face) ∧
      Faced (screen.receiveAll s.device (s.interpreter.exec t).2) (seen ++ [t]) := by
  by_cases ht : t.kind = .setFont
  · -- What was held back is printed before the font is selected, in the face of the one before.
    have hexec := Screen.face_textWrites_concat
      (s.interpreter.filterMap_flush fun _ => rfl) s.device t.value
      (s.interpreter.mounted? t.value)
    rw [Interpreter.calls_exec_of_setFont ht]
    refine ⟨hexec.1, hexec.2.trans ?_⟩
    rw [Token.fontFound?_concat_of_setFont ht, hs.mounted]
  · have hexec := Screen.face_textWrites (Interpreter.font_exec_of_ne ht s.interpreter) s.device
    refine ⟨hexec.1, hexec.2.trans ?_⟩
    rw [Token.fontFound?_concat_of_ne ht]
    exact hface

theorem Faced.map {s : Screen} {seen : List Token} (hface : Faced s seen) {ws : List Write}
    (hws : ∀ w ∈ ws, w.cell.face = s.face) :
    ∀ x ∈ ws.map (seen, ·), x.2.cell.face = .ofName ((Token.fontFound? x.1).getD "") :=
  List.forall_mem_map.mpr fun w hw => (hws w hw).trans hface

theorem face_of_textWrites {s : Session Screen} {seen : List Token}
    (hs : Selects s.interpreter seen) (hface : Faced s.device seen) (ts : List Token) :
    ∀ x ∈ textWrites s seen ts, x.2.cell.face = .ofName ((Token.fontFound? x.1).getD "") := by
  induction ts generalizing s seen with
  | nil =>
    have hfinish := s.interpreter.filterMap_finish (f := Call.font?) (fun _ => rfl) rfl
    exact hface.map (Screen.face_textWrites hfinish s.device).1
  | cons t ts ih =>
    obtain ⟨hwrites, hnext⟩ := face_exec hs hface t
    refine List.forall_mem_append.mpr ⟨hface.map hwrites, ?_⟩
    split
    case h_1 => exact fun _ hx => absurd hx List.not_mem_nil
    case h_2 u hexec =>
      rw [Session.exec_eq] at hexec
      obtain ⟨rfl, -⟩ := Prod.mk.inj hexec
      exact ih (hs.exec t) hnext

def textOfSource (options : Options) (legacy : Bool) (source : String) :
    List (List Token × Write) :=
  textWrites ⟨.initial, .initial options.resolution options.sgr⟩ []
    (Token.tokenize legacy source)

/-- Text is in the face of the font that the last font command found at its position, and in the
regular one if there was none. That is the font mounted last at the selected position, unless it was
mounted there after the font command. -/
theorem text_in_face_found (options : Options) (legacy : Bool) (source : String) :
    ∀ x ∈ textOfSource options legacy source,
      x.2.cell.face = .ofName ((Token.fontFound? x.1).getD "") ∧
        ((∀ t ∈ Token.sinceFont x.1, t.mountsAt? (Token.lastSelected x.1) = none) →
          x.2.cell.face = .ofName ((Token.fontMounted? x.1).getD "")) := by
  intro x hx
  have hface := face_of_textWrites (s := ⟨.initial, .initial options.resolution options.sgr⟩)
    selects_initial rfl _ x hx
  exact ⟨hface, fun hsince => by rw [hface, Token.fontFound?_eq hsince]⟩

/-- A source that selects a bold font and then mounts one for symbols in its place. -/
def remountedSource : String := "x font 1 B\nf1\nx font 1 S\np1\nV0\nH0\nta\n"

/-- Its only letter is shown as the symbol of the new font in the face of the old one. -/
theorem textOfSource_remounted :
    ∃ seen, textOfSource {} false remountedSource = [(seen, ⟨0, 0, ⟨'α', .bold, -1⟩⟩)] ∧
      Token.fontFound? seen = some "B" ∧ Token.fontMounted? seen = some "S" := by
  refine ⟨Token.tokenize false remountedSource, ?_, ?_, ?_⟩ <;> decide +kernel

/-- The face of text need not be that of the font its symbols come from. -/
theorem text_not_always_in_face_mounted :
    ¬ ∀ (options : Options) (legacy : Bool) (source : String),
      ∀ x ∈ textOfSource options legacy source,
        x.2.cell.face = .ofName ((Token.fontMounted? x.1).getD "") := by
  intro hclaim
  obtain ⟨seen, htext, -, hmounted⟩ := textOfSource_remounted
  have hface := hclaim {} false remountedSource (seen, ⟨0, 0, ⟨'α', .bold, -1⟩⟩) (by simp [htext])
  rw [hmounted] at hface
  have hregular : Font.Face.bold = .ofName "S" := hface
  exact absurd hregular (by decide)

theorem text_in_face_found_remounted :
    ∃ seen w, (seen, w) ∈ textOfSource {} false remountedSource ∧
      w.cell.face = .ofName "B" ∧ Token.fontMounted? seen = some "S" := by
  obtain ⟨seen, htext, hfound, hmounted⟩ := textOfSource_remounted
  have hmem : (seen, ⟨0, 0, ⟨'α', .bold, -1⟩⟩) ∈ textOfSource {} false remountedSource := by
    simp [htext]
  have hface := (text_in_face_found {} false remountedSource _ hmem).1
  rw [hfound] at hface
  exact ⟨seen, _, hmem, hface, hmounted⟩

end Terminal
end Galley
