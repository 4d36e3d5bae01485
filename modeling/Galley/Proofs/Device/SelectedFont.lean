import Galley.Proofs.Device.Brackets
import Galley.Proofs.Interpreter.Mounts
/-!
The symbols that are shown. In any order of font commands, controls that mount fonts and other
commands they are those of the font mounted last at the position selected last.
-/
namespace Galley

namespace Token

/-- The position that a font command selects. -/
def selects? (t : Token) : Option Int := if t.kind = .setFont then some t.value else none

def mountsAt? (n : Int) (t : Token) : Option String :=
  t.mount?.bind fun (i, name) => if i = n then some name else none

/-- The position that the last font command selects, or 0 without one. -/
def lastSelected (ts : List Token) : Int := (ts.filterMap selects?).getLast?.getD 0

def lastMounted? (n : Int) (ts : List Token) : Option String := (ts.filterMap (mountsAt? n)).getLast?

theorem getLast?_filterMap_concat {α β : Type} (f : α → Option β) (xs : List α) (x : α) :
    ((xs ++ [x]).filterMap f).getLast? = (f x).or (xs.filterMap f).getLast? := by
  rw [List.filterMap_append, List.getLast?_append]
  cases h : f x <;> simp [h]

theorem lastSelected_concat (ts : List Token) (t : Token) :
    lastSelected (ts ++ [t]) = t.selects?.getD (lastSelected ts) := by
  rw [lastSelected, getLast?_filterMap_concat, Option.getD_or]
  rfl

theorem lastMounted?_concat (n : Int) (ts : List Token) (t : Token) :
    lastMounted? n (ts ++ [t]) = (t.mountsAt? n).or (lastMounted? n ts) :=
  getLast?_filterMap_concat _ ts t

end Token

namespace Interpreter
open Token

/-- The symbols are those of the font mounted at the selected position. -/
def Maps (st : Interpreter) : Prop :=
  st.symbolMap = (st.mounted? st.font).bind Font.SymbolMap.ofFont?

structure Refonts (st : Interpreter) (t : Token) (st' : Interpreter) : Prop where
  font : st'.font = t.selects?.getD st.font
  mounted : ∀ n, st'.mounted? n = (t.mountsAt? n).or (st.mounted? n)
  maps : st.Maps → st'.Maps

theorem Keeps.maps {st st' : Interpreter} (h : st.Keeps st') (hm : st.Maps) : st'.Maps := by
  rw [Maps, mounted?, h.symbolMap, h.mounts, h.font]
  exact hm

theorem refonts_mountFont {t : Token} {i : Int} {name : String} (h : t.mount? = some (i, name))
    (st : Interpreter) : st.Refonts t (st.mountFont i name) := by
  have hat : ∀ n, t.mountsAt? n = if i = n then some name else none := fun n => by
    rw [mountsAt?, h]
    rfl
  have hmounted : ∀ n, (st.mountFont i name).mounted? n = (t.mountsAt? n).or (st.mounted? n) := by
    intro n
    rw [hat, mounted?, mountFont, List.lookup_cons]
    by_cases hn : i = n
    · simp [hn]
    · have hne : (n == i) = false := beq_false_of_ne (Ne.symm hn)
      rw [hne, if_neg hn]
      rfl
  refine ⟨?_, hmounted, fun hm => ?_⟩
  · rw [selects?, kind_of_mount? h]
    rfl
  · have hsymbols : (st.mountFont i name).symbolMap =
        if i = st.font then Font.SymbolMap.ofFont? name else st.symbolMap := rfl
    have hfont : (st.mountFont i name).font = st.font := rfl
    rw [Maps, hsymbols, hfont, hmounted, hat]
    split
    · rfl
    · exact hm

theorem refonts_perform (st : Interpreter) (t : Token) : st.Refonts t (st.perform t).state := by
  cases hm : t.mount? with
  | some m =>
    rw [perform_of_mount hm]
    exact refonts_mountFont hm st
  | none =>
    have hnone : ∀ n, t.mountsAt? n = none := fun n => by rw [mountsAt?, hm]; rfl
    by_cases hf : t.kind = .setFont
    · rw [perform_of_setFont hf]
      refine ⟨by rw [selects?, if_pos hf]; rfl, fun n => by rw [hnone]; rfl, fun _ => rfl⟩
    · have hkeeps := keeps_perform hf hm st
      refine ⟨by rw [selects?, if_neg hf]; exact hkeeps.font, fun n => ?_, hkeeps.maps⟩
      rw [mounted?, hkeeps.mounts, hnone]
      rfl

theorem refonts_exec (st : Interpreter) (t : Token) : st.Refonts t (st.exec t).1 := by
  obtain ⟨pending, hexec⟩ := st.exec_eq_execDirect t
  have hperform := refonts_perform st.forget t
  rw [hexec, execDirect, warn_eq]
  exact ⟨hperform.font, hperform.mounted, hperform.maps⟩

end Interpreter

namespace Device.Session
open Interpreter Token
variable {σ ε : Type}

def Step.token? : Step → Option Token
  | .exec t => some t
  | .finish => none

def commands (steps : List Step) : List Token := steps.filterMap Step.token?

structure Selects (st : Interpreter) (ts : List Token) : Prop where
  font : st.font = lastSelected ts
  mounted : ∀ n, st.mounted? n = lastMounted? n ts
  maps : st.Maps

theorem selects_initial : Selects .initial [] := ⟨rfl, fun _ => rfl, rfl⟩

theorem Selects.exec {st : Interpreter} {ts : List Token} (h : Selects st ts) (t : Token) :
    Selects (st.exec t).1 (ts ++ [t]) := by
  have hexec := refonts_exec st t
  refine ⟨?_, fun n => ?_, hexec.maps h.maps⟩
  · rw [hexec.font, h.font, lastSelected_concat]
  · rw [hexec.mounted, h.mounted, lastMounted?_concat]

theorem Selects.finish {st : Interpreter} {ts : List Token} (h : Selects st ts) :
    Selects st.finish.1 ts := by
  have hkeeps := st.keeps_finish
  refine ⟨hkeeps.font.trans h.font, fun n => ?_, hkeeps.maps h.maps⟩
  rw [mounted?, hkeeps.mounts]
  exact h.mounted n

theorem Selects.takeAll {s : Session σ} {ts : List Token} (h : Selects s.interpreter ts)
    (sink : Sink σ ε) (steps : List Step) :
    Selects (s.takeAll sink steps).interpreter (ts ++ commands steps) := by
  induction steps generalizing s ts with
  | nil =>
    rw [commands, List.filterMap_nil, List.append_nil]
    exact h
  | cons x steps ih =>
    cases x with
    | exec t =>
      have hexec : Selects (s.exec sink t).1.interpreter (ts ++ [t]) := by
        rw [exec_eq]
        exact h.exec t
      have hrest := ih hexec
      rw [List.append_assoc] at hrest
      exact hrest
    | finish =>
      have hfinish : Selects (s.finish sink).1.interpreter ts := by
        rw [finish_eq_receiveAll]
        exact h.finish
      exact ih hfinish

/-- In any order of commands and finishes the symbols shown are those of the font mounted last at
the selected position, and none if nothing is mounted there. The position is that of the last font
command, and 0 before one and for one that is malformed. -/
theorem symbolMap_of_selected (sink : Sink σ ε) (d : σ) (steps : List Step) :
    let st := (takeAll sink ⟨.initial, d⟩ steps).interpreter
    let ts := commands steps
    st.font = lastSelected ts ∧
      st.symbolMap = (lastMounted? (lastSelected ts) ts).bind Font.SymbolMap.ofFont? := by
  intro st ts
  have h : Selects st ts := Selects.takeAll (s := ⟨.initial, d⟩) selects_initial sink steps
  refine ⟨h.font, ?_⟩
  rw [← h.font, ← h.mounted]
  exact h.maps

end Device.Session
end Galley
