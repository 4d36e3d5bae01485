import Galley.Proofs.Interpreter.Places
/-!
What calls tell a device about pages and the vertical position. The interpreter is where its own
calls lead: no page begins or ends out of turn, and only a resolution control asks for one.
-/
namespace Galley

namespace Device

/-- What a device can know from the calls that it gets. -/
structure Place where
  page : Nat
  inPage : Bool
  v : Int

namespace Place

/-- The place after a call. A page cannot begin within a page, nor end outside of one. -/
def after? (p : Place) : Call → Option Place
  | .beginPage _ => if p.inPage then none else some ⟨p.page + 1, true, 0⟩
  | .endPage => if p.inPage then some { p with inPage := false } else none
  | .moveToV v => some { p with v := v }
  | .moveByV dv => some { p with v := Number.add p.v dv }
  | .draw d => some { p with v := Number.add p.v d.advance.2 }
  | _ => some p

def afterAll? (p : Place) (cs : List Call) : Option Place := cs.foldlM after? p

theorem afterAll?_append (p : Place) (cs ds : List Call) :
    p.afterAll? (cs ++ ds) = (p.afterAll? cs).bind (·.afterAll? ds) := List.foldlM_append

end Place

def Call.resolution? : Call → Option Resolution
  | .resolution r => some r
  | _ => none

/-- A call that has to do neither with the place nor with the resolution. -/
def Call.IsStill (c : Call) : Prop := (∀ p : Place, p.after? c = some p) ∧ c.resolution? = none

theorem Place.afterAll?_of_still {cs : List Call} (h : ∀ c ∈ cs, c.IsStill) (p : Place) :
    p.afterAll? cs = some p := by
  induction cs with
  | nil => rfl
  | cons c cs ih =>
    obtain ⟨hc, hcs⟩ := List.forall_mem_cons.mp h
    rw [afterAll?, List.foldlM_cons, hc.1]
    exact ih hcs

end Device

def Token.resolution? (t : Token) : Option Resolution :=
  if t.kind = .deviceControl then
    match Control.parse t.operand with
    | .resolution r => some r
    | _ => none
  else none

theorem Token.resolution?_of_ne {t : Token} (h : t.kind ≠ .deviceControl) : t.resolution? = none :=
  if_neg h

theorem Token.resolution?_eq_some {t : Token} {r : Resolution} :
    t.resolution? = some r ↔ t.kind = .deviceControl ∧ Control.parse t.operand = .resolution r := by
  rw [resolution?]
  split
  case isTrue hk =>
    cases hc : Control.parse t.operand <;> simp [hk]
  case isFalse hk => simp [hk]

namespace Interpreter
open Device

def place (st : Interpreter) : Place := ⟨st.page, st.inPage, st.v⟩

/-- Calls that lead from the place of a state to that of another, and the only resolution that they
ask for. -/
structure Leads (st st' : Interpreter) (calls : List Call) (asked : Option Resolution) : Prop where
  place : st.place.afterAll? calls = some st'.place
  asked : calls.filterMap Call.resolution? = asked.toList

theorem leads_of_still {st st' : Interpreter} {calls : List Call} (hplace : st'.place = st.place)
    (h : ∀ c ∈ calls, c.IsStill) : st.Leads st' calls none where
  place := by rw [Place.afterAll?_of_still h, hplace]
  asked := List.filterMap_eq_nil_iff.mpr fun c hc => (h c hc).2

theorem Leads.trans {a b c : Interpreter} {xs ys : List Call} {asked : Option Resolution}
    (h : a.Leads b xs none) (k : b.Leads c ys asked) : a.Leads c (xs ++ ys) asked where
  place := by rw [Place.afterAll?_append, h.place, Option.bind_some, k.place]
  asked := by rw [List.filterMap_append, h.asked, k.asked]; rfl

theorem place_takeMarks (st : Interpreter) (text : String) :
    (st.takeMarks text).place = st.place := by
  refine List.foldlRecOn (motive := fun u : Interpreter => u.place = st.place) _ _ rfl fun u hu m _ => ?_
  rw [← hu, takeMark]
  cases m.destination? <;> rfl

theorem leads_warn (st : Interpreter) (t : Token) (ps : Problems) :
    st.Leads (st.warn t ps) [] none := by
  rw [warn]
  split <;> exact ⟨rfl, rfl⟩

theorem leads_flush (st : Interpreter) : st.Leads st.flush.1 st.flush.2 none := by
  rw [flush]
  split <;> exact ⟨rfl, rfl⟩

theorem leads_hold (st : Interpreter) (p : RunPiece) :
    st.Leads (st.hold p).1 (st.hold p).2 none := by
  have hflush := leads_flush { st with pending := st.pending ++ [p] }
  rw [hold]
  dsimp only
  split
  · exact ⟨hflush.place, hflush.asked⟩
  · exact ⟨rfl, rfl⟩

theorem leads_beginPage (st : Interpreter) (n : Int) :
    st.Leads (st.beginPage n).1 (st.beginPage n).2 none := by
  cases h : st.inPage <;> constructor <;>
    simp [beginPage, h, Place.afterAll?, Place.after?, place, Call.resolution?]

theorem leads_endPage (st : Interpreter) : st.Leads st.endPage.1 st.endPage.2 none := by
  cases h : st.inPage <;> constructor <;>
    simp [endPage, h, Place.afterAll?, Place.after?, place, Call.resolution?]

theorem leads_finish (st : Interpreter) : st.Leads st.finish.1 st.finish.2 none :=
  (leads_flush st).trans (leads_endPage _)

theorem leads_namedGlyph (st : Interpreter) (name : String) :
    st.Leads (st.namedGlyph name).state (st.namedGlyph name).calls none := by
  rw [namedGlyph]
  split <;> exact ⟨rfl, rfl⟩

theorem leads_indexedGlyph (st : Interpreter) (s : List Char) :
    st.Leads (st.indexedGlyph s).state (st.indexedGlyph s).calls none := by
  rw [indexedGlyph]
  dsimp only
  split <;> exact ⟨rfl, rfl⟩

theorem leads_drawing (st : Interpreter) (s : List Char) :
    st.Leads (st.drawing s).state (st.drawing s).calls none := by
  unfold drawing
  split
  case h_4 letter s =>
    rw [drawShape]
    dsimp only
    split <;> exact ⟨rfl, rfl⟩
  all_goals exact leads_of_still rfl (by simp [Call.IsStill, Place.after?, Call.resolution?])

theorem leads_escape (st : Interpreter) (e : Escape) :
    st.Leads (st.escape e).1 (st.escape e).2 none := by
  have hplace : (st.escape e).1.place = st.place := by
    cases e
    case exec s code => exact place_takeMarks st code
    case other text => exact place_takeMarks st text
    all_goals rfl
  refine leads_of_still hplace ?_
  cases e <;> simp [escape, Call.IsStill, Place.after?, Call.resolution?, or_imp, forall_and]

theorem leads_control {t : Token} (hk : t.kind = .deviceControl) (st : Interpreter) :
    st.Leads (st.control (Control.parse t.operand)).1 (st.control (Control.parse t.operand)).2
      t.resolution? := by
  have hasked : ∀ c, Control.parse t.operand = c → (∀ r, c ≠ .resolution r) →
      t.resolution? = none := by
    intro c hc hr
    rw [Option.eq_none_iff_forall_ne_some]
    intro r h
    exact hr r (hc.symm.trans (Token.resolution?_eq_some.mp h).2)
  cases hc : Control.parse t.operand
  case resolution r =>
    rw [Token.resolution?_eq_some.mpr ⟨hk, hc⟩]
    exact ⟨rfl, rfl⟩
  all_goals rw [hasked _ hc (by simp)]
  case stop => exact leads_endPage st
  case escape e => exact leads_escape st e
  all_goals exact ⟨rfl, rfl⟩

theorem leads_perform (st : Interpreter) (t : Token) :
    st.Leads (st.perform t).state (st.perform t).calls t.resolution? := by
  by_cases hk : t.kind = .deviceControl
  · have hperform : st.perform t = .ofPair (st.control (Control.parse t.operand)) [] := by
      simp only [perform, hk]
    rw [hperform]
    exact leads_control hk st
  rw [Token.resolution?_of_ne hk, perform]
  cases hkind : t.kind
  case beginPage => exact leads_beginPage st _
  case moveAbsV => exact ⟨rfl, rfl⟩
  case moveRelV => exact ⟨rfl, rfl⟩
  case charNamed => exact leads_namedGlyph st _
  case charIndexed => exact leads_indexedGlyph st _
  case drawing => exact leads_drawing st _
  case deviceControl => exact absurd hkind hk
  all_goals
    refine leads_of_still rfl ?_
    simp [selectFont, movePrint, endOfLine, trackedText, Call.IsStill, Place.after?,
      Call.resolution?, or_imp, forall_and]

theorem leads_exec (st : Interpreter) (t : Token) :
    st.Leads (st.exec t).1 (st.exec t).2 t.resolution? := by
  rw [exec]
  cases hp : st.piece? t with
  | some q =>
    obtain ⟨p, problems⟩ := q
    have hk : t.kind ≠ .deviceControl := by
      intro heq
      simpa [heq, Token.Kind.placing] using not_mem_placing_of_piece? hp
    rw [Token.resolution?_of_ne hk]
    exact (leads_warn st t problems).trans (leads_hold (st.warn t problems) p)
  | none =>
    have hperform := leads_perform st.flush.1 t
    refine (leads_flush st).trans ⟨?_, hperform.asked⟩
    rw [hperform.place]
    exact (leads_warn _ t _).place

theorem exec_of_resolution? {t : Token} {r : Resolution} (h : t.resolution? = some r)
    (st : Interpreter) :
    st.exec t = ({ st.flush.1 with resolution := r }, st.flush.2 ++ [.resolution r]) := by
  obtain ⟨hk, hc⟩ := Token.resolution?_eq_some.mp h
  have hp : st.piece? t = none := by simp [piece?, hk]
  rw [exec, hp]
  simp [perform, hk, hc, control, Effect.ofPair, warn]

end Interpreter

end Galley
