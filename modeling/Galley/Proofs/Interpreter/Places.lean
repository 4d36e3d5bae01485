import Galley.Interpreter.Basic
/-!
What one command does to the page, the vertical position and the named destinations of the
interpreter, and which pages it begins on the device. Text that is held back plays no part in it.
-/
namespace Galley
open Device

/-! What a command says by itself. -/

namespace Token

/-- The device number of a text without regard to blanks around it; 0 if it is malformed. -/
def numberOf (s : List Char) : Int := (Number.coordinate? (Text.trim s)).getD 0

def value (t : Token) : Int := numberOf t.operand.toList

/-- The shape of an operand that begins with the letter of a shape. -/
def shape? (t : Token) : Option Drawing :=
  match t.operand.toList with
  | [] => none
  | letter :: s => Drawing.ofLetter? letter ((Text.words s).map numberOf)

def vertical (v : Int) (t : Token) : Int :=
  match t.kind with
  | .moveAbsV => t.value
  | .moveRelV => Number.add v t.value
  | .drawing =>
    match t.shape? with
    | some d => Number.add v d.advance.2
    | none => v
  | _ => v

def scanned? (t : Token) : Option String :=
  if t.kind = .deviceControl then
    match Control.parse t.operand with
    | .escape (.exec _ code) => some code
    | .escape (.other text) => some text
    | _ => none
  else none

/-- The names of the destinations that the marks of a command set. -/
def destinations (t : Token) : List String :=
  ((t.scanned?.map Pdf.marks).getD []).filterMap Pdf.Mark.destination?

/-- The kinds of command that have to do with pages, positions or destinations. -/
def Kind.placing : List Kind := [.beginPage, .moveAbsV, .moveRelV, .drawing, .deviceControl]

theorem vertical_of_not_mem {t : Token} (h : t.kind ∉ Kind.placing) (v : Int) :
    t.vertical v = v := by
  rw [vertical]
  split <;> simp_all [Kind.placing]

theorem destinations_of_ne {t : Token} (h : t.kind ≠ .deviceControl) : t.destinations = [] := by
  rw [destinations, scanned?, if_neg h]
  rfl

end Token

def Device.Call.begun? : Call → Option Int
  | .beginPage n => some n
  | _ => none

namespace Interpreter

theorem readInt_fst (s : List Char) : (readInt s).1 = Token.numberOf s := by
  rw [readInt, Token.numberOf]
  cases Number.coordinate? (Text.trim s) <;> rfl

/-! What leaves the place alone. -/

structure Stays (st st' : Interpreter) (calls : List Call) : Prop where
  page : st'.page = st.page
  v : st'.v = st.v
  anchors : st'.anchors = st.anchors
  begun : calls.filterMap Call.begun? = []

theorem stays_warn (st : Interpreter) (t : Token) (ps : Problems) :
    st.Stays (st.warn t ps) [] := by
  rw [warn]
  split <;> exact ⟨rfl, rfl, rfl, rfl⟩

theorem stays_flush (st : Interpreter) : st.Stays st.flush.1 st.flush.2 := by
  rw [flush]
  split <;> exact ⟨rfl, rfl, rfl, rfl⟩

theorem stays_hold (st : Interpreter) (p : RunPiece) : st.Stays (st.hold p).1 (st.hold p).2 := by
  have hflush := stays_flush { st with pending := st.pending ++ [p] }
  rw [hold]
  dsimp only
  split
  · exact ⟨hflush.page, hflush.v, hflush.anchors, hflush.begun⟩
  · exact ⟨rfl, rfl, rfl, rfl⟩

theorem stays_endPage (st : Interpreter) : st.Stays st.endPage.1 st.endPage.2 := by
  rw [endPage]
  split <;> exact ⟨rfl, rfl, rfl, rfl⟩

theorem Stays.trans {a b c : Interpreter} {xs ys : List Call} (h : a.Stays b xs)
    (k : b.Stays c ys) : a.Stays c (xs ++ ys) where
  page := k.page.trans h.page
  v := k.v.trans h.v
  anchors := k.anchors.trans h.anchors
  begun := by rw [List.filterMap_append, h.begun, k.begun]; rfl

theorem stays_finish (st : Interpreter) : st.Stays st.finish.1 st.finish.2 :=
  (stays_flush st).trans (stays_endPage _)

theorem stays_namedGlyph (st : Interpreter) (name : String) :
    st.Stays (st.namedGlyph name).state (st.namedGlyph name).calls := by
  rw [namedGlyph]
  split <;> exact ⟨rfl, rfl, rfl, rfl⟩

theorem stays_indexedGlyph (st : Interpreter) (s : List Char) :
    st.Stays (st.indexedGlyph s).state (st.indexedGlyph s).calls := by
  rw [indexedGlyph]
  dsimp only
  split <;> exact ⟨rfl, rfl, rfl, rfl⟩

theorem begun_option {α : Type} {f : α → Call} (hf : ∀ x, (f x).begun? = none) (o : Option α) :
    (o.map f).toList.filterMap Call.begun? = [] := by
  cases o with
  | none => rfl
  | some x => simp [hf]

/-! Named destinations. -/

theorem anchors_takeMark (st : Interpreter) (m : Pdf.Mark) (name : String) :
    (st.takeMark m).anchors[name]? =
      if m.destination? = some name then some ⟨st.page, st.v⟩ else st.anchors[name]? := by
  rw [takeMark]
  cases m.destination? with
  | none => simp
  | some d => simp [Std.TreeMap.getElem?_insert]

theorem place_takeMark (st : Interpreter) (m : Pdf.Mark) :
    (st.takeMark m).page = st.page ∧ (st.takeMark m).v = st.v := by
  rw [takeMark]
  cases m.destination? <;> exact ⟨rfl, rfl⟩

theorem foldl_takeMark (st : Interpreter) (ms : List Pdf.Mark) :
    (ms.foldl takeMark st).page = st.page ∧ (ms.foldl takeMark st).v = st.v ∧
      ∀ name, (ms.foldl takeMark st).anchors[name]? =
        if name ∈ ms.filterMap Pdf.Mark.destination? then some ⟨st.page, st.v⟩
        else st.anchors[name]? := by
  induction ms generalizing st with
  | nil => exact ⟨rfl, rfl, fun name => by simp⟩
  | cons m ms ih =>
    obtain ⟨hpage, hv⟩ := place_takeMark st m
    obtain ⟨ihpage, ihv, ihanchors⟩ := ih (st.takeMark m)
    refine ⟨ihpage.trans hpage, ihv.trans hv, fun name => ?_⟩
    rw [List.foldl_cons, ihanchors, hpage, hv, anchors_takeMark]
    -- A later mark in the same escape sets the same place.
    by_cases hm : m.destination? = some name
    · simp [hm]
    · cases hd : m.destination? with
      | none => simp [hd]
      | some d =>
        have hne : name ≠ d := by
          rintro rfl
          exact hm hd
        simp [hd, hne, hne.symm]

/-! What a command does. -/

structure Moves (st : Interpreter) (t : Token) (st' : Interpreter) (calls : List Call) :
    Prop where
  page : st'.page = if t.kind = .beginPage then st.page + 1 else st.page
  v : st'.v = if t.kind = .beginPage then 0 else t.vertical st.v
  anchors : ∀ name, st'.anchors[name]? =
    if name ∈ t.destinations then some ⟨st.page, st.v⟩ else st.anchors[name]?
  begun : calls.filterMap Call.begun? = if t.kind = .beginPage then [t.value] else []

theorem Stays.moves {st st' : Interpreter} {calls : List Call} {t : Token}
    (h : st.Stays st' calls) (hpage : t.kind ≠ .beginPage) (hv : t.vertical st.v = st.v)
    (hd : t.destinations = []) : st.Moves t st' calls where
  page := by rw [if_neg hpage, h.page]
  v := by rw [if_neg hpage, h.v, hv]
  anchors := fun name => by rw [hd, if_neg List.not_mem_nil, h.anchors]
  begun := by rw [if_neg hpage, h.begun]

theorem Stays.moves_of_not_mem {st st' : Interpreter} {calls : List Call} {t : Token}
    (h : st.Stays st' calls) (hk : t.kind ∉ Token.Kind.placing) : st.Moves t st' calls := by
  refine h.moves ?_ (Token.vertical_of_not_mem hk _) (Token.destinations_of_ne ?_)
  all_goals
    intro heq
    simp [heq, Token.Kind.placing] at hk

theorem Stays.trans_moves {a b c : Interpreter} {xs ys : List Call} {t : Token}
    (h : a.Stays b xs) (k : b.Moves t c ys) : a.Moves t c (xs ++ ys) where
  page := by rw [k.page, h.page]
  v := by rw [k.v, h.v]
  anchors := fun name => by rw [k.anchors, h.page, h.v, h.anchors]
  begun := by rw [List.filterMap_append, h.begun, k.begun]; rfl

theorem Moves.trans_stays {a b c : Interpreter} {xs : List Call} {t : Token}
    (h : a.Moves t b xs) (k : b.Stays c []) : a.Moves t c xs where
  page := k.page.trans h.page
  v := k.v.trans h.v
  anchors := fun name => by rw [k.anchors, h.anchors]
  begun := h.begun

theorem moves_drawing {t : Token} (hk : t.kind = .drawing) (st : Interpreter) :
    st.Moves t (st.drawing t.operand.toList).state (st.drawing t.operand.toList).calls := by
  have hpage : t.kind ≠ .beginPage := by simp [hk]
  have hd : t.destinations = [] := Token.destinations_of_ne (by simp [hk])
  have hnone : ∀ {st' calls}, t.shape? = none → st.Stays st' calls → st.Moves t st' calls :=
    fun hs h => h.moves hpage (by simp [Token.vertical, hk, hs]) hd
  cases ho : t.operand.toList with
  | nil => exact hnone (by rw [Token.shape?, ho]) ⟨rfl, rfl, rfl, rfl⟩
  | cons letter s =>
    have hshape : t.shape? = Drawing.ofLetter? letter ((Text.words s).map Token.numberOf) := by
      rw [Token.shape?, ho]
    unfold drawing
    split
    case h_1 heq => exact absurd heq (by simp)
    case h_2 heq =>
      obtain ⟨rfl, rfl⟩ := List.cons.inj heq
      exact hnone hshape ⟨rfl, rfl, rfl, rfl⟩
    case h_3 heq =>
      obtain ⟨rfl, rfl⟩ := List.cons.inj heq
      exact hnone hshape ⟨rfl, rfl, rfl, begun_option (fun _ => rfl) _⟩
    case h_4 heq =>
      obtain ⟨rfl, rfl⟩ := List.cons.inj heq
      have hargs : (readAll readInt (Text.words s)).1 = (Text.words s).map Token.numberOf := by
        simp [readAll, readInt_fst]
      rw [drawShape]
      dsimp only
      rw [hargs, ← hshape]
      cases hs : t.shape? with
      | none => exact hnone hs ⟨rfl, rfl, rfl, rfl⟩
      | some d =>
        refine ⟨by rw [if_neg hpage], ?_, fun name => by simp [hd], by simp [hpage, Call.begun?]⟩
        simp [Token.vertical, hk, hs]

theorem moves_control {t : Token} (hk : t.kind = .deviceControl) (st : Interpreter) :
    st.Moves t (st.control (Control.parse t.operand)).1
      (st.control (Control.parse t.operand)).2 := by
  have hpage : t.kind ≠ .beginPage := by simp [hk]
  have hv : ∀ v, t.vertical v = v := fun v => by simp [Token.vertical, hk]
  have hstays : ∀ {st' calls}, t.scanned? = none → st.Stays st' calls → st.Moves t st' calls :=
    fun hs h => h.moves hpage (hv _) (by simp [Token.destinations, hs])
  have hmarks : ∀ {text calls}, t.scanned? = some text → calls.filterMap Call.begun? = [] →
      st.Moves t (st.takeMarks text) calls := by
    intro text calls hs hcalls
    obtain ⟨hp, hvert, hanchors⟩ := foldl_takeMark st (Pdf.marks text)
    have hd : t.destinations = (Pdf.marks text).filterMap Pdf.Mark.destination? := by
      simp [Token.destinations, hs]
    refine ⟨?_, ?_, fun name => ?_, ?_⟩
    · rw [if_neg hpage, takeMarks, hp]
    · rw [if_neg hpage, takeMarks, hvert, hv]
    · rw [takeMarks, hanchors, hd]
    · rw [if_neg hpage, hcalls]
  have hscanned : t.scanned? = match Control.parse t.operand with
      | .escape (.exec _ code) => some code
      | .escape (.other text) => some text
      | _ => none := by rw [Token.scanned?, if_pos hk]
  cases hc : Control.parse t.operand with
  | stop => exact hstays (by rw [hscanned, hc]) (stays_endPage st)
  | escape e =>
    cases e with
    | exec s code =>
      refine hmarks (by rw [hscanned, hc]) ?_
      rw [control, escape, List.filterMap_append, List.filterMap_append, begun_option fun _ => rfl,
        begun_option fun _ => rfl, begun_option fun _ => rfl]
      rfl
    | other text => exact hmarks (by rw [hscanned, hc]) rfl
    | _ => exact hstays (by rw [hscanned, hc]) ⟨rfl, rfl, rfl, rfl⟩
  | _ => exact hstays (by rw [hscanned, hc]) ⟨rfl, rfl, rfl, rfl⟩

theorem moves_perform (st : Interpreter) (t : Token) :
    st.Moves t (st.perform t).state (st.perform t).calls := by
  have hd : t.kind ≠ .deviceControl → t.destinations = [] := Token.destinations_of_ne
  have hother : ∀ {st' calls}, t.kind ∉ Token.Kind.placing → st.Stays st' calls →
      st.Moves t st' calls := fun hk h => h.moves_of_not_mem hk
  rw [perform]
  cases hk : t.kind <;> dsimp only
  case beginPage =>
    refine ⟨by simp [hk, Effect.ofPair, beginPage], by simp [hk, Effect.ofPair, beginPage],
      fun name => by simp [hd, hk, Effect.ofPair, beginPage], ?_⟩
    rw [if_pos hk, Token.value, ← readInt_fst]
    simp only [Effect.ofPair, beginPage]
    split <;> rfl
  case moveAbsV =>
    exact ⟨by simp [hk], by simp [hk, Token.vertical, Token.value, readInt_fst],
      fun name => by simp [hd, hk], by simp [hk, Call.begun?]⟩
  case moveRelV =>
    exact ⟨by simp [hk], by simp [hk, Token.vertical, Token.value, readInt_fst],
      fun name => by simp [hd, hk], by simp [hk, Call.begun?]⟩
  case drawing => exact moves_drawing hk st
  case deviceControl => exact moves_control hk st
  case charNamed => exact hother (by simp [hk, Token.Kind.placing]) (stays_namedGlyph st _)
  case charIndexed => exact hother (by simp [hk, Token.Kind.placing]) (stays_indexedGlyph st _)
  case charLiteral =>
    refine hother (by simp [hk, Token.Kind.placing]) ⟨rfl, rfl, rfl, ?_⟩
    split <;> rfl
  case setColour =>
    exact hother (by simp [hk, Token.Kind.placing])
      ⟨rfl, rfl, rfl, begun_option (fun _ => rfl) _⟩
  all_goals
    refine hother (by simp [hk, Token.Kind.placing]) ?_
    constructor <;> simp [selectFont, movePrint, endOfLine, trackedText, Call.begun?]

theorem not_mem_placing_of_piece? {st : Interpreter} {t : Token} {q : RunPiece × Problems}
    (h : st.piece? t = some q) : t.kind ∉ Token.Kind.placing := by
  rw [piece?] at h
  split at h
  case isTrue hk => simp [hk, Token.Kind.placing]
  case isFalse =>
    split at h
    · exact absurd h (by simp)
    · split at h <;> simp_all [Token.Kind.placing]

theorem calls_exec_of_piece?_eq_none {st : Interpreter} {t : Token} (h : st.piece? t = none) :
    (st.exec t).2 = st.flush.2 ++ (st.flush.1.perform t).calls := by
  rw [exec, h]

theorem moves_exec (st : Interpreter) (t : Token) : st.Moves t (st.exec t).1 (st.exec t).2 := by
  rw [exec]
  cases hp : st.piece? t with
  | some q =>
    obtain ⟨p, problems⟩ := q
    exact ((stays_warn st t problems).trans (stays_hold (st.warn t problems) p)).moves_of_not_mem
      (not_mem_placing_of_piece? hp)
  | none =>
    exact (stays_flush st).trans_moves ((moves_perform st.flush.1 t).trans_stays (stays_warn _ t _))

theorem page_execAll (st : Interpreter) (ts : List Token) :
    (st.execAll ts).1.page = st.page + ts.countP (·.kind = .beginPage) := by
  induction ts generalizing st with
  | nil => rfl
  | cons t ts ih =>
    have ht := (st.moves_exec t).page
    rw [execAll, ih, ht, List.countP_cons]
    by_cases hk : t.kind = .beginPage
    · simp only [hk, if_true, decide_true]
      omega
    · simp [hk]

theorem page_runAll (st : Interpreter) (ts : List Token) :
    (st.runAll ts).1.page = st.page + ts.countP (·.kind = .beginPage) := by
  rw [← page_execAll]
  exact (stays_finish _).page

end Interpreter

end Galley
