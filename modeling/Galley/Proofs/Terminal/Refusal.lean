import Galley.Proofs.Device.Delivery
import Galley.Proofs.Token.Cutting
import Galley.Terminal.Document
/-!
Documents that a terminal cannot show to the end. A resolution that is too fine is refused, and
what is shown is what the source before that command shows.
-/
namespace Galley

namespace Interpreter

theorem warnings_flush (st : Interpreter) : st.flush.1.warnings = st.warnings := by
  rw [flush]
  split <;> rfl

theorem warnings_endPage (st : Interpreter) : st.endPage.1.warnings = st.warnings := by
  rw [endPage]
  split <;> rfl

theorem warnings_finish (st : Interpreter) : st.finish.1.warnings = st.warnings :=
  (warnings_endPage _).trans (warnings_flush st)

end Interpreter

namespace Terminal
open Device

/-- Why the resolution that a command sets is too fine for a grid of cells. -/
def tooFine? (t : Token) : Option TooFine :=
  t.resolution?.bind fun r =>
    if Screen.maxUnitsPerInch < r.unitsPerInch then some ⟨r.unitsPerInch⟩ else none

def executed (ts : List Token) : List Token := ts.takeWhile fun t => (tooFine? t).isNone

theorem resolution?_of_tooFine? {t : Token} {e : TooFine} (h : tooFine? t = some e) :
    ∃ r, t.resolution? = some r ∧ Screen.maxUnitsPerInch < r.unitsPerInch := by
  obtain ⟨r, hr, hfine⟩ := Option.bind_eq_some_iff.mp h
  refine ⟨r, hr, ?_⟩
  by_contra hcoarse
  simp [hcoarse] at hfine

theorem receive_of_tooFine {r : Resolution} (h : Screen.maxUnitsPerInch < r.unitsPerInch)
    (s : Screen) : screen.receive s (.resolution r) = s := if_pos h

theorem receiveAll_endPage (s : Screen) (st : Interpreter) :
    screen.receiveAll s st.endPage.2 = s := by
  rw [Interpreter.endPage]
  split <;> rfl

theorem finish_screen (s : Session Screen) :
    (s.finish screen).1.device = screen.receiveAll s.device s.interpreter.flush.2 ∧
    (s.finish screen).1.interpreter.warnings = s.interpreter.warnings := by
  rw [Session.finish_eq_receiveAll]
  refine ⟨?_, s.interpreter.warnings_finish⟩
  show screen.receiveAll s.device (s.interpreter.flush.2 ++ s.interpreter.flush.1.endPage.2) = _
  rw [Sink.receiveAll, List.foldl_append]
  exact receiveAll_endPage _ _

theorem exec_of_tooFine (s : Session Screen) {t : Token} {e : TooFine} (h : tooFine? t = some e) :
    ∃ u, s.exec screen t = (u, some e) ∧ u.device = (s.finish screen).1.device ∧
      u.interpreter.warnings = (s.finish screen).1.interpreter.warnings := by
  obtain ⟨r, hr, hfine⟩ := resolution?_of_tooFine? h
  obtain ⟨hdevice, hwarnings⟩ := finish_screen s
  have hexec := Session.exec_eq screen s t
  rw [Interpreter.exec_of_resolution? hr] at hexec
  refine ⟨_, hexec.trans (Prod.ext rfl h), ?_, ?_⟩
  · show screen.receiveAll s.device (s.interpreter.flush.2 ++ [.resolution r]) = _
    rw [hdevice, Sink.receiveAll, List.foldl_append]
    exact receive_of_tooFine hfine _
  · rw [hwarnings]
    exact s.interpreter.warnings_flush

theorem feed_of_none (s : Session Screen) {ts : List Token} (h : ∀ t ∈ ts, tooFine? t = none) :
    ∃ u, s.feed screen ts = (u, none) := by
  refine ⟨_, Session.feed_of_accepted screen s fun t ht r hr d => ?_⟩
  exact Option.bind_eq_none_iff.mp (h t ht) r hr

namespace Document

theorem failure_of_none (options : Options) {ts : List Token} (h : ∀ t ∈ ts, tooFine? t = none) :
    (ofTokens options ts).failure = none := by
  obtain ⟨u, hfeed⟩ := feed_of_none ⟨.initial, .initial options.resolution options.sgr⟩ h
  rw [ofTokens, Session.run, hfeed]
  dsimp only
  rw [Session.finish_eq_receiveAll]

theorem ofTokens_of_tooFine (options : Options) {before : List Token} {t : Token} {e : TooFine}
    (hbefore : ∀ b ∈ before, tooFine? b = none) (ht : tooFine? t = some e) (after : List Token) :
    ofTokens options (before ++ t :: after) =
      { ofTokens options before with failure := some e } := by
  obtain ⟨u, hfeed⟩ := feed_of_none ⟨.initial, .initial options.resolution options.sgr⟩ hbefore
  obtain ⟨v, hexec, hdevice, hwarnings⟩ := exec_of_tooFine u ht
  have hall : Session.feed Terminal.screen ⟨.initial, .initial options.resolution options.sgr⟩
      (before ++ t :: after) = (v, some e) := by
    rw [Session.feed_append hfeed, Session.feed, hexec]
  simp only [ofTokens, Session.run, hfeed, hall, hdevice, hwarnings]

theorem screen_of_none (options : Options) {ts : List Token} (h : ∀ t ∈ ts, tooFine? t = none) :
    (ofTokens options ts).screen =
      Terminal.screen.receiveAll (.initial options.resolution options.sgr)
        (Interpreter.initial.runAll ts).2 := by
  have hrun := Session.run_of_accepted Terminal.screen
    ⟨.initial, .initial options.resolution options.sgr⟩ fun t ht r hr _ =>
      Option.bind_eq_none_iff.mp (h t ht) r hr
  rw [ofTokens, hrun]

theorem screen_ofTokens (options : Options) (ts : List Token) :
    (ofTokens options ts).screen =
      Terminal.screen.receiveAll (.initial options.resolution options.sgr)
        (Interpreter.initial.runAll (executed ts)).2 := by
  cases h : ts.findSome? tooFine? with
  | none =>
    have hall := List.findSome?_eq_none_iff.mp h
    have hexecuted : executed ts = ts :=
      List.takeWhile_eq_self_iff.mpr fun t ht => by simp [hall t ht]
    rw [hexecuted, screen_of_none options hall]
  | some e =>
    obtain ⟨before, t, after, rfl, ht, hbefore⟩ := List.findSome?_eq_some_iff.mp h
    have hexecuted : executed (before ++ t :: after) = before := by
      rw [executed, List.takeWhile_append_of_pos fun b hb => by simp [hbefore b hb],
        List.takeWhile_cons_of_neg (by simp [ht]), List.append_nil]
    rw [hexecuted, ofTokens_of_tooFine options hbefore ht]
    exact screen_of_none options hbefore

end Document

/-- A source fails to be shown just if it sets a resolution that is too fine, and the first one
that it sets is reported. It then shows the same as the source cut before that command, with the
same warnings, and so does every source that goes on differently after that command. -/
theorem failure_of_source (options : Options) (legacy : Bool) (source : String) :
    let ts := Token.tokenize legacy source
    let d := Document.ofSource options legacy source
    d.failure = ts.findSome? tooFine? ∧
    ∀ before t after, ts = before ++ t :: after → (∀ b ∈ before, tooFine? b = none) →
      tooFine? t ≠ none →
      (∃ u v, source = u ++ v ∧ u.utf8ByteSize = t.offset ∧
        Document.ofSource options legacy u = { d with failure := none }) ∧
      ∀ other, before ++ [t] <+: Token.tokenize legacy other →
        Document.ofSource options legacy other = d := by
  intro ts d
  constructor
  · show (Document.ofTokens options ts).failure = _
    cases h : ts.findSome? tooFine? with
    | none => exact Document.failure_of_none options (List.findSome?_eq_none_iff.mp h)
    | some e =>
      obtain ⟨before, t, after, hts, ht, hbefore⟩ := List.findSome?_eq_some_iff.mp h
      rw [hts, Document.ofTokens_of_tooFine options hbefore ht]
  · intro before t after hts hbefore hne
    obtain ⟨e, ht⟩ := Option.ne_none_iff_exists'.mp hne
    have hd : d = { Document.ofTokens options before with failure := some e } := by
      show Document.ofTokens options ts = _
      rw [hts, Document.ofTokens_of_tooFine options hbefore ht]
    constructor
    · obtain ⟨u, v, hsource, hsize, hcut⟩ := Token.exists_cut hts
      refine ⟨u, v, hsource, hsize, ?_⟩
      rw [hd, Document.ofSource, hcut, ← Document.failure_of_none options hbefore]
    · rintro other ⟨rest, hother⟩
      rw [List.append_assoc] at hother
      rw [hd, Document.ofSource, ← hother]
      exact Document.ofTokens_of_tooFine options hbefore ht rest

/-- Two resolutions that are too fine, after a letter that is still held back. -/
def refusedSource : String := "p1\nta\nx res 2400 1 1\nx res 3600 1 1\ntb\n"

theorem failure_of_source_refused :
    let d := Document.ofSource {} false refusedSource
    d.failure = some ⟨2400⟩ ∧
    (∃ u v, refusedSource = u ++ v ∧ u.utf8ByteSize = 6 ∧
      Document.ofSource {} false u = { d with failure := none }) ∧
    Document.ofSource {} false "p1\nta\nx res 2400 1 1\np2\ntc\n" = d := by
  intro d
  let before : List Token := [⟨.beginPage, "1", 0⟩, ⟨.textNormal, "a", 3⟩]
  let refused : Token := ⟨.deviceControl, "res 2400 1 1", 6⟩
  obtain ⟨hfailure, hsame⟩ := failure_of_source {} false refusedSource
  have hts : Token.tokenize false refusedSource =
      before ++ refused :: (Token.tokenize false refusedSource).drop 3 := by
    decide +kernel
  have hbefore : ∀ b ∈ before, tooFine? b = none := by decide +kernel
  have hrefused : tooFine? refused ≠ none := by decide +kernel
  obtain ⟨hcut, hother⟩ := hsame before refused _ hts hbefore hrefused
  refine ⟨hfailure.trans (by decide +kernel), hcut, hother _ ?_⟩
  decide +kernel

end Terminal

end Galley
