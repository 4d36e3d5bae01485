import Galley.Proofs.Device.Comments
import Galley.Proofs.Glyph.Spelling
import Galley.Proofs.Interpreter.Origins
import Galley.Proofs.Interpreter.Places
import Galley.Proofs.Token.RoundTrip
/-!
Newlines that are printed. A newline ends every operand, and no font shows one for another
character. So only the commands that give characters by their numbers print any.
-/
namespace Galley
open Device

theorem mem_of_lookup {α β : Type} [BEq α] [LawfulBEq α] {l : List (α × β)} {a : α} {b : β}
    (h : l.lookup a = some b) : (a, b) ∈ l := by
  obtain ⟨before, after, rfl, -⟩ := List.lookup_eq_some_iff.mp h
  exact List.mem_append_right before List.mem_cons_self

/-! Fonts. -/

namespace Font.SymbolMap

theorem eq_newline_of_remapChar {m : SymbolMap} {c : Char} (h : m.remapChar c = '\n') :
    c = '\n' := by
  cases m with
  | symbol =>
    have hsymbols : ∀ p ∈ symbols, p.2 ≠ '\n' := by decide
    rw [remapChar] at h
    cases hc : symbols.lookup c with
    | none => simpa [hc] using h
    | some d =>
      rw [hc] at h
      exact absurd h (hsymbols (c, d) (mem_of_lookup hc))
  | dingbats =>
    have hruns : ∀ r ∈ Font.dingbats, 10 < r.2.2 ∧ r.2.2 + (r.2.1 - r.1) < 0xD800 := by decide
    rw [remapChar] at h
    cases hc : dingbat? c.toNat with
    | none => simpa [hc] using h
    | some d =>
      obtain ⟨⟨first, last, base⟩, hfind, rfl⟩ := Option.map_eq_some_iff.mp hc
      have hrange := List.find?_some hfind
      obtain ⟨hbase, hend⟩ := hruns _ (List.mem_of_find?_eq_some hfind)
      rw [hc] at h
      simp only [Option.getD_some, Bool.and_eq_true, decide_eq_true_eq] at h hrange hbase hend
      have hvalid : (base + (c.toNat - first)).isValidChar := .inl (by omega)
      have hnumber := Text.char?_eq_some_iff.mp (if_pos hvalid)
      rw [h] at hnumber
      have hnewline : '\n'.toNat = 10 := rfl
      omega

theorem newline_not_mem_remap (m : SymbolMap) {s : String} (h : '\n' ∉ s.toList) :
    '\n' ∉ (m.remap s).toList := by
  rw [remap, String.toList_ofList, List.mem_map]
  rintro ⟨c, hc, hnewline⟩
  exact h (eq_newline_of_remapChar hnewline ▸ hc)

end Font.SymbolMap

/-! Names. -/

namespace Glyph
open Number

/-- Names that spell a text with a newline in it. -/
def NamesNewline (name : String) : Prop :=
  (∃ ws cs, name = "u" ++ .ofList (['_'].intercalate ws) ∧ List.Forall₂ Spells ws cs ∧ '\n' ∈ cs) ∨
    ∃ y, name = "char" ++ y ∧ IsNumeral 10 y.toList 10

theorem newline_mem_resolve_iff {name : String} (hname : '\n' ∉ name.toList) :
    (∃ s, resolve name = some s ∧ '\n' ∈ s.toList) ↔ NamesNewline name := by
  constructor
  · rintro ⟨s, h, hs⟩
    rw [resolve] at h
    split at h
    case h_1 t hl =>
      have hnames : ∀ p ∈ names, '\n' ∉ p.2.toList := by decide +kernel
      obtain rfl := Option.some.inj h
      exact absurd hs (hnames (name, t) (mem_of_lookup hl))
    case h_2 hl =>
      obtain hself | ⟨x, hx, hcodes⟩ | ⟨y, hy, hlatin⟩ :=
        spelled?_cases (map_ofList_eq_some_iff.mp h)
      · exact absurd (hself ▸ hs) hname
      · obtain ⟨ws, -, rfl, hws⟩ := codePoints?_eq_some_iff.mp hcodes
        refine .inl ⟨ws, s.toList, ?_, hws, hs⟩
        simp [← String.toList_inj, hx]
      · obtain ⟨n, hn, hdigits, hchar⟩ := latin1?_eq_some_iff.mp hlatin
        refine .inr ⟨.ofList y, ?_, ?_⟩
        · simp [← String.toList_inj, hy]
        · rw [hchar, List.mem_singleton] at hs
          have hvalid : n.isValidChar := .inl (by omega)
          have hnumber := Text.char?_eq_some_iff.mp (if_pos hvalid)
          rw [← hs] at hnumber
          obtain rfl : 10 = n := hnumber
          rwa [String.toList_ofList]
  · rintro (⟨ws, cs, rfl, hall, hmem⟩ | ⟨y, rfl, hy⟩)
    · have hne : ws ≠ [] := by
        rintro rfl
        cases hall
        cases hmem
      exact ⟨_, resolve_of_forall₂_spells hne hall, by rwa [String.toList_ofList]⟩
    · refine ⟨"\n", ?_, by decide⟩
      rw [resolve_char, map_ofList_eq_some_iff, latin1?_eq_some_iff]
      exact ⟨10, by decide, hy, rfl⟩

end Glyph

/-! Commands. -/

namespace Token

/-- Commands that give a newline by its number. -/
def PrintsNewline (t : Token) : Prop :=
  (t.kind = .charIndexed ∧ t.value = 10) ∨ (t.kind = .charNamed ∧ Glyph.NamesNewline t.operand)

theorem newline_not_mem_operand (legacy : Bool) (source : String) :
    ∀ t ∈ tokenize legacy source, '\n' ∉ t.operand.toList := by
  intro t ht
  rw [tokenize, Tokenizer.ofString_eq] at ht
  have hdisplay := (readsBack_of_mem legacy 0 source.toList t ht).not_mem
  have hsuffix : t.operand.toList <:+ t.display.toList := by
    rw [display]
    split
    · exact List.suffix_rfl
    · rw [String.toList_append]
      exact List.suffix_append _ _
  exact fun hmem => hdisplay (hsuffix.subset hmem)

end Token

namespace Interpreter
variable {st : Interpreter} {t : Token}

theorem newline_not_mem_remap (st : Interpreter) {s : String} (h : '\n' ∉ s.toList) :
    '\n' ∉ (st.remap s).toList := by
  rw [remap]
  split
  · exact Font.SymbolMap.newline_not_mem_remap _ h
  · exact h

theorem newline_not_mem_namedGlyph (st : Interpreter) {name : String} (hname : '\n' ∉ name.toList)
    (hn : ¬ Glyph.NamesNewline name) : ∀ x ∈ (st.namedGlyph name).calls, '\n' ∉ x.printed := by
  rw [namedGlyph]
  split
  case h_1 s hs =>
    have htext : '\n' ∉ s.toList := fun hmem =>
      hn ((Glyph.newline_mem_resolve_iff hname).mp ⟨s, hs, hmem⟩)
    refine List.forall_mem_singleton.mpr ?_
    rw [Call.printed]
    split
    · exact st.newline_not_mem_remap htext
    · exact htext
  case h_2 => exact List.forall_mem_nil _

theorem newline_not_mem_indexedGlyph (st : Interpreter) {s : List Char}
    (hn : Token.numberOf s ≠ 10) : ∀ x ∈ (st.indexedGlyph s).calls, '\n' ∉ x.printed := by
  rw [indexedGlyph]
  dsimp only
  rw [readInt_fst]
  split
  case h_1 c hc =>
    have hchar : c ≠ '\n' := by
      rintro rfl
      obtain ⟨hpos, hnumber⟩ := Option.ite_none_right_eq_some.mp hc
      have hvalue : 10 = (Token.numberOf s).toNat := Text.char?_eq_some_iff.mp hnumber
      omega
    refine List.forall_mem_singleton.mpr (st.newline_not_mem_remap ?_)
    rw [String.toList_singleton, List.mem_singleton]
    exact hchar.symm
  case h_2 => exact List.forall_mem_nil _

theorem newline_not_mem_perform (st : Interpreter) (ht : '\n' ∉ t.operand.toList)
    (hn : ¬ t.PrintsNewline) : ∀ x ∈ (st.perform t).calls, '\n' ∉ x.printed := by
  rw [Token.PrintsNewline, not_or, not_and, not_and] at hn
  have hsuffix {s : List Char} (hs : s <:+ t.operand.toList) : '\n' ∉ (String.ofList s).toList := by
    rw [String.toList_ofList]
    exact fun hmem => ht (hs.subset hmem)
  have hother := mem_kinds_perform st t
  rw [perform] at hother ⊢
  dsimp only at hother ⊢
  cases hk : t.kind <;> simp only [hk] at hother ⊢
  case charLiteral =>
    split
    · exact List.forall_mem_nil _
    · exact List.forall_mem_singleton.mpr (st.newline_not_mem_remap ht)
  case charNamed => exact st.newline_not_mem_namedGlyph ht (hn.2 hk)
  case charIndexed => exact st.newline_not_mem_indexedGlyph (hn.1 hk)
  case movePrint =>
    refine List.forall_mem_cons.mpr ⟨List.not_mem_nil, List.forall_mem_singleton.mpr ?_⟩
    exact st.newline_not_mem_remap (hsuffix (List.dropWhile_suffix _))
  case textNormal => exact List.forall_mem_singleton.mpr (st.newline_not_mem_remap ht)
  case textTracked =>
    refine List.forall_mem_singleton.mpr (st.newline_not_mem_remap (hsuffix ?_))
    refine (List.dropWhile_suffix _).trans ?_
    cases hcut : Text.cut Text.isSpace t.operand.toList with
    | none => exact List.nil_suffix
    | some p => exact Text.suffix_of_cut hcut
  all_goals
    intro x hx
    rw [Call.printed_of_kinds (hother x hx) (by simp [Call.kinds]) (by simp [Call.kinds])]
    exact List.not_mem_nil

/-! Runs. -/

def HoldsLine (st : Interpreter) : Prop := ∀ p ∈ st.pending, '\n' ∉ p.call.printed

theorem newline_not_mem_of_expand {cs : List Call}
    (h : ∀ x ∈ cs.flatMap Call.expand, '\n' ∉ x.printed) : ∀ x ∈ cs, '\n' ∉ x.printed := by
  intro x hx hmem
  rw [← x.printed_expand] at hmem
  obtain ⟨y, hy, hmem⟩ := List.mem_flatMap.mp hmem
  exact h y (List.mem_flatMap.mpr ⟨x, hx, hy⟩) hmem

theorem HoldsLine.flush (h : st.HoldsLine) : ∀ x ∈ st.flush.2, '\n' ∉ x.printed :=
  newline_not_mem_of_expand (forall_flush h)

theorem HoldsLine.exec (h : st.HoldsLine) (ht : '\n' ∉ t.operand.toList) (hn : ¬ t.PrintsNewline) :
    (∀ x ∈ (st.exec t).2, '\n' ∉ x.printed) ∧ (st.exec t).1.HoldsLine := by
  have hcalls := newline_not_mem_perform st.forget ht hn
  obtain ⟨hprinted, hheld⟩ := forall_exec (P := fun x => '\n' ∉ x.printed) h hcalls
  exact ⟨newline_not_mem_of_expand hprinted, hheld⟩

theorem newline_not_mem_endPage (st : Interpreter) : ∀ x ∈ st.endPage.2, '\n' ∉ x.printed := by
  rw [endPage]
  split
  · exact List.forall_mem_singleton.mpr List.not_mem_nil
  · exact List.forall_mem_nil _

theorem HoldsLine.runAll {ts : List Token} (h : st.HoldsLine)
    (hts : ∀ t ∈ ts, '\n' ∉ t.operand.toList ∧ ¬ t.PrintsNewline) :
    ∀ x ∈ (st.runAll ts).2, '\n' ∉ x.printed := by
  induction ts generalizing st with
  | nil =>
    have hfinish := List.forall_mem_append.mpr ⟨h.flush, newline_not_mem_endPage st.flush.1⟩
    exact hfinish
  | cons t ts ih =>
    obtain ⟨ht, hts⟩ := List.forall_mem_cons.mp hts
    obtain ⟨hcalls, hnext⟩ := h.exec ht.1 ht.2
    rw [runAll_cons]
    exact List.forall_mem_append.mpr ⟨hcalls, ih hnext hts⟩

end Interpreter
end Galley
