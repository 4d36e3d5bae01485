import Galley.Proofs.Canvas.Pages
/-!
Named destinations. A destination is on the page that holds the last command that sets it, at the
vertical position to which the commands before it on that page lead.
-/
namespace Galley.Canvas

/-! The last command that sets a destination. -/

/-- The place of the last command, in sections with the latest first, that sets a destination. -/
inductive Placed (name : String) : List Section → Anchor → Prop
  | here {n : Int} {before after : List Token} {t : Token} {ss : List Section}
      (ht : name ∈ t.destinations) (hafter : ∀ u ∈ after, name ∉ u.destinations) :
      Placed name ((n, before ++ t :: after) :: ss) ⟨ss.length, before.foldl Token.vertical 0⟩
  | earlier {s : Section} {ss : List Section} {a : Anchor}
      (hs : ∀ u ∈ s.2, name ∉ u.destinations) (h : Placed name ss a) : Placed name (s :: ss) a

theorem Placed.extend {name : String} {n : Int} {us : List Token} {ss : List Section} {a : Anchor}
    (h : Placed name ((n, us) :: ss) a) {t : Token} (ht : name ∉ t.destinations) :
    Placed name ((n, us ++ [t]) :: ss) a := by
  have hlast : ∀ u ∈ [t], name ∉ u.destinations := List.forall_mem_singleton.mpr ht
  cases h with
  | here hset hafter =>
    rw [List.append_assoc, List.cons_append]
    exact .here hset (List.forall_mem_append.mpr ⟨hafter, hlast⟩)
  | earlier hs h => exact .earlier (List.forall_mem_append.mpr ⟨hs, hlast⟩) h

theorem Placed.exists_mem {name : String} {ss : List Section} {a : Anchor}
    (h : Placed name ss a) : ∃ s ∈ ss, ∃ t ∈ s.2, name ∈ t.destinations := by
  induction h with
  | @here n before after t ss ht hafter =>
    exact ⟨_, List.mem_cons_self, t, List.mem_append_right before List.mem_cons_self, ht⟩
  | earlier hs h ih =>
    obtain ⟨s, hs, t, ht, hname⟩ := ih
    exact ⟨s, List.mem_cons_of_mem _ hs, t, ht, hname⟩

theorem Placed.exists_section {name : String} {ss : List Section} {a : Anchor}
    (h : Placed name ss a) :
    ∃ n before t after, ss.reverse[a.page]? = some (n, before ++ t :: after) ∧
      name ∈ t.destinations ∧ a.v = before.foldl Token.vertical 0 ∧
      (∀ u ∈ after, name ∉ u.destinations) ∧
      ∀ s ∈ ss.reverse.drop (a.page + 1), ∀ u ∈ s.2, name ∉ u.destinations := by
  induction h with
  | @here n before after t ss ht hafter =>
    refine ⟨n, before, t, after, by simp, ht, rfl, hafter, ?_⟩
    rw [List.drop_eq_nil_of_le (by simp)]
    simp
  | @earlier s ss a hs h ih =>
    obtain ⟨n, before, t, after, hsection, ht, hv, hafter, hlater⟩ := ih
    obtain ⟨hlt, -⟩ := List.getElem?_eq_some_iff.mp hsection
    refine ⟨n, before, t, after, ?_, ht, hv, hafter, ?_⟩
    · rwa [List.reverse_cons, List.getElem?_append_left hlt]
    · rw [List.reverse_cons, List.drop_append_of_le_length hlt]
      exact List.forall_mem_append.mpr ⟨hlater, List.forall_mem_singleton.mpr hs⟩

theorem Placed.exists_page {name : String} {ss : List Section} {a : Anchor} {pages : List Page}
    (h : Placed name ss a) (hss : pages.map Page.section = ss.reverse) :
    ∃ page before t after, pages[a.page]? = some page ∧ page.tokens = before ++ t :: after ∧
      name ∈ t.destinations ∧ a.v = before.foldl Token.vertical 0 ∧
      (∀ u ∈ after, name ∉ u.destinations) ∧
      ∀ later ∈ pages.drop (a.page + 1), ∀ u ∈ later.tokens, name ∉ u.destinations := by
  obtain ⟨n, before, t, after, hsection, ht, hv, hafter, hlater⟩ := h.exists_section
  rw [← hss, List.getElem?_map, Option.map_eq_some_iff] at hsection
  obtain ⟨page, hpage, hsection⟩ := hsection
  refine ⟨page, before, t, after, hpage, congrArg Prod.snd hsection, ht, hv, hafter, ?_⟩
  intro later hmem
  rw [← hss, ← List.map_drop] at hlater
  exact hlater later.section (List.mem_map_of_mem hmem)

/-! The interpreter along sections. -/

structure Tracks (st : Interpreter) (ss : List Section) : Prop where
  page : st.page + 1 = ss.length
  v : ∀ s ∈ ss.head?, st.v = s.2.foldl Token.vertical 0
  placed : ∀ (name : String) (a : Anchor), st.anchors[name]? = some a → Placed name ss a
  missing : ∀ name : String, st.anchors[name]? = none →
    ∀ s ∈ ss, ∀ t ∈ s.2, name ∉ t.destinations

theorem tracks_initial : Tracks .initial [(0, [])] where
  page := rfl
  v := by simp [Interpreter.initial]
  placed := by simp [Interpreter.initial]
  missing := by simp

theorem Tracks.beginPage {st st' : Interpreter} {t : Token} {calls : List Device.Call}
    {ss : List Section} (h : Tracks st ss) (hm : st.Moves t st' calls) (ht : t.kind = .beginPage) :
    Tracks st' ((t.value, [t]) :: ss) := by
  have hd : t.destinations = [] := Token.destinations_of_ne (by simp [ht])
  have hanchors : ∀ name : String, st'.anchors[name]? = st.anchors[name]? := by
    intro name
    rw [hm.anchors, hd, if_neg List.not_mem_nil]
  refine ⟨?_, ?_, fun name a ha => ?_, fun name ha s hs => ?_⟩
  · rw [hm.page, if_pos ht, h.page, List.length_cons]
  · simp [hm.v, ht, Token.vertical]
  · rw [hanchors] at ha
    exact .earlier (by simp [hd]) (h.placed name a ha)
  · rw [hanchors] at ha
    obtain rfl | hs := List.mem_cons.mp hs
    · simp [hd]
    · exact h.missing name ha s hs

theorem Tracks.extend {st st' : Interpreter} {t : Token} {calls : List Device.Call} {n : Int}
    {us : List Token} {ss : List Section} (h : Tracks st ((n, us) :: ss))
    (hm : st.Moves t st' calls) (ht : t.kind ≠ .beginPage) :
    Tracks st' ((n, us ++ [t]) :: ss) := by
  have hpage : st.page = ss.length := Nat.succ.inj h.page
  have hv : st.v = us.foldl Token.vertical 0 := h.v (n, us) rfl
  refine ⟨?_, ?_, fun name a ha => ?_, fun name ha s hs => ?_⟩
  · rw [hm.page, if_neg ht, hpage, List.length_cons]
  · simp [hm.v, ht, hv]
  · rw [hm.anchors] at ha
    split at ha
    case isTrue hd =>
      obtain rfl := Option.some.inj ha
      rw [hpage, hv]
      exact .here hd (by simp)
    case isFalse hd => exact (h.placed name a ha).extend hd
  · rw [hm.anchors] at ha
    split at ha
    case isTrue hd => exact absurd ha (by simp)
    case isFalse hd =>
      have hmissing := h.missing name ha
      obtain rfl | hs := List.mem_cons.mp hs
      · exact List.forall_mem_append.mpr
          ⟨hmissing (n, us) List.mem_cons_self, List.forall_mem_singleton.mpr hd⟩
      · exact hmissing s (List.mem_cons_of_mem _ hs)

theorem Tracks.assign {st : Interpreter} {ss : List Section} (h : Tracks st ss) (t : Token) :
    Tracks (st.exec t).1 (assign ss t) := by
  have hm := st.moves_exec t
  cases ss with
  | nil => exact absurd h.page (by simp)
  | cons s ss =>
    rw [Canvas.assign]
    split
    case isTrue ht => exact h.beginPage hm ht
    case isFalse ht => exact h.extend hm ht

theorem Tracks.execAll {st : Interpreter} {ss : List Section} (h : Tracks st ss)
    (ts : List Token) : Tracks (st.execAll ts).1 (ts.foldl Canvas.assign ss) := by
  induction ts generalizing st ss with
  | nil => exact h
  | cons t ts ih => exact ih (h.assign t)

theorem Tracks.mem_anchors_iff {st : Interpreter} {ts : List Token} {ss : List Section}
    (h : Tracks st ss) (hd : Divided ts ss) (name : String) :
    name ∈ st.anchors ↔ ∃ t ∈ ts, name ∈ t.destinations := by
  rw [Std.TreeMap.mem_iff_isSome_getElem?, ← hd.flatMap_reverse]
  cases ha : st.anchors[name]? with
  | some a =>
    obtain ⟨s, hs, t, ht, hname⟩ := (h.placed name a ha).exists_mem
    have hmem : t ∈ ss.reverse.flatMap (·.2) :=
      List.mem_flatMap.mpr ⟨s, List.mem_reverse.mpr hs, ht⟩
    exact ⟨fun _ => ⟨t, hmem, hname⟩, fun _ => rfl⟩
  | none =>
    refine ⟨fun h => absurd h (by simp), fun ⟨t, ht, hname⟩ => ?_⟩
    obtain ⟨s, hs, ht⟩ := List.mem_flatMap.mp ht
    exact absurd hname (h.missing name ha s (List.mem_reverse.mp hs) t ht)

theorem anchors_ofTokens (options : Options) (ts : List Token) :
    (Document.ofTokens options ts).anchors = (Interpreter.initial.execAll ts).1.anchors := by
  rw [← paginate_fst _ (.initial options)]
  exact (Interpreter.stays_finish _).anchors

/-- A document has exactly the destinations that its escapes set. The last escape to set one is on
the page that the destination names, counted from 1, or before the first page if that is 0, and the
vertical moves before it on that page lead to the position of the destination. -/
theorem anchors_of_source (options : Options) (legacy : Bool) (source : String) (name : String) :
    let d := Document.ofSource options legacy source
    (name ∈ d.anchors ↔ ∃ t ∈ Token.tokenize legacy source, name ∈ t.destinations) ∧
    ∃ prologue, d.prologue = some prologue ∧
      ∀ a, d.anchors[name]? = some a →
        a.page ≤ d.pages.length ∧
        ∃ page before t after, (prologue :: d.pages)[a.page]? = some page ∧
          page.tokens = before ++ t :: after ∧ name ∈ t.destinations ∧
          a.v = before.foldl Token.vertical 0 ∧
          (∀ u ∈ after, name ∉ u.destinations) ∧
          ∀ later ∈ d.pages.drop a.page, ∀ u ∈ later.tokens, name ∉ u.destinations := by
  intro d
  generalize hts : Token.tokenize legacy source = ts
  have hd : d = Document.ofTokens options ts := by rw [← hts]; rfl
  have htracks := tracks_initial.execAll ts
  have hanchors := anchors_ofTokens options ts
  obtain ⟨prologue, hprologue, hsections⟩ := sections_ofTokens options ts
  rw [← hd] at hanchors hprologue hsections
  rw [hanchors]
  refine ⟨htracks.mem_anchors_iff (divided_nil.foldl_assign ts) name, prologue, hprologue, ?_⟩
  intro a ha
  obtain ⟨page, before, t, after, hpage, hrest⟩ :=
    (htracks.placed name a ha).exists_page hsections
  obtain ⟨hlt, -⟩ := List.getElem?_eq_some_iff.mp hpage
  exact ⟨Nat.le_of_lt_succ hlt, page, before, t, after, hpage, hrest⟩

/-- A destination that is set on the first page and again on the second. -/
def movedSource : String :=
  "p1\nV40\nx X ps:exec [/Dest /here /DEST pdfmark\n" ++
    "p2\nV100\nv20\nx X ps:exec [/Dest /here /DEST pdfmark\nv7\n"

theorem anchors_of_source_moved :
    let d := Document.ofSource {} false movedSource
    d.anchors["here"]? = some ⟨2, 120⟩ ∧ "there" ∉ d.anchors ∧
    ∃ page before t after, d.pages[1]? = some page ∧ page.tokens = before ++ t :: after ∧
      "here" ∈ t.destinations ∧ before.foldl Token.vertical 0 = 120 ∧
      ∀ u ∈ after, "here" ∉ u.destinations := by
  intro d
  have hhere : d.anchors["here"]? = some ⟨2, 120⟩ := by decide +kernel
  have hthere : ¬ ∃ t ∈ Token.tokenize false movedSource, "there" ∈ t.destinations := by
    decide +kernel
  have hnowhere := (anchors_of_source {} false movedSource "there").1
  obtain ⟨-, prologue, -, hplaced⟩ := anchors_of_source {} false movedSource "here"
  obtain ⟨-, page, before, t, after, hpage, htokens, ht, hv, hafter, -⟩ := hplaced _ hhere
  exact ⟨hhere, mt hnowhere.mp hthere, page, before, t, after, hpage, htokens, ht, hv.symm, hafter⟩

end Galley.Canvas
