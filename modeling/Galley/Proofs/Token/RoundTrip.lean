import Galley.CommandLine.Run
import Galley.Proofs.Token.Splitting
/-! Tokens written out one to a line are read back as they were. -/
namespace Galley.Token
open Text
open CommandLine (lines)

/-! Operands that a state takes in, up to the end of a line. -/

theorem action_endOfLine (legacy : Bool) {s : State} (hs : s ≠ .start) :
    action legacy s .endOfLine = .emit := by
  cases s
  case start => exact absurd rfl hs
  all_goals rfl

theorem goto_ne_start {legacy : Bool} {s s' : State} {k : Class} (hs : s ≠ .start)
    (h : action legacy s k = .goto s') : s' ≠ .start := by
  obtain ⟨u, hu, ha⟩ | ha | ha := action_within legacy hs k
  · obtain rfl := Action.goto.inj (h.symm.trans ha)
    exact hu
  · simp [ha] at h
  · simp [ha] at h

theorem State.consume_line {legacy : Bool} {s : State} {q : List Char} (hs : s ≠ .start)
    (h : s.Fits legacy q) (r : List Char) :
    s.consume legacy (q ++ '\n' :: r) = (q, '\n' :: r) := by
  induction q generalizing s with
  | nil => rw [List.nil_append, consume, classify_eq_endOfLine.mpr rfl, action_endOfLine legacy hs]
  | cons c q ih =>
    rw [List.cons_append, consume]
    obtain ⟨s', ha, hfits⟩ | ⟨ha, rfl⟩ := fits_cons.mp h
    · rw [ha]
      simp only [ih (goto_ne_start hs ha) hfits]
    · rw [ha]
      rfl

theorem State.not_mem_of_fits {legacy : Bool} {s : State} {q : List Char} (hs : s ≠ .start)
    (h : s.Fits legacy q) : '\n' ∉ q := by
  induction q generalizing s with
  | nil => exact List.not_mem_nil
  | cons c q ih =>
    have hc : '\n' ≠ c := by
      rintro rfl
      rw [fits_cons, classify_eq_endOfLine.mpr rfl, action_endOfLine legacy hs] at h
      simp at h
    rw [List.mem_cons, not_or]
    obtain ⟨s', ha, hfits⟩ | ⟨ha, rfl⟩ := fits_cons.mp h
    · exact ⟨hc, ih (goto_ne_start hs ha) hfits⟩
    · exact ⟨hc, List.not_mem_nil⟩

theorem State.fits_of_prefix {legacy : Bool} {s : State} {q r : List Char} (hq : q <+: r)
    (h : s.Fits legacy r) : s.Fits legacy q := by
  induction q generalizing s r with
  | nil => trivial
  | cons c q ih =>
    obtain ⟨t, rfl⟩ := hq
    obtain ⟨s', ha, hfits⟩ | ⟨ha, hnil⟩ := fits_cons.mp h
    · exact fits_cons.mpr (.inl ⟨s', ha, ih (List.prefix_append q t) hfits⟩)
    · exact fits_cons.mpr (.inr ⟨ha, (List.append_eq_nil_iff.mp hnil).1⟩)

/-! Trimmed operands. -/

theorem goto_of_blank {legacy : Bool} {s s' : State} {k : Class} (hs : s ≠ .start)
    (he : s ≠ .eolFirst) (hd : k ≠ .digit) (hn : k ≠ .sign) (h : action legacy s k = .goto s') :
    s' = s := by
  cases legacy <;> unfold action at h <;> split at h <;> simp_all

theorem State.fits_trimStart {legacy : Bool} {s : State} {q : List Char} (hs : s ≠ .start)
    (he : s ≠ .eolFirst) (h : s.Fits legacy q) : s.Fits legacy (trimStart q) := by
  induction q with
  | nil => trivial
  | cons c q ih =>
    cases hc : isSpace c with
    | false => rwa [trimStart_cons_of_not_space q hc]
    | true =>
      rw [trimStart_cons_space q hc]
      obtain ⟨s', ha, hfits⟩ | ⟨ha, rfl⟩ := fits_cons.mp h
      -- A blank leaves the state as it is, so what follows it is taken in as well.
      · have hd : classify c ≠ .digit := by
          intro hd
          simp [isSpace_of_isDigit (classify_eq_digit.mp hd)] at hc
        have hn : classify c ≠ .sign := by
          intro hn
          simp [isSpace_of_isSign (classify_eq_sign.mp hn)] at hc
        rw [goto_of_blank hs he hd hn ha] at hfits
        exact ih hfits
      · trivial

theorem State.fits_trim {legacy : Bool} {s : State} {q : List Char} (hs : s ≠ .start)
    (he : s ≠ .eolFirst) (h : s.Fits legacy q) : s.Fits legacy (trim q) :=
  fits_of_prefix (trim_isPrefixOf q) (fits_trimStart hs he h)

theorem opening_ne_eolFirst {k : Kind} {s : State} (h : k.opening = .command k s) :
    s ≠ .eolFirst := by
  rintro rfl
  cases k <;> simp [Kind.opening] at h

/-! Commands on lines of their own. -/

/-- The command of a token is read back from a line, wherever the line stands. -/
def ReadsBack (legacy : Bool) (t : Token) : Prop :=
  ∀ r, ∃ k a, command? legacy (t.display.toList ++ '\n' :: r) = some (k, a, '\n' :: r) ∧
    ∀ pos, k.token a pos = { t with offset := pos }

theorem display_of_letter {k : Kind} {c : Char} (h : k.letter? = some c) (operand : String)
    (pos : Nat) :
    (Token.display ⟨k, operand, pos⟩).toList =
      c :: if k = .deviceControl then ' ' :: operand.toList else operand.toList := by
  simp only [display, h]
  split
  case isTrue hk =>
    subst hk
    obtain rfl := Option.some.inj h
    rw [String.toList_append]
    rfl
  case isFalse => simp

theorem token_trim (k : Kind) (a : List Char) (pos : Nat) : k.token (trim a) pos = k.token a pos := by
  rw [Kind.token, trim_trim]
  rfl

theorem command?_line {legacy : Bool} {k : Kind} {c : Char} {s : State} {q : List Char}
    (hc : k.letter? = some c) (hop : k.opening = .command k s) (hs : s ≠ .start)
    (hq : s.Fits legacy q) (r : List Char) :
    command? legacy (c :: q ++ '\n' :: r) = some (k, q, '\n' :: r) := by
  rw [List.cons_append, command?_letter legacy _ hc, Kind.operand, hop]
  exact congrArg (fun p => some (k, p)) (State.consume_line hs hq r)

theorem readsBack_letter {legacy : Bool} {k : Kind} {c : Char} {s : State} {a : List Char}
    (hc : k.letter? = some c) (hop : k.opening = .command k s) (hs : s ≠ .start)
    (ha : s.Fits legacy a) (pos : Nat) : ReadsBack legacy (k.token a pos) := by
  have hk : k ≠ .movePrint := by
    rintro rfl
    simp [Kind.letter?] at hc
  have htrim := State.fits_trim hs (opening_ne_eolFirst hop) ha
  intro r
  have hdisplay := display_of_letter hc (String.ofList (trim a)) pos
  rw [Kind.token, settle_of_ne hk, hdisplay, String.toList_ofList]
  by_cases hx : k = .deviceControl
  · subst hx
    obtain rfl : State.line = s := by simpa [Kind.opening] using hop
    -- The blank after the letter is part of the line, and is trimmed away again.
    have hline : State.line.Fits legacy (' ' :: trim a) := htrim
    refine ⟨.deviceControl, ' ' :: trim a, ?_, ?_⟩
    · rw [if_pos rfl]
      exact command?_line hc hop hs hline r
    · intro p
      rw [Kind.token, settle_of_ne hk, trim, trimStart_cons_space _ rfl, ← trim, trim_trim]
  · refine ⟨k, trim a, ?_, ?_⟩
    · rw [if_neg hx]
      exact command?_line hc hop hs htrim r
    · intro p
      rw [token_trim, Kind.token, settle_of_ne hk]

theorem readsBack_wordSpace (legacy : Bool) (pos : Nat) :
    ReadsBack legacy (Kind.token .wordSpace [] pos) := by
  intro r
  have hdisplay : (Kind.token .wordSpace [] pos).display.toList = ['w'] :=
    display_of_letter rfl "" pos
  refine ⟨.wordSpace, [], ?_, fun p => rfl⟩
  rw [hdisplay]
  exact command?_letter legacy ('\n' :: r) rfl

theorem fits_digits {legacy : Bool} {d : List Char} (h : ∀ c ∈ d, isDigit c = true) :
    State.number.Fits legacy d := by
  have hdigits := @language_digits legacy .number (by intro k; cases k <;> rfl)
  have hmem : d ∈ State.number.language legacy := by
    rw [hdigits]
    exact mem_letters_kstar.mpr h
  exact hmem

theorem readsBack_digits {legacy : Bool} {d : List Char} (hne : d ≠ [])
    (h : ∀ c ∈ d, isDigit c = true) (pos : Nat) : ReadsBack legacy (Kind.token .moveRelH d pos) := by
  cases d with
  | nil => exact absurd rfl hne
  | cons c d =>
    have hfits : State.numberLead.Fits legacy (c :: d) := by
      refine State.fits_cons.mpr (.inl ⟨.number, ?_, fits_digits ?_⟩)
      · rw [classify_eq_digit.mpr (h c List.mem_cons_self)]
        rfl
      · exact fun x hx => h x (List.mem_cons_of_mem c hx)
    exact readsBack_letter rfl rfl (by simp) hfits pos

theorem readsBack_move {legacy : Bool} {a : List Char} (ha : a ∈ grammar legacy .movePrint)
    (pos : Nat) : ReadsBack legacy (Kind.token .movePrint a pos) := by
  have hsettle := settle_trim ha
  obtain ⟨d, hne, hd, ht | ⟨x, ht, -, hx⟩⟩ := trim_of_mem_move ha
  · rw [ht, if_pos ⟨rfl, List.all_eq_true.mpr hd⟩] at hsettle
    have htoken : Kind.token .movePrint a pos = Kind.token .moveRelH d pos := by
      have hdt : trim d = d := trim_eq_self fun c hc => isSpace_of_isDigit (hd c hc)
      rw [Kind.token, Kind.token, ht, hsettle, hdt, settle_of_ne (by simp)]
    rw [htoken]
    exact readsBack_digits hne hd pos
  -- The character after the digits is printed: it is no blank, so trimming keeps it.
  · have hprints : ¬ (Kind.movePrint = .movePrint ∧ (trim a).all isDigit = true) := by
      rintro ⟨-, hall⟩
      have hdigit := List.all_eq_true.mp hall x (by simp [ht])
      simp [isDigit_of_mem_glyph hx] at hdigit
    rw [if_neg hprints] at hsettle
    intro r
    cases d with
    | nil => exact absurd rfl hne
    | cons c d =>
      have hfits : State.moveDigits.Fits legacy (d ++ [x]) := by
        have hmem : d ++ [x] ∈ State.moveDigits.language legacy := by
          rw [language_moveDigits]
          refine ⟨d, ?_, [x], .inr hx, rfl⟩
          exact mem_letters_kstar.mpr fun y hy => hd y (List.mem_cons_of_mem c hy)
        exact hmem
      refine ⟨.movePrint, trim a, ?_, ?_⟩
      · have hdisplay : (Kind.token .movePrint a pos).display.toList = trim a := by
          simp [Kind.token, hsettle, display, Kind.letter?]
        rw [hdisplay, ht, List.cons_append, List.cons_append,
          command?_digit legacy _ (hd c List.mem_cons_self)]
        have hline := State.consume_line (by simp) hfits r
        simp only [Kind.operand, Kind.opening, hline]
      · intro p
        rw [token_trim]
        rfl

theorem readsBack_of_command? {legacy : Bool} {s a b : List Char} {k : Kind}
    (h : command? legacy s = some (k, a, b)) (pos : Nat) : ReadsBack legacy (k.token a pos) := by
  have hmem := (longest_of_command? h).mem
  obtain
    ⟨rfl, rfl⟩ | ⟨c, r, st, rfl, hk, hop, hst, rfl, -⟩ | ⟨c, r, rfl, -, rfl, -, -⟩ :=
    command?_cases h
  · exact readsBack_wordSpace legacy pos
  · exact readsBack_letter hk hop hst (st.fits_consume legacy r) pos
  · exact readsBack_move hmem pos

theorem readsBack_of_mem (legacy : Bool) (pos : Nat) (s : List Char) :
    ∀ t ∈ (Tokenizer.idle legacy pos s).tokens, ReadsBack legacy t := by
  induction pos, s using commands_induction legacy with
  | nil pos =>
    rw [Tokenizer.tokens_idle_nil]
    simp
  | skip pos c r hnone ih =>
    rw [Tokenizer.tokens_idle_skip hnone]
    exact ih
  | command pos s k a b hcommand ih =>
    rw [Tokenizer.tokens_idle_command pos hcommand, List.forall_mem_cons]
    exact ⟨readsBack_of_command? hcommand pos, ih⟩

/-! Listings of tokens. -/

theorem not_mem_of_command? {legacy : Bool} {s a b : List Char} {k : Kind}
    (h : command? legacy s = some (k, a, b)) : '\n' ∉ k.letter?.toList ++ a := by
  obtain
    ⟨rfl, rfl⟩ | ⟨c, r, st, rfl, hk, -, hst, rfl, -⟩ | ⟨c, r, rfl, hd, rfl, rfl, -⟩ :=
    command?_cases h
  · decide
  · have hc : c ≠ '\n' := (letter_roles (mem_commandLetters.mpr ⟨k, ofLetter?_of_letter? hk⟩)).1
    have ha := State.not_mem_of_fits hst (st.fits_consume legacy r)
    rw [hk]
    simpa [ha] using hc.symm
  · have hc : c ≠ '\n' := by
      rintro rfl
      exact absurd hd (by decide)
    have ha := State.not_mem_of_fits (by simp) (State.moveDigits.fits_consume legacy r)
    simpa [Kind.letter?, ha] using hc.symm

theorem ReadsBack.not_mem {legacy : Bool} {t : Token} (h : ReadsBack legacy t) :
    '\n' ∉ t.display.toList := by
  obtain ⟨k, a, hcommand, -⟩ := h []
  rw [List.append_cancel_right (eq_append_of_command? hcommand)]
  exact not_mem_of_command? hcommand

theorem command?_eq_none_of_endOfLine (legacy : Bool) (r : List Char) :
    command? legacy ('\n' :: r) = none := by
  rw [command?, classify_eq_endOfLine.mpr rfl]

theorem tokens_idle_line {legacy : Bool} {t : Token} (h : ReadsBack legacy t) (pos : Nat)
    (r : List Char) :
    (Tokenizer.idle legacy pos (t.display.toList ++ '\n' :: r)).tokens =
      { t with offset := pos } ::
        (Tokenizer.idle legacy (pos + width t.display.toList + 1) r).tokens := by
  obtain ⟨k, a, hcommand, htoken⟩ := h r
  have htext := List.append_cancel_right (eq_append_of_command? hcommand)
  have hskip := command?_eq_none_of_endOfLine legacy r
  rw [Tokenizer.tokens_idle_command pos hcommand, htoken, ← htext, Tokenizer.tokens_idle_skip hskip]
  rfl

def listing (ts : List Token) : String := lines (ts.map display)

/-- Tokens at the places where their lines begin in a listing that stands at a byte. -/
def placed (pos : Nat) (ts : List Token) : List Token :=
  ts.mapIdx fun i t => { t with offset := pos + (listing (ts.take i)).utf8ByteSize }

theorem listing_cons (t : Token) (ts : List Token) :
    listing (t :: ts) = t.display ++ "\n" ++ listing ts := by
  simp [listing, lines]

theorem display_offset (t : Token) (pos : Nat) : { t with offset := pos }.display = t.display := rfl

theorem placed_cons (pos : Nat) (t : Token) (ts : List Token) :
    placed pos (t :: ts) =
      { t with offset := pos } :: placed (pos + t.display.utf8ByteSize + 1) ts := by
  have hrest : ∀ i, pos + (listing ((t :: ts).take (i + 1))).utf8ByteSize =
      pos + t.display.utf8ByteSize + 1 + (listing (ts.take i)).utf8ByteSize := by
    intro i
    rw [List.take_succ_cons, listing_cons, String.utf8ByteSize_append, String.utf8ByteSize_append]
    simp only [Nat.add_assoc]
    rfl
  rw [placed, List.mapIdx_cons]
  simp only [hrest]
  rfl

theorem listing_placed (pos : Nat) (ts : List Token) : listing (placed pos ts) = listing ts := by
  induction ts generalizing pos with
  | nil => rfl
  | cons t ts ih => rw [placed_cons, listing_cons, ih, listing_cons, display_offset]

theorem tokens_idle_listing {legacy : Bool} {ts : List Token} (h : ∀ t ∈ ts, ReadsBack legacy t)
    (pos : Nat) : (Tokenizer.idle legacy pos (listing ts).toList).tokens = placed pos ts := by
  induction ts generalizing pos with
  | nil => exact Tokenizer.tokens_idle_nil legacy pos
  | cons t ts ih =>
    obtain ⟨ht, hts⟩ := List.forall_mem_cons.mp h
    have hline : (listing (t :: ts)).toList = t.display.toList ++ '\n' :: (listing ts).toList := by
      simp [listing_cons]
    rw [hline, tokens_idle_line ht, ih hts, placed_cons, width_toList]

/-- The tokens of a source, written out one to a line, are read back as they are, each at the place
where its line begins; and so they are written out again as before. -/
theorem tokenize_listing (legacy : Bool) (source : String) :
    tokenize legacy (listing (tokenize legacy source)) = placed 0 (tokenize legacy source) ∧
    listing (tokenize legacy (listing (tokenize legacy source))) =
      listing (tokenize legacy source) ∧
    ∀ t ∈ tokenize legacy source, '\n' ∉ t.display.toList := by
  have hread : ∀ t ∈ tokenize legacy source, ReadsBack legacy t :=
    readsBack_of_mem legacy 0 source.toList
  have hplaced : tokenize legacy (listing (tokenize legacy source)) =
      placed 0 (tokenize legacy source) := tokens_idle_listing hread 0
  refine ⟨hplaced, ?_, fun t ht => (hread t ht).not_mem⟩
  rw [hplaced, listing_placed]

end Galley.Token
