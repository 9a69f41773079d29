import LittleLang.Proofs.Lexemes
import LittleLang.Proofs.Positions

/-!
# Bad characters as blanks

`Sweep` cuts a text into the lexemes of its tokens, the characters that start none, and the blanks
between them. A scan reports what the sweep of a text finds (`sweep_scan`), and `tokenize` reports
the tokens that it finds before its first error (`Sweep.tokenize_eq`). With a space in the place of
each bad character the same lexemes stand where they stood, since no lexeme holds a blank
(`Sweep.blanked`); so a scan recovers as if the bad characters were blanks (`scan_recovers`). -/

open LittleLang.Text

namespace LittleLang

/-! ## Places -/

def Token.Precedes (t : Token) (e : LexicalError) : Prop :=
  t.line < e.line ∨ t.line = e.line ∧ t.column < e.column

instance (t : Token) (e : LexicalError) : Decidable (t.Precedes e) :=
  inferInstanceAs (Decidable (_ ∨ _))

namespace Place

variable {p : Place} {cs : List Char} {line column : Nat}

theorem reaches_of_pass (h : (p.pass cs).Reaches line column) : p.Reaches line column := by
  have hpass := p.reaches_pass cs
  unfold Reaches at *
  omega

/-- What lies behind some characters lies after the place where they start. -/
theorem before_of_pass (hcs : cs ≠ []) (h : (p.pass cs).Reaches line column) :
    p.line < line ∨ p.line = line ∧ p.column < column := by
  have hpass := p.pass_after hcs
  unfold Reaches at h
  omega

end Place

/-! ## Sweeps -/

/-- A text, which starts at a place, is made of blanks, of the lexemes of some tokens and of the
characters of some errors. -/
inductive Sweep : Place → List Char → List Token → List LexicalError → Prop where
  | finish {p : Place} {blanks : List Char} : (∀ b ∈ blanks, isBlank b = true) →
      Sweep p blanks [(p.pass blanks).token .endOfInput ""] []
  | token {p : Place} {blanks rest : List Char} {l : Lexeme} {ts : List Token}
      {es : List LexicalError} : (∀ b ∈ blanks, isBlank b = true) →
      Lexeme.read (l.spelling ++ rest) = some l →
      Sweep ((p.pass blanks).pass l.spelling) rest ts es →
      Sweep p (blanks ++ (l.spelling ++ rest))
        ((p.pass blanks).token l.kind (String.ofList l.text) :: ts) es
  | error {p : Place} {blanks rest : List Char} {c : Char} {ts : List Token}
      {es : List LexicalError} : (∀ b ∈ blanks, isBlank b = true) → isBlank c = false →
      Lexeme.read (c :: rest) = none → Sweep ((p.pass blanks).step c) rest ts es →
      Sweep p (blanks ++ c :: rest) ts (⟨c, (p.pass blanks).line, (p.pass blanks).column⟩ :: es)

namespace Sweep

variable {p : Place} {cs : List Char} {ts : List Token} {es : List LexicalError}

theorem exists_sweep (p : Place) (cs : List Char) : ∃ ts es, Sweep p cs ts es := by
  induction hn : cs.length using Nat.strongRecOn generalizing p cs with
  | ind n ih =>
    obtain ⟨hblanks, hfirst, hcs⟩ := split_isBlank cs
    generalize cs.takeWhile isBlank = blanks at hblanks hcs
    generalize cs.dropWhile isBlank = rest at hcs hfirst
    subst hcs
    simp only [List.length_append] at hn
    cases rest with
    | nil =>
      rw [List.append_nil]
      exact ⟨_, _, .finish hblanks⟩
    | cons c rest =>
      have hc : isBlank c = false := hfirst c rfl
      cases hread : Lexeme.read (c :: rest) with
      | none =>
        obtain ⟨ts, es, h⟩ := ih rest.length (by simp only [List.length_cons] at hn; omega)
          ((p.pass blanks).step c) rest rfl
        exact ⟨_, _, .error hblanks hc hread h⟩
      | some l =>
        obtain ⟨tail, htail⟩ := Lexeme.read_append hread
        have hne := List.length_pos_iff.mpr (Lexeme.read_ne_nil hread)
        rw [htail] at hread hn ⊢
        obtain ⟨ts, es, h⟩ := ih tail.length (by simp only [List.length_append] at hn; omega)
          ((p.pass blanks).pass l.spelling) tail rfl
        exact ⟨_, _, .token hblanks hread h⟩

/-- More blanks in front change nothing but the place where the text starts. -/
theorem append_blanks {blanks : List Char} (hb : ∀ b ∈ blanks, isBlank b = true)
    (h : Sweep (p.pass blanks) cs ts es) : Sweep p (blanks ++ cs) ts es := by
  have hall {bs : List Char} (h : ∀ b ∈ bs, isBlank b = true) :
      ∀ b ∈ blanks ++ bs, isBlank b = true :=
    fun b hmem => (List.mem_append.mp hmem).elim (hb b) (h b)
  generalize hq : p.pass blanks = q at h
  cases h with
  | finish hbs =>
    rw [← hq, ← Place.pass_append]
    exact .finish (hall hbs)
  | token hbs hread htail =>
    subst hq
    rw [← List.append_assoc, ← Place.pass_append p]
    rw [← Place.pass_append p] at htail
    exact .token (hall hbs) hread htail
  | error hbs hc hread htail =>
    subst hq
    rw [← List.append_assoc, ← Place.pass_append p]
    rw [← Place.pass_append p] at htail
    exact .error (hall hbs) hc hread htail

/-! ### Places -/

theorem reaches (h : Sweep p cs ts es) : (∀ t ∈ ts, p.Reaches t.line t.column) ∧
    ∀ e ∈ es, p.Reaches e.line e.column := by
  induction h with
  | @finish p blanks =>
    refine ⟨fun t ht => ?_, by simp⟩
    rw [List.mem_singleton.mp ht]
    exact p.reaches_pass blanks
  | @token p blanks rest l ts es _ _ _ ih =>
    rw [← Place.pass_append] at ih
    refine ⟨fun t ht => ?_, fun e he => Place.reaches_of_pass (ih.2 e he)⟩
    rcases List.mem_cons.mp ht with rfl | ht
    · exact p.reaches_pass blanks
    · exact Place.reaches_of_pass (ih.1 t ht)
  | @error p blanks rest c ts es _ _ _ _ ih =>
    rw [← Place.pass_concat] at ih
    refine ⟨fun t ht => Place.reaches_of_pass (ih.1 t ht), fun e he => ?_⟩
    rcases List.mem_cons.mp he with rfl | he
    · exact p.reaches_pass blanks
    · exact Place.reaches_of_pass (ih.2 e he)

/-! ### What a scan reports -/

/-- A scan with a round for each character and one for the end reports what the sweep finds. -/
theorem scanFrom_eq (h : Sweep p cs ts es) {rounds : Nat} (hr : cs.length < rounds)
    (token : Token) : scanFrom rounds ⟨cs, p, token⟩ = (ts, es) := by
  induction h generalizing rounds token with
  | @finish p blanks hb =>
    obtain ⟨rounds, rfl⟩ := Nat.exists_eq_succ_of_ne_zero (Nat.ne_zero_of_lt hr)
    exact scanFrom_finish (Cursor.next_finish hb p token) rfl
  | @token p blanks rest l ts es hb hread _ ih =>
    obtain ⟨rounds, rfl⟩ := Nat.exists_eq_succ_of_ne_zero (Nat.ne_zero_of_lt hr)
    have hne := List.length_pos_iff.mpr (Lexeme.read_ne_nil hread)
    simp only [List.length_append] at hr
    rw [scanFrom_token (Cursor.next_lexeme hb p token hread) (Lexeme.read_kind_ne hread),
      ih (by omega)]
  | @error p blanks rest c ts es hb hc hread _ ih =>
    obtain ⟨rounds, rfl⟩ := Nat.exists_eq_succ_of_ne_zero (Nat.ne_zero_of_lt hr)
    simp only [List.length_append, List.length_cons] at hr
    rw [scanFrom_error (Cursor.next_error hb p token hc hread), Cursor.skip_char hb p token hc,
      ih (by omega)]

end Sweep

theorem sweep_scan (text : String) : Sweep {} text.toList (scan text).1 (scan text).2 := by
  obtain ⟨ts, es, h⟩ := Sweep.exists_sweep {} text.toList
  have hscan : scan text = (ts, es) := h.scanFrom_eq (by simp [String.length_toList]) _
  rw [hscan]
  exact h

/-! ## What is tokenized -/

/-- The tokens before the first error, and that error; all tokens where there is none. -/
def untilError (ts : List Token) : List LexicalError → List Token × Option LexicalError
  | [] => (ts, none)
  | e :: _ => (ts.filter fun t => t.Precedes e, some e)

namespace Stream

/-- The tokens of a stream and the error that it ends with, or the error before its first token. -/
def report : Except LexicalError Stream → List Token × Option LexicalError
  | .error e => ([], some e)
  | .ok s => (s.tokens, s.error?)

theorem tokenize_eq_report (text : String) : tokenize text = report (ofText text) := by
  unfold tokenize
  cases ofText text with
  | error e => rfl
  | ok s => rfl

variable {rounds : Nat} {c c' : Cursor}

theorem report_finish (h : c.next = .ok c') (hk : c'.token.kind = .endOfInput) :
    report (ofCursor (rounds + 1) c) = ([c'.token], none) := by
  simp only [ofCursor, h, if_pos hk]
  rfl

theorem report_token (h : c.next = .ok c') (hk : c'.token.kind ≠ .endOfInput) :
    report (ofCursor (rounds + 1) c) = (c'.token :: (report (ofCursor rounds c')).1,
      (report (ofCursor rounds c')).2) := by
  simp only [ofCursor, h, if_neg hk]
  cases ofCursor rounds c' with
  | error e => rfl
  | ok s => rfl

theorem report_error {e : LexicalError} (h : c.next = .error e) :
    report (ofCursor (rounds + 1) c) = ([], some e) := by
  simp only [ofCursor, h]
  rfl

end Stream

namespace Sweep

variable {p : Place} {cs : List Char} {ts : List Token} {es : List LexicalError}

/-- A stream with a round for each character and one for the end holds the tokens that the sweep
finds before its first error. -/
theorem report_eq (h : Sweep p cs ts es) {rounds : Nat} (hr : cs.length < rounds)
    (token : Token) :
    Stream.report (Stream.ofCursor rounds ⟨cs, p, token⟩) = untilError ts es := by
  induction h generalizing rounds token with
  | @finish p blanks hb =>
    obtain ⟨rounds, rfl⟩ := Nat.exists_eq_succ_of_ne_zero (Nat.ne_zero_of_lt hr)
    exact Stream.report_finish (Cursor.next_finish hb p token) rfl
  | @token p blanks rest l ts es hb hread htail ih =>
    obtain ⟨rounds, rfl⟩ := Nat.exists_eq_succ_of_ne_zero (Nat.ne_zero_of_lt hr)
    have hne := Lexeme.read_ne_nil hread
    have hpos := List.length_pos_iff.mpr hne
    simp only [List.length_append] at hr
    rw [Stream.report_token (Cursor.next_lexeme hb p token hread) (Lexeme.read_kind_ne hread),
      ih (by omega)]
    cases es with
    | nil => rfl
    | cons e es =>
      have hfirst : ((p.pass blanks).token l.kind (String.ofList l.text)).Precedes e :=
        Place.before_of_pass hne (htail.reaches.2 e (by simp))
      simp [untilError, hfirst]
  | @error p blanks rest c ts es hb hc hread htail ih =>
    obtain ⟨rounds, rfl⟩ := Nat.exists_eq_succ_of_ne_zero (Nat.ne_zero_of_lt hr)
    rw [Stream.report_error (Cursor.next_error hb p token hc hread)]
    -- All tokens that are found later stand behind the character.
    have hnone : ts.filter (fun t => t.Precedes
        ⟨c, (p.pass blanks).line, (p.pass blanks).column⟩) = [] := by
      refine List.filter_eq_nil_iff.mpr fun t ht hbefore => ?_
      have hafter := Place.before_of_pass (List.cons_ne_nil c []) (htail.reaches.1 t ht)
      have := of_decide_eq_true hbefore
      simp only [Token.Precedes] at this
      omega
    rw [untilError, hnone]

theorem tokenize_eq {text : String} (h : Sweep {} text.toList ts es) :
    tokenize text = untilError ts es := by
  rw [Stream.tokenize_eq_report]
  exact h.report_eq (Nat.lt_succ_of_le (Nat.le_of_eq String.length_toList)) _

end Sweep

/-! ## Spaces for bad characters -/

/-- What stands from a place on, with a space for each character that an error is reported on. -/
def blankedFrom (errors : List LexicalError) : Place → List Char → List Char
  | _, [] => []
  | p, c :: cs =>
    (if ∃ e ∈ errors, e.line = p.line ∧ e.column = p.column then ' ' else c) ::
      blankedFrom errors (p.step c) cs

/-- The text with a space for each character that an error is reported on. -/
def blanked (errors : List LexicalError) (text : String) : String :=
  String.ofList (blankedFrom errors {} text.toList)

section

variable {p : Place} {es : List LexicalError}

/-- What stands before all the errors stays as it is. -/
theorem blankedFrom_append {front : List Char}
    (h : ∀ e ∈ es, (p.pass front).Reaches e.line e.column) (rest : List Char) :
    blankedFrom es p (front ++ rest) = front ++ blankedFrom es (p.pass front) rest := by
  induction front generalizing p with
  | nil => rfl
  | cons c front ih =>
    have hnone : ¬∃ e ∈ es, e.line = p.line ∧ e.column = p.column := by
      rintro ⟨e, he, hline, hcolumn⟩
      have := Place.before_of_pass (List.cons_ne_nil c front) (h e he)
      omega
    show (if _ then ' ' else c) :: blankedFrom es (p.step c) (front ++ rest) = _
    rw [if_neg hnone, ih h]
    rfl

theorem blankedFrom_cons {e : LexicalError}
    (h : e.line < p.line ∨ e.line = p.line ∧ e.column < p.column) (cs : List Char) :
    blankedFrom (e :: es) p cs = blankedFrom es p cs := by
  induction cs generalizing p with
  | nil => rfl
  | cons c cs ih =>
    have hnot : ¬(e.line = p.line ∧ e.column = p.column) := by omega
    have hstep : e.line < (p.step c).line ∨
        e.line = (p.step c).line ∧ e.column < (p.step c).column := by
      have := p.step_after c
      omega
    simp only [blankedFrom, List.mem_cons, exists_eq_or_imp, hnot, false_or, ih hstep]

theorem blankedFrom_error (c : Char) (rest : List Char) :
    blankedFrom (⟨c, p.line, p.column⟩ :: es) p (c :: rest) =
      ' ' :: blankedFrom es (p.step c) rest := by
  have hat : ∃ e ∈ (⟨c, p.line, p.column⟩ :: es : List LexicalError),
      e.line = p.line ∧ e.column = p.column := ⟨_, List.mem_cons_self, rfl, rfl⟩
  rw [blankedFrom, if_pos hat, blankedFrom_cons (p.step_after c)]

/-- A row of characters without blanks that starts the text with spaces in it starts the text
itself. -/
theorem prefix_of_prefix_blankedFrom {w cs : List Char} (hw : ∀ c ∈ w, isBlank c = false)
    (h : w <+: blankedFrom es p cs) : w <+: cs := by
  induction cs generalizing p w with
  | nil => exact h
  | cons c cs ih =>
    cases w with
    | nil => exact List.nil_prefix
    | cons d w =>
      rw [blankedFrom, List.cons_prefix_cons] at h
      obtain ⟨hd, htail⟩ := h
      have hdc : d = c := by
        split at hd
        · have hblank := hw d (by simp)
          rw [hd] at hblank
          cases hblank
        · exact hd
      rw [hdc, List.cons_prefix_cons]
      exact ⟨rfl, ih (fun x hx => hw x (by simp [hx])) htail⟩

end

theorem Lexeme.read_blankedFrom {l : Lexeme} {rest : List Char} {p : Place}
    {es : List LexicalError} (h : read (l.spelling ++ rest) = some l)
    (hes : ∀ e ∈ es, (p.pass l.spelling).Reaches e.line e.column) :
    read (l.spelling ++ blankedFrom es (p.pass l.spelling) rest) = some l := by
  have hlongest := longest_of_read h
  refine read_eq_some_iff.mpr ⟨hlongest.isLexeme, List.prefix_append _ _, fun l' hl' hstart => ?_⟩
  rw [← blankedFrom_append hes] at hstart
  exact hlongest.longest l' hl' (prefix_of_prefix_blankedFrom hl'.isBlank_eq_false hstart)

/-- With a space for each bad character the same tokens are found, and no errors. -/
theorem Sweep.blanked {p : Place} {cs : List Char} {ts : List Token} {es : List LexicalError}
    (h : Sweep p cs ts es) : Sweep p (blankedFrom es p cs) ts [] := by
  induction h with
  | @finish p blanks hb =>
    have hsame := @blankedFrom_append p [] blanks (by simp) []
    simp only [List.append_nil] at hsame
    rw [hsame, blankedFrom, List.append_nil]
    exact .finish hb
  | @token p blanks rest l ts es hb hread htail ih =>
    have hes := htail.reaches.2
    rw [blankedFrom_append fun e he => Place.reaches_of_pass (hes e he), blankedFrom_append hes]
    exact .token hb (Lexeme.read_blankedFrom hread hes) ih
  | @error p blanks rest c ts es hb hc hread htail ih =>
    have hes : ∀ e ∈ (⟨c, (p.pass blanks).line, (p.pass blanks).column⟩ :: es : List LexicalError),
        (p.pass blanks).Reaches e.line e.column := by
      intro e he
      rcases List.mem_cons.mp he with rfl | he
      · exact .inr ⟨rfl, Nat.le_refl _⟩
      · exact @Place.reaches_of_pass _ [c] _ _ (htail.reaches.2 e he)
    have hspace : (p.pass blanks).step c = p.pass (blanks ++ [' ']) := by
      have hline : c ≠ '\n' := by
        rintro rfl
        cases hc
      rw [Place.pass_concat, Place.step, Place.step, if_neg hline, if_neg (by decide)]
    rw [blankedFrom_append hes, blankedFrom_error, List.append_cons]
    refine append_blanks (fun b hmem => ?_) ?_
    · rcases List.mem_append.mp hmem with hmem | hmem
      · exact hb b hmem
      · rw [List.mem_singleton.mp hmem]
        decide
    · rw [hspace] at ih ⊢
      exact ih

/-- A scan recovers as if the bad characters were blanks. With a space in the place of each of them
`tokenize` finds what the scan finds, and no error; on the text itself it finds the tokens before
the first error, and then that error. -/
theorem scan_recovers (text : String) :
    tokenize (blanked (scan text).2 text) = ((scan text).1, none) ∧
    tokenize text = untilError (scan text).1 (scan text).2 := by
  have hsweep := sweep_scan text
  have hblanked := hsweep.blanked
  rw [← String.toList_ofList (l := blankedFrom _ _ _)] at hblanked
  exact ⟨hblanked.tokenize_eq, hsweep.tokenize_eq⟩

example : scan "1.5.2 ::= x" = ([⟨.floatLiteral, "1.5", 1, 1⟩, ⟨.intLiteral, "2", 1, 5⟩,
      ⟨.assign, ":=", 1, 8⟩, ⟨.identifier, "x", 1, 11⟩, ⟨.endOfInput, "", 1, 12⟩],
      [⟨'.', 1, 4⟩, ⟨':', 1, 7⟩]) ∧
    blanked (scan "1.5.2 ::= x").2 "1.5.2 ::= x" = "1.5 2  := x" := by
  decide +kernel

end LittleLang
