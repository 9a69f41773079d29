import LittleLang.Proofs.Scanning

/-!
# Tokens in their order

A token carries the line and the column where it starts. The tokens of a text start one after
another (`pairwise_tokenize`), so that of two of them the places tell which comes first. -/

namespace LittleLang

/-- The first token starts before the second. -/
def Token.Before (t u : Token) : Prop :=
  t.line < u.line ∨ t.line = u.line ∧ t.column < u.column

instance (t u : Token) : Decidable (t.Before u) :=
  inferInstanceAs (Decidable (_ ∨ _))

theorem Token.Before.asymm {t u : Token} (h : t.Before u) : ¬u.Before t := by
  unfold Before at *
  omega

namespace Place

/-- The place is not after a line and a column. -/
def Reaches (p : Place) (line column : Nat) : Prop :=
  p.line < line ∨ p.line = line ∧ p.column ≤ column

theorem step_after (p : Place) (c : Char) :
    p.line < (p.step c).line ∨ p.line = (p.step c).line ∧ p.column < (p.step c).column := by
  unfold step
  split
  · exact .inl (Nat.lt_succ_self _)
  · exact .inr ⟨rfl, Nat.lt_succ_self _⟩

theorem reaches_pass (p : Place) (cs : List Char) :
    p.Reaches (p.pass cs).line (p.pass cs).column := by
  induction cs generalizing p with
  | nil => exact .inr ⟨rfl, Nat.le_refl _⟩
  | cons c cs ih =>
    have hstep := step_after p c
    have hpass : (p.step c).Reaches (p.pass (c :: cs)).line (p.pass (c :: cs)).column :=
      ih (p.step c)
    unfold Reaches at *
    omega

theorem pass_after (p : Place) {cs : List Char} (h : cs ≠ []) :
    p.line < (p.pass cs).line ∨ p.line = (p.pass cs).line ∧ p.column < (p.pass cs).column := by
  cases cs with
  | nil => exact absurd rfl h
  | cons c cs =>
    have hstep := step_after p c
    have hpass : (p.step c).Reaches (p.pass (c :: cs)).line (p.pass (c :: cs)).column :=
      reaches_pass (p.step c) cs
    unfold Reaches at hpass
    omega

end Place

/-- A token starts after the blanks, and before all that comes after it. -/
theorem Cursor.Step.order {c c' : Cursor} (h : Step c c') :
    c.place.Reaches c'.token.line c'.token.column ∧ (c'.token.kind ≠ .endOfInput →
      ∀ t : Token, c'.place.Reaches t.line t.column → c'.token.Before t) := by
  cases h with
  | @finish blanks place token => exact ⟨place.reaches_pass blanks, fun hk => absurd rfl hk⟩
  | @lexeme blanks rest l place token hl =>
    refine ⟨place.reaches_pass blanks, fun _ t ht => ?_⟩
    have hpass := (place.pass blanks).pass_after (Lexeme.read_ne_nil hl)
    simp only [Place.Reaches, Token.Before, Place.token] at *
    omega

namespace Stream

theorem Scans.order {c : Cursor} {s : Stream} (h : Scans c s) :
    (∀ t ∈ s.tokens, c.place.Reaches t.line t.column) ∧ s.tokens.Pairwise Token.Before := by
  induction h with
  | finish hstep _ => exact ⟨by simpa [tokens] using hstep.order.1, by simp [tokens]⟩
  | blocked hstep _ => exact ⟨by simpa [tokens] using hstep.order.1, by simp [tokens]⟩
  | @more c c' tail hstep hk _ ih =>
    obtain ⟨hfirst, hnext⟩ := hstep.order
    have hbefore (t : Token) (ht : t ∈ tail.tokens) : c'.token.Before t := hnext hk t (ih.1 t ht)
    refine ⟨fun t ht => ?_, List.pairwise_cons.mpr ⟨hbefore, ih.2⟩⟩
    rcases List.mem_cons.mp ht with rfl | ht
    · exact hfirst
    · have := hbefore t ht
      unfold Place.Reaches Token.Before at *
      omega

end Stream

theorem pairwise_tokenize (text : String) : (tokenize text).1.Pairwise Token.Before := by
  unfold tokenize
  cases hs : Stream.ofText text with
  | error e => exact .nil
  | ok s => exact (Stream.scans_of_ofText hs).1.order.2

end LittleLang
