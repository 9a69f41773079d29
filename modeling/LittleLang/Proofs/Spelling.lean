import LittleLang.Proofs.Recovery

/-!
# Reading back what is spelled

Lexemes can be written down one after another, with blanks between them: each stops where the blanks
start (`Lexeme.IsLexeme.read_blank`). Tokenizing such a text gives the lexemes back, and nothing
else (`tokenize_spelledOut`). -/

open LittleLang.Text

namespace LittleLang

/-- A lexeme is read where blanks or the end of the text stop it. -/
theorem Lexeme.IsLexeme.read_blank {l : Lexeme} {rest : List Char} (h : l.IsLexeme)
    (hr : ∀ c ∈ rest.head?, isBlank c = true) : read (l.spelling ++ rest) = some l := by
  refine read_eq_some_iff.mpr ⟨h, List.prefix_append _ _, fun l' hl' hstart => ?_⟩
  -- A longer lexeme would take in the blank.
  refine Nat.le_of_not_lt fun hlt => ?_
  obtain ⟨tail, htail⟩ :=
    List.prefix_of_prefix_length_le (List.prefix_append l.spelling rest) hstart (Nat.le_of_lt hlt)
  rw [← htail, List.prefix_append_right_inj] at hstart
  rw [← htail, List.length_append] at hlt
  cases tail with
  | nil => simp at hlt
  | cons c tail =>
    obtain ⟨more, rfl⟩ := hstart
    have hblank := hl'.isBlank_eq_false c (by simp [← htail])
    rw [hr c rfl] at hblank
    cases hblank

/-- The text of some lexemes, each behind a gap, with more of a text behind them. -/
def spelledOut : List (List Char × Lexeme) → List Char → List Char
  | [], trailing => trailing
  | (gap, l) :: pieces, trailing => gap ++ (l.spelling ++ spelledOut pieces trailing)

/-- What stands behind a lexeme starts with a blank, if anything does. -/
theorem head?_spelledOut {pieces : List (List Char × Lexeme)} {trailing : List Char}
    (hb : ∀ p ∈ pieces, ∀ b ∈ p.1, isBlank b = true) (hgap : ∀ p ∈ pieces, p.1 ≠ [])
    (ht : ∀ b ∈ trailing, isBlank b = true) :
    ∀ c ∈ (spelledOut pieces trailing).head?, isBlank c = true := by
  intro c hc
  cases pieces with
  | nil => exact ht c (List.mem_of_mem_head? hc)
  | cons p pieces =>
    obtain ⟨gap, l⟩ := p
    obtain ⟨b, gap, rfl⟩ := List.exists_cons_of_ne_nil (hgap (gap, l) (by simp))
    cases hc
    exact hb (c :: gap, l) (by simp) c (by simp)

theorem exists_sweep_spelledOut {pieces : List (List Char × Lexeme)} {trailing : List Char}
    (hl : ∀ p ∈ pieces, p.2.IsLexeme) (hb : ∀ p ∈ pieces, ∀ b ∈ p.1, isBlank b = true)
    (hgap : ∀ p ∈ pieces.tail, p.1 ≠ []) (ht : ∀ b ∈ trailing, isBlank b = true)
    (place : Place) : ∃ ts, Sweep place (spelledOut pieces trailing) ts [] ∧
      ts.map (fun t => (t.kind, t.text)) =
        pieces.map (fun p => (p.2.kind, String.ofList p.2.text)) ++ [(.endOfInput, "")] := by
  induction pieces generalizing place with
  | nil => exact ⟨_, .finish ht, rfl⟩
  | cons p pieces ih =>
    obtain ⟨gap, l⟩ := p
    have hb' := fun p (hp : p ∈ pieces) => hb p (List.mem_cons_of_mem _ hp)
    obtain ⟨ts, hsweep, hts⟩ := ih (fun p hp => hl p (List.mem_cons_of_mem _ hp)) hb'
      (fun p hp => hgap p (List.mem_of_mem_tail hp)) ((place.pass gap).pass l.spelling)
    have hread := (hl (gap, l) List.mem_cons_self).read_blank (head?_spelledOut hb' hgap ht)
    exact ⟨_, .token (hb (gap, l) List.mem_cons_self) hread hsweep, congrArg _ hts⟩

/-- Tokenizing undoes spelling. Of lexemes with some blanks between any two neighbours, and any
blanks at both ends, it gives a token each, in their order, and the end of the text, and no error.
-/
theorem tokenize_spelledOut {pieces : List (List Char × Lexeme)} {trailing : List Char}
    (hl : ∀ p ∈ pieces, p.2.IsLexeme) (hb : ∀ p ∈ pieces, ∀ b ∈ p.1, isBlank b = true)
    (hgap : ∀ p ∈ pieces.tail, p.1 ≠ []) (ht : ∀ b ∈ trailing, isBlank b = true) :
    (tokenize (String.ofList (spelledOut pieces trailing))).2 = none ∧
    (tokenize (String.ofList (spelledOut pieces trailing))).1.map (fun t => (t.kind, t.text)) =
      pieces.map (fun p => (p.2.kind, String.ofList p.2.text)) ++ [(.endOfInput, "")] := by
  obtain ⟨ts, hsweep, hts⟩ := exists_sweep_spelledOut hl hb hgap ht {}
  rw [← String.toList_ofList (l := spelledOut pieces trailing)] at hsweep
  rw [hsweep.tokenize_eq]
  exact ⟨rfl, hts⟩

/-- A keyword, a name, an operator and numbers of all forms, with a no-break space, a line feed, an
ideographic space and a tab among the blanks. -/
def samplePieces : List (List Char × Lexeme) := [
  ([], ⟨.kwIf, "if".toList, "if".toList⟩),
  (" ".toList, ⟨.identifier, "x1".toList, "x1".toList⟩),
  ("\u00a0\n".toList, ⟨.assign, ":=".toList, ":=".toList⟩),
  ("\u3000".toList, ⟨.intLiteral, "7".toList, "7".toList⟩),
  (" ".toList, ⟨.floatLiteral, "1.5".toList, "1.5".toList⟩),
  ("\t".toList, ⟨.floatLiteral, "1.50F".toList, "1.50".toList⟩),
  (" ".toList, ⟨.floatLiteral, "2f".toList, "2".toList⟩)]

theorem tokenize_spelledOut_sample :
    String.ofList (spelledOut samplePieces "\n".toList) = "if x1\u00a0\n:=\u30007 1.5\t1.50F 2f\n" ∧
    (tokenize (String.ofList (spelledOut samplePieces "\n".toList))).2 = none ∧
    (tokenize (String.ofList (spelledOut samplePieces "\n".toList))).1.map
        (fun t => (t.kind, t.text)) =
      [(.kwIf, "if"), (.identifier, "x1"), (.assign, ":="), (.intLiteral, "7"),
        (.floatLiteral, "1.5"), (.floatLiteral, "1.50"), (.floatLiteral, "2"),
        (.endOfInput, "")] := by
  have hread : ∀ p ∈ samplePieces, Lexeme.read p.2.spelling = some p.2 := by decide +kernel
  have hblank : samplePieces.all (fun p => p.1.all isBlank) = true := by decide +kernel
  refine ⟨by decide +kernel, tokenize_spelledOut (fun p hp => Lexeme.isLexeme_of_read (hread p hp))
    (fun p hp => ?_) (by decide +kernel) (List.all_eq_true.mp (by decide +kernel))⟩
  exact List.all_eq_true.mp (List.all_eq_true.mp hblank p hp)

end LittleLang
