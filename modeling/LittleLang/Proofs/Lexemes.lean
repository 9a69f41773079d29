import LittleLang.Proofs.Accounting

/-!
# The longest lexeme

`IsLexeme` lists the lexemes of the language: words, numbers and operators, each with the kind and
the text of the token it makes. No lexeme holds a blank. The lexeme that is read off the front of a
text is the longest one there (`Lexeme.read_eq_some_iff`), and none is read only where none stands
(`Lexeme.read_eq_none_iff`); so the next token is found by longest match (`Cursor.next_longest`). -/

open LittleLang.Text

namespace LittleLang

/-! ## Classes of characters -/

namespace Text

theorem toNat_of_isAlpha {c : Char} (h : c.isAlpha = true) :
    65 ≤ c.toNat ∧ c.toNat ≤ 90 ∨ 97 ≤ c.toNat ∧ c.toNat ≤ 122 := by
  rcases (Bool.or_eq_true _ _).mp h with h | h
  · obtain ⟨hlo, hhi⟩ := of_decide_eq_true h
    exact .inl ⟨UInt32.le_iff_toNat_le.mp hlo, UInt32.le_iff_toNat_le.mp hhi⟩
  · obtain ⟨hlo, hhi⟩ := (Bool.and_eq_true _ _).mp h
    exact .inr ⟨UInt32.le_iff_toNat_le.mp (of_decide_eq_true hlo),
      UInt32.le_iff_toNat_le.mp (of_decide_eq_true hhi)⟩

theorem isBlank_of_between {c : Char} (h : 0x20 < c.toNat) (h' : c.toNat < 0x80) :
    isBlank c = false := by
  refine Bool.eq_false_iff.mpr fun hblank => ?_
  obtain ⟨r, hr, hlo, hhi⟩ := inRanges_iff.mp hblank
  have hranges : ∀ r ∈ blankRanges, r.2 ≤ 0x20 ∨ 0x80 ≤ r.1 := by decide
  have := hranges r hr
  omega

/-- A letter is no blank: the two tables have no code point in common. -/
theorem isBlank_of_isLetter {c : Char} (h : isLetter c = true) : isBlank c = false := by
  unfold isLetter at h
  split at h
  · have := toNat_of_isAlpha h
    exact isBlank_of_between (by omega) ‹_›
  · refine Bool.eq_false_iff.mpr fun hblank => ?_
    obtain ⟨r, hr, hlo, hhi⟩ := inRanges_iff.mp h
    obtain ⟨b, hb, hlo', hhi'⟩ := inRanges_iff.mp hblank
    have hapart : letterRanges.all (fun r => blankRanges.all fun b => r.2 < b.1 || b.2 < r.1) =
        true := by decide +kernel
    have := List.all_eq_true.mp (List.all_eq_true.mp hapart r hr) b hb
    simp only [Bool.or_eq_true, decide_eq_true_eq] at this
    omega

theorem isBlank_of_isDigit {c : Char} (h : c.isDigit = true) : isBlank c = false := by
  have := Number.toNat_of_isDigit h
  exact isBlank_of_between (by omega) (by omega)

theorem isLetter_of_isDigit {c : Char} (h : c.isDigit = true) : isLetter c = false := by
  have := Number.toNat_of_isDigit h
  rw [isLetter_of_ascii (by omega)]
  refine Bool.eq_false_iff.mpr fun halpha => ?_
  have := toNat_of_isAlpha halpha
  omega

/-- A text is the blanks in front of it and what comes behind them. -/
theorem split_isBlank (cs : List Char) : (∀ b ∈ cs.takeWhile isBlank, isBlank b = true) ∧
    (∀ c ∈ (cs.dropWhile isBlank).head?, isBlank c = false) ∧
    cs.takeWhile isBlank ++ cs.dropWhile isBlank = cs := by
  refine ⟨List.all_eq_true.mp List.all_takeWhile, fun c hc => ?_,
    List.takeWhile_append_dropWhile⟩
  have hhead := List.head?_dropWhile_not isBlank cs
  rw [hc] at hhead
  simpa using hhead

end Text

/-! ## Lexemes -/

def Digits (cs : List Char) : Prop :=
  cs ≠ [] ∧ ∀ c ∈ cs, c.isDigit = true

namespace Lexeme

def keywords : List (String × Kind) := [
  ("func", .kwFunc), ("int", .kwInt), ("float", .kwFloat), ("bool", .kwBool), ("true", .kwTrue),
  ("false", .kwFalse), ("return", .kwReturn), ("if", .kwIf), ("else", .kwElse)]

def operators : List (String × Kind) := [
  (":=", .assign), ("&&", .andAnd), ("||", .orOr), ("<=", .lessEq), (">=", .greaterEq),
  ("==", .equal), ("!=", .notEqual),
  ("+", .plus), ("-", .minus), ("*", .times), ("/", .divide), ("(", .leftParen),
  (")", .rightParen), ("\x7b", .leftBrace), ("\x7d", .rightBrace), (";", .semicolon),
  (",", .comma), ("!", .bang), ("<", .less), (">", .greater)]

/-- The lexemes of the language, with the kinds and the texts of their tokens. -/
inductive IsLexeme : Lexeme → Prop where
  /-- A letter, then letters and digits: a keyword or an identifier. -/
  | word {c : Char} {cs : List Char} : isLetter c = true →
      (∀ d ∈ cs, isLetter d = true ∨ d.isDigit = true) →
      IsLexeme ⟨(keywords.lookup (String.ofList (c :: cs))).getD .identifier, c :: cs, c :: cs⟩
  /-- Digits, perhaps with a point and more digits, perhaps with a float mark. -/
  | number {whole part mark : List Char} : Digits whole →
      (part = [] ∨ ∃ ds, part = '.' :: ds ∧ Digits ds) →
      (mark = [] ∨ mark = ['f'] ∨ mark = ['F']) →
      IsLexeme ⟨if part = [] ∧ mark = [] then .intLiteral else .floatLiteral,
        whole ++ part ++ mark, whole ++ part⟩
  /-- An operator of one or two characters. -/
  | operator {spelling : String} {kind : Kind} : (spelling, kind) ∈ operators →
      IsLexeme ⟨kind, spelling.toList, spelling.toList⟩

/-- The lexeme is the longest one that the text starts with. -/
structure Longest (l : Lexeme) (cs : List Char) : Prop where
  isLexeme : IsLexeme l
  starts : l.spelling <+: cs
  longest : ∀ l', IsLexeme l' → l'.spelling <+: cs → l'.spelling.length ≤ l.spelling.length

/-! ### What lexemes are made of -/

theorem operators_chars : ∀ p ∈ operators, ∀ c ∈ p.1.toList,
    isLetter c = false ∧ c.isDigit = false ∧ isBlank c = false := by
  have hall : operators.all (fun p => p.1.toList.all fun c =>
      !isLetter c && !c.isDigit && !isBlank c) = true := by decide
  intro p hp c hc
  have hchar := List.all_eq_true.mp (List.all_eq_true.mp hall p hp) c hc
  simpa [and_assoc] using hchar

theorem operators_ne_nil : ∀ p ∈ operators, p.1.toList ≠ [] := by
  decide

variable {l l' : Lexeme} {cs rest : List Char}

theorem IsLexeme.ne_nil (h : IsLexeme l) : l.spelling ≠ [] := by
  cases h with
  | word => simp
  | number hw => simp [hw.1]
  | operator ho => exact operators_ne_nil _ ho

theorem IsLexeme.isBlank_eq_false (h : IsLexeme l) : ∀ c ∈ l.spelling, isBlank c = false := by
  intro d hd
  cases h with
  | word hc hcs =>
    rcases List.mem_cons.mp hd with rfl | hd
    · exact isBlank_of_isLetter hc
    · exact (hcs d hd).elim isBlank_of_isLetter isBlank_of_isDigit
  | @number whole part mark hw hp hm =>
    simp only [List.mem_append] at hd
    rcases hd with (hd | hd) | hd
    · exact isBlank_of_isDigit (hw.2 d hd)
    · rcases hp with rfl | ⟨ds, rfl, hds⟩
      · cases hd
      · rcases List.mem_cons.mp hd with rfl | hd
        · decide
        · exact isBlank_of_isDigit (hds.2 d hd)
    · rcases hm with rfl | rfl | rfl
      · cases hd
      · rw [List.mem_singleton.mp hd]
        decide
      · rw [List.mem_singleton.mp hd]
        decide
  | operator ho => exact (operators_chars _ ho d hd).2.2

/-! ### Words -/

theorem ofWord_eq (word : String) :
    Kind.ofWord word = (keywords.lookup word).getD .identifier := by
  unfold Kind.ofWord
  split
  case h_10 =>
    have hnone : keywords.lookup word = none := by
      simp only [List.lookup_eq_none_iff, keywords]
      simp_all
    rw [hnone]
    rfl
  all_goals rfl

theorem isWordChar_iff {c : Char} :
    isWordChar c = true ↔ isLetter c = true ∨ c.isDigit = true := by
  simp [isWordChar]

theorem isLexeme_word {c : Char} (hc : isLetter c = true) (cs : List Char) :
    IsLexeme (word ((c :: cs).takeWhile isWordChar)) := by
  have hfirst : isWordChar c = true := isWordChar_iff.mpr (.inl hc)
  unfold word
  rw [List.takeWhile_cons_of_pos hfirst, ofWord_eq]
  exact .word hc fun d hd => isWordChar_iff.mp (List.all_eq_true.mp List.all_takeWhile d hd)

theorem read_word {c : Char} {cs : List Char} (hc : isLetter c = true)
    (hcs : ∀ d ∈ cs, isLetter d = true ∨ d.isDigit = true) (rest : List Char) :
    read (c :: cs ++ rest) = some (word (c :: cs ++ rest.takeWhile isWordChar)) := by
  have hword : ∀ d ∈ c :: cs, isWordChar d = true := by
    intro d hd
    refine isWordChar_iff.mpr ?_
    rcases List.mem_cons.mp hd with rfl | hd
    · exact .inl hc
    · exact hcs d hd
  rw [← List.takeWhile_append_of_pos hword]
  simp [read, hc]

/-! ### Numbers -/

theorem fraction_spelled (cs : List Char) :
    fraction cs = [] ∨ ∃ ds, fraction cs = '.' :: ds ∧ Digits ds := by
  unfold fraction
  split
  · next cs =>
    split
    · exact .inl rfl
    · next hne =>
      exact .inr ⟨_, rfl, fun h => hne h, fun d hd => List.all_eq_true.mp List.all_takeWhile d hd⟩
  · exact .inl rfl

theorem isLexeme_number {c : Char} (hc : c.isDigit = true) (cs : List Char) :
    IsLexeme (number (c :: cs)) := by
  have hwhole : Digits ((c :: cs).takeWhile Char.isDigit) :=
    ⟨by simp [hc], fun d hd => List.all_eq_true.mp List.all_takeWhile d hd⟩
  have hnumber := IsLexeme.number hwhole
    (fraction_spelled ((c :: cs).drop ((c :: cs).takeWhile Char.isDigit).length))
    (floatMark_cases ((c :: cs).drop ((c :: cs).takeWhile Char.isDigit ++
      fraction ((c :: cs).drop ((c :: cs).takeWhile Char.isDigit).length)).length))
  unfold number
  simpa only [List.isEmpty_iff, Bool.and_eq_true, List.append_assoc] using hnumber

/-- A fraction takes in all digits behind its own. -/
theorem fraction_point {ds : List Char} (h : Digits ds) (rest : List Char) :
    fraction ('.' :: (ds ++ rest)) = '.' :: (ds ++ rest.takeWhile Char.isDigit) := by
  simp only [fraction, List.takeWhile_append_of_pos h.2]
  split
  · next hnil => exact absurd (List.append_eq_nil_iff.mp hnil).1 h.1
  · rfl

section

variable {whole part : List Char}

theorem takeWhile_isDigit (hw : Digits whole) (hr : rest.takeWhile Char.isDigit = []) :
    (whole ++ rest).takeWhile Char.isDigit = whole := by
  rw [List.takeWhile_append_of_pos hw.2, hr, List.append_nil]

/-- The digits and the fraction of a number, where nothing behind them goes on with them. -/
theorem number_eq (hw : Digits whole) (hp : part = [] ∨ ∃ ds, part = '.' :: ds ∧ Digits ds)
    (rest : List Char) (hdigit : rest.takeWhile Char.isDigit = []) (hpoint : fraction rest = []) :
    number (whole ++ (part ++ rest)) =
      ⟨if part = [] ∧ floatMark rest = [] then .intLiteral else .floatLiteral,
        whole ++ part ++ floatMark rest, whole ++ part⟩ := by
  have hwhole : (whole ++ (part ++ rest)).takeWhile Char.isDigit = whole := by
    refine takeWhile_isDigit hw ?_
    rcases hp with rfl | ⟨ds, rfl, -⟩
    · exact hdigit
    · rfl
  have hpart : fraction (part ++ rest) = part := by
    rcases hp with rfl | ⟨ds, rfl, hds⟩
    · exact hpoint
    · rw [List.cons_append, fraction_point hds, hdigit, List.append_nil]
  unfold number
  simp only [hwhole, List.drop_left, hpart]
  rw [← List.append_assoc, List.drop_left]
  simp [List.isEmpty_iff]

theorem length_le_number (hw : Digits whole)
    (hp : part = [] ∨ ∃ ds, part = '.' :: ds ∧ Digits ds) (rest : List Char) :
    (whole ++ part).length ≤ (number (whole ++ (part ++ rest))).spelling.length := by
  unfold number
  rcases hp with rfl | ⟨ds, rfl, hds⟩
  · simp only [List.nil_append, List.append_nil, List.takeWhile_append_of_pos hw.2,
      List.length_append]
    omega
  · have hwhole : (whole ++ '.' :: (ds ++ rest)).takeWhile Char.isDigit = whole :=
      takeWhile_isDigit hw rfl
    simp only [List.cons_append, hwhole, List.drop_left, fraction_point hds, List.length_append,
      List.length_cons]
    omega

end

/-! ### Operators -/

theorem operator?_operators :
    ∀ p ∈ operators, operator? p.1.toList = some ⟨p.2, p.1.toList, p.1.toList⟩ := by
  decide

theorem mem_operators_of_ofSign {c : Char} {k : Kind} (h : Kind.ofSign c = some k) :
    (String.ofList [c], k) ∈ operators := by
  unfold Kind.ofSign at h
  split at h <;> cases h <;> decide

theorem mem_operators_of_ofPair {c d : Char} {k : Kind} (h : Kind.ofPair c d = some k) :
    (String.ofList [c, d], k) ∈ operators := by
  unfold Kind.ofPair at h
  split at h <;> cases h <;> decide

theorem isLexeme_operator (h : operator? cs = some l) : IsLexeme l := by
  have htext := operator?_text h
  obtain ⟨kind, spelling, text⟩ := l
  obtain rfl : text = spelling := htext
  rcases operator?_eq_some h with ⟨c, rest, -, hs, hk⟩ | ⟨c, d, rest, -, hs, hk⟩
  · obtain rfl : text = [c] := hs
    simpa using IsLexeme.operator (mem_operators_of_ofSign hk)
  · obtain rfl : text = [c, d] := hs
    simpa using IsLexeme.operator (mem_operators_of_ofPair hk)

theorem operator?_append {p : String × Kind} (h : p ∈ operators) (rest : List Char) :
    ∃ l, operator? (p.1.toList ++ rest) = some l ∧ p.1.toList.length ≤ l.spelling.length := by
  rcases operator?_eq_some (operator?_operators p h) with ⟨c, _, -, hs, hk⟩ | ⟨c, d, _, -, hs, hk⟩
  · have hsign : sign? c = some ⟨p.2, [c], [c]⟩ := by simp [sign?, hk]
    rw [show p.1.toList = [c] from hs]
    cases rest with
    | nil => exact ⟨_, hsign, Nat.le_refl _⟩
    | cons d rest =>
      unfold operator?
      simp only [List.singleton_append]
      split
      · exact ⟨_, rfl, by simp⟩
      · exact ⟨_, hsign, Nat.le_refl _⟩
  · rw [show p.1.toList = [c, d] from hs]
    have hpair : Kind.ofPair c d = some p.2 := hk
    exact ⟨⟨p.2, [c, d], [c, d]⟩, by simp [operator?, hpair], Nat.le_refl _⟩

theorem read_eq_operator? {p : String × Kind} (h : p ∈ operators) (rest : List Char) :
    read (p.1.toList ++ rest) = operator? (p.1.toList ++ rest) := by
  cases hs : p.1.toList with
  | nil => exact absurd hs (operators_ne_nil p h)
  | cons c cs =>
    obtain ⟨hletter, hdigit, -⟩ := operators_chars p h c (by simp [hs])
    simp [read, hletter, hdigit]

/-! ### Longest match -/

theorem isLexeme_of_read (h : read cs = some l) : IsLexeme l := by
  rcases read_cases h with ⟨c, rest, rfl, hc, rfl⟩ | ⟨c, rest, rfl, hc, rfl⟩ | h
  · exact isLexeme_word hc rest
  · exact isLexeme_number hc rest
  · exact isLexeme_operator h

theorem read_number (h : Digits cs) (rest : List Char) :
    read (cs ++ rest) = some (number (cs ++ rest)) := by
  obtain ⟨c, cs, rfl⟩ := List.exists_cons_of_ne_nil h.1
  have hc : c.isDigit = true := h.2 c (by simp)
  simp [read, hc, isLetter_of_isDigit hc]

theorem IsLexeme.exists_read (h : IsLexeme l) (rest : List Char) :
    ∃ l', read (l.spelling ++ rest) = some l' ∧ l.spelling.length ≤ l'.spelling.length := by
  cases h with
  | word hc hcs => exact ⟨_, read_word hc hcs rest, by simp [Lexeme.word]⟩
  | @number whole part mark hw hp hm =>
    simp only [List.append_assoc]
    refine ⟨_, read_number hw _, ?_⟩
    -- A float mark stops digits and fraction, so that they are read as they are spelled.
    rcases hm with rfl | rfl | rfl
    · simpa using length_le_number hw hp rest
    · simp [number_eq hw hp ('f' :: rest) rfl rfl, floatMark]
    · simp [number_eq hw hp ('F' :: rest) rfl rfl, floatMark]
  | operator ho =>
    rw [read_eq_operator? ho]
    exact operator?_append ho rest

theorem IsLexeme.read_spelling (h : IsLexeme l) : read l.spelling = some l := by
  cases h with
  | word hc hcs => simpa [Lexeme.word, ofWord_eq] using read_word hc hcs []
  | @number whole part mark hw hp hm =>
    have hnumber : Lexeme.number (whole ++ (part ++ mark)) =
        ⟨if part = [] ∧ mark = [] then .intLiteral else .floatLiteral, whole ++ part ++ mark,
          whole ++ part⟩ := by
      rcases hm with rfl | rfl | rfl
      · exact number_eq hw hp [] rfl rfl
      · exact number_eq hw hp ['f'] rfl rfl
      · exact number_eq hw hp ['F'] rfl rfl
    rw [← hnumber]
    simpa only [hnumber, List.append_assoc] using read_number hw (part ++ mark)
  | operator ho => simpa [operator?_operators _ ho] using read_eq_operator? ho []

/-- Of two lexemes at the front of a text, the longest is no other than the longest. -/
theorem Longest.unique (h : Longest l cs) (h' : Longest l' cs) : l = l' := by
  have hlength : l.spelling.length = l'.spelling.length :=
    Nat.le_antisymm (h'.longest l h.isLexeme h.starts) (h.longest l' h'.isLexeme h'.starts)
  have hspelling : l.spelling = l'.spelling :=
    (List.prefix_of_prefix_length_le h.starts h'.starts (Nat.le_of_eq hlength)).eq_of_length hlength
  have hread := h.isLexeme.read_spelling
  rw [hspelling, h'.isLexeme.read_spelling] at hread
  exact (Option.some.inj hread).symm

theorem longest_of_read (h : read cs = some l) : Longest l cs := by
  obtain ⟨rest, hcs⟩ := read_append h
  refine ⟨isLexeme_of_read h, ⟨rest, hcs.symm⟩, ?_⟩
  rintro l' hl' ⟨rest', rfl⟩
  obtain ⟨l'', hread, hle⟩ := hl'.exists_read rest'
  rw [h] at hread
  cases hread
  exact hle

/-- The lexeme that is read is the longest one that the text starts with. -/
theorem read_eq_some_iff : read cs = some l ↔ Longest l cs := by
  refine ⟨longest_of_read, fun h => ?_⟩
  obtain ⟨rest, rfl⟩ := h.starts
  obtain ⟨l', hread, -⟩ := h.isLexeme.exists_read rest
  rw [hread, (longest_of_read hread).unique h]

theorem read_eq_none_iff : read cs = none ↔ ∀ l, IsLexeme l → ¬l.spelling <+: cs := by
  refine ⟨?_, fun h => ?_⟩
  · rintro hnone l hl ⟨rest, rfl⟩
    obtain ⟨l', hread, -⟩ := hl.exists_read rest
    rw [hnone] at hread
    cases hread
  · cases hread : read cs with
    | none => rfl
    | some l =>
      have hlongest := longest_of_read hread
      exact absurd hlongest.starts (h l hlongest.isLexeme)

end Lexeme

/-! ## The next token -/

theorem Place.pass_of_ne {cs : List Char} (h : ∀ c ∈ cs, c ≠ '\n') (p : Place) :
    p.pass cs = ⟨p.offset + cs.length, p.line, p.column + cs.length⟩ := by
  induction cs generalizing p with
  | nil => rfl
  | cons c cs ih =>
    have hstep : p.step c = ⟨p.offset + 1, p.line, p.column + 1⟩ := if_neg (h c (by simp))
    show (p.step c).pass cs = _
    rw [ih (fun d hd => h d (by simp [hd])), hstep]
    simp only [List.length_cons, Place.mk.injEq, true_and]
    omega

/-- No lexeme goes over the end of a line. -/
theorem Lexeme.IsLexeme.pass {l : Lexeme} (h : l.IsLexeme) (p : Place) :
    p.pass l.spelling =
      ⟨p.offset + l.spelling.length, p.line, p.column + l.spelling.length⟩ := by
  refine Place.pass_of_ne (fun c hc hline => ?_) p
  have hblank := h.isBlank_eq_false c hc
  rw [hline] at hblank
  cases hblank

namespace Cursor

theorem skipBlanks_append {blanks rest : List Char} (hb : ∀ b ∈ blanks, isBlank b = true)
    (hr : ∀ x ∈ rest.head?, isBlank x = false) (place : Place) (token : Token) :
    (Cursor.mk (blanks ++ rest) place token).skipBlanks = ⟨rest, place.pass blanks, token⟩ := by
  have htake : (blanks ++ rest).takeWhile isBlank = blanks := by
    rw [List.takeWhile_append_of_pos hb]
    cases rest with
    | nil => simp
    | cons x rest => rw [List.takeWhile_cons_of_neg (by simp [hr x rfl]), List.append_nil]
  rw [skipBlanks, htake, advance_append]

section

variable {blanks rest : List Char} (hb : ∀ b ∈ blanks, isBlank b = true) (place : Place)
  (token : Token)

include hb

theorem next_finish : (Cursor.mk blanks place token).next =
    .ok ⟨[], place.pass blanks, (place.pass blanks).token .endOfInput ""⟩ := by
  have hskip := skipBlanks_append hb (show ∀ x ∈ ([] : List Char).head?, isBlank x = false by simp)
    place token
  rw [List.append_nil] at hskip
  unfold next
  simp only [hskip]

theorem next_lexeme {l : Lexeme} (hl : Lexeme.read (l.spelling ++ rest) = some l) :
    (Cursor.mk (blanks ++ (l.spelling ++ rest)) place token).next =
      .ok ⟨rest, (place.pass blanks).pass l.spelling,
        (place.pass blanks).token l.kind (String.ofList l.text)⟩ := by
  have hlexeme := Lexeme.isLexeme_of_read hl
  obtain ⟨x, xs, hspell⟩ := List.exists_cons_of_ne_nil hlexeme.ne_nil
  have hx : isBlank x = false := hlexeme.isBlank_eq_false x (by simp [hspell])
  have hskip := skipBlanks_append hb (show ∀ y ∈ (l.spelling ++ rest).head?, isBlank y = false by
    simp [hspell, hx]) place token
  unfold next
  simp only [hskip, hl, advance_append]
  rw [hspell]
  rfl

variable {c : Char} (hc : isBlank c = false)

include hc

theorem next_error (hread : Lexeme.read (c :: rest) = none) :
    (Cursor.mk (blanks ++ c :: rest) place token).next =
      .error ⟨c, (place.pass blanks).line, (place.pass blanks).column⟩ := by
  have hskip := skipBlanks_append hb (show ∀ x ∈ (c :: rest).head?, isBlank x = false by
    simp [hc]) place token
  unfold next
  simp only [hskip, hread]

theorem skip_char : (Cursor.mk (blanks ++ c :: rest) place token).skip =
    ⟨rest, (place.pass blanks).step c, token⟩ := by
  unfold skip
  rw [skipBlanks_append hb (by simp [hc])]
  rfl

end

/-- The next token is found by longest match. Behind the blanks the text ends, or the longest lexeme
that stands there is read, or none stands there and the first character is to blame. -/
theorem next_longest (c : Cursor) :
    let rest := c.rest.dropWhile isBlank
    let place := c.place.pass (c.rest.takeWhile isBlank)
    (rest = [] → c.next = .ok ⟨[], place, place.token .endOfInput ""⟩) ∧
    ((∃ l : Lexeme, l.IsLexeme ∧ l.spelling <+: rest) →
      ∃ l : Lexeme, l.Longest rest ∧ (∀ l' : Lexeme, l'.Longest rest → l' = l) ∧
        c.next = .ok ⟨rest.drop l.spelling.length,
          ⟨place.offset + l.spelling.length, place.line, place.column + l.spelling.length⟩,
          place.token l.kind (String.ofList l.text)⟩) ∧
    ∀ ch tail, rest = ch :: tail → (∀ l : Lexeme, l.IsLexeme → ¬l.spelling <+: rest) →
      c.next = .error ⟨ch, place.line, place.column⟩ := by
  obtain ⟨cs, place, token⟩ := c
  obtain ⟨hblanks, hfirst, hcs⟩ := split_isBlank cs
  generalize cs.takeWhile isBlank = blanks at hblanks hcs ⊢
  generalize cs.dropWhile isBlank = rest at hcs hfirst ⊢
  subst hcs
  refine ⟨?_, ?_, ?_⟩
  · rintro rfl
    rw [List.append_nil]
    exact next_finish hblanks place token
  · rintro ⟨l, hl, tail, rfl⟩
    obtain ⟨l', hread, -⟩ := hl.exists_read tail
    have hlongest := Lexeme.longest_of_read hread
    refine ⟨l', hlongest, fun l'' h => h.unique hlongest, ?_⟩
    obtain ⟨tail', htail⟩ := hlongest.starts
    rw [← htail] at hread ⊢
    rw [next_lexeme hblanks place token hread, List.drop_left, hlongest.isLexeme.pass]
  · rintro ch tail rfl hnone
    exact next_error hblanks place token (hfirst ch rfl) (Lexeme.read_eq_none_iff.mpr hnone)

end Cursor

end LittleLang
