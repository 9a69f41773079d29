import LittleLang.Number.Numeral
import LittleLang.Proofs.Scanning
import LittleLang.Value

/-!
# Literals can be read

The text of a literal token is spelled so that its value can be read: an integer literal fails only
for its length, a float or bool literal never. A keyword that names a type is spelled like one
(`Scans.spelled`).
-/

open LittleLang.Text

namespace LittleLang

namespace Number

/-! ## Plain numerals -/

/-- An ASCII digit or a point. -/
def isPlain (c : Char) : Bool :=
  c.isDigit || c = '.'

theorem toNat_of_isDigit {c : Char} (h : c.isDigit = true) : 48 ≤ c.toNat ∧ c.toNat ≤ 57 := by
  simp only [Char.isDigit, Bool.and_eq_true, decide_eq_true_eq, ge_iff_le, UInt32.le_iff_toNat_le] at h
  exact h

theorem asciiDigit_of_isPlain {c : Char} (h : isPlain c = true) : asciiDigit c = c := by
  unfold isPlain at h
  rcases (Bool.or_eq_true _ _).mp h with h | h
  · obtain ⟨hlo, hhi⟩ := toNat_of_isDigit h
    have hvalue : digitValue? c = some (c.toNat - 48) := by
      unfold digitValue? zeroDigits
      rw [List.find?_cons_of_pos]
      · rfl
      · simp only [Bool.and_eq_true, decide_eq_true_eq]
        omega
    unfold asciiDigit
    rw [hvalue]
    show Char.ofNat (48 + (c.toNat - 48)) = c
    rw [show 48 + (c.toNat - 48) = c.toNat by omega, Char.ofNat_toNat]
  · rw [of_decide_eq_true h]
    decide

theorem isNumeralBlank_of_isPlain {c : Char} (h : isPlain c = true) : isNumeralBlank c = false := by
  unfold isPlain at h
  rcases (Bool.or_eq_true _ _).mp h with h | h
  · obtain ⟨hlo, hhi⟩ := toNat_of_isDigit h
    have hblank : ¬isBlank c = true := by
      unfold isBlank blankRanges
      rw [inRanges_iff]
      simp
      omega
    simp [isNumeralBlank, hblank]
  · rw [of_decide_eq_true h]
    decide

theorem dropWhile_isNumeralBlank {cs : List Char} (h : ∀ c ∈ cs, isPlain c = true) :
    cs.dropWhile isNumeralBlank = cs := by
  cases cs with
  | nil => rfl
  | cons c cs => simp [isNumeralBlank_of_isPlain (h c (by simp))]

theorem normalized_of_isPlain {cs : List Char} (h : ∀ c ∈ cs, isPlain c = true) :
    normalized (String.ofList cs) = cs := by
  have hmap : cs.map asciiDigit = cs := by
    conv => rhs; rw [← List.map_id cs]
    exact List.map_congr_left fun c hc => asciiDigit_of_isPlain (h c hc)
  have hrev : ∀ c ∈ cs.reverse, isPlain c = true := fun c hc => h c (List.mem_reverse.mp hc)
  unfold normalized
  rw [String.toList_ofList, hmap]
  dsimp only
  rw [dropWhile_isNumeralBlank h, dropWhile_isNumeralBlank hrev, List.reverse_reverse]

theorem ne_underscore_of_isPlain {c : Char} (h : isPlain c = true) : c ≠ '_' := by
  rintro rfl
  cases h

theorem underscoresFit_of_isPlain {before : Char} {cs : List Char} (hb : before ≠ '_')
    (h : ∀ c ∈ cs, isPlain c = true) : underscoresFit before cs = true := by
  induction cs generalizing before with
  | nil => simp [underscoresFit, hb]
  | cons c cs ih =>
    have hc := ne_underscore_of_isPlain (h c (by simp))
    simp [underscoresFit, hb, hc, ih hc fun c hc => h c (by simp [hc])]

theorem splitSign_of_isDigit {c : Char} {cs : List Char} (h : c.isDigit = true) :
    splitSign (c :: cs) = (false, c :: cs) := by
  unfold splitSign
  split
  · next heq =>
    cases heq
    cases h
  · next heq =>
    cases heq
    cases h
  · rfl

theorem takeWhile_eq_self {p : Char → Bool} {cs : List Char} (h : ∀ c ∈ cs, p c = true) :
    cs.takeWhile p = cs := by
  have happend := @List.takeWhile_append_of_pos _ p cs [] h
  simpa using happend

theorem readInt_eq_of_digits {c : Char} {cs : List Char} (h : ∀ d ∈ c :: cs, d.isDigit = true) :
    readInt (String.ofList (c :: cs)) =
      if NumberFault.maxDigits < (c :: cs).length then .error (.tooLongToRead (c :: cs).length)
      else .ok (digitsValue (c :: cs)) := by
  have hplain : ∀ d ∈ c :: cs, isPlain d = true := fun d hd => by simp [isPlain, h d hd]
  have hint : (c :: cs).takeWhile isIntChar = c :: cs :=
    takeWhile_eq_self fun d hd => by simp [isIntChar, h d hd]
  have hdigits : (c :: cs).filter Char.isDigit = c :: cs := List.filter_eq_self.mpr h
  have hfit : underscoresFit ' ' (c :: cs) = true := underscoresFit_of_isPlain (by decide) hplain
  unfold readInt
  rw [normalized_of_isPlain hplain, splitSign_of_isDigit (h c (by simp))]
  simp only [hint, hdigits, hfit]
  rw [if_neg (by decide)]
  split
  · rfl
  · rw [if_neg (by simp)]
    rfl

theorem readInt_of_digits {c : Char} {cs : List Char} (h : ∀ d ∈ c :: cs, d.isDigit = true)
    {e : NumberFault} (he : readInt (String.ofList (c :: cs)) = .error e) :
    ∃ n, e = .tooLongToRead n := by
  rw [readInt_eq_of_digits h] at he
  split at he <;> cases he
  exact ⟨_, rfl⟩

theorem readFloat_of_digits {c : Char} {cs part : List Char}
    (h : ∀ d ∈ c :: cs, d.isDigit = true)
    (hpart : part = [] ∨ ∃ ds, part = '.' :: ds ∧ ∀ d ∈ ds, d.isDigit = true) :
    ∃ x, readFloat (String.ofList (c :: cs ++ part)) = .ok x := by
  have hplain : ∀ d ∈ c :: cs ++ part, isPlain d = true := by
    intro d hd
    rcases List.mem_append.mp hd with hd | hd
    · simp [isPlain, h d hd]
    · rcases hpart with rfl | ⟨ds, rfl, hds⟩
      · cases hd
      · rcases List.mem_cons.mp hd with rfl | hd
        · rfl
        · simp [isPlain, hds d hd]
  have hfilter : (c :: cs ++ part).filter (· != '_') = c :: cs ++ part := by
    refine List.filter_eq_self.mpr fun d hd => ?_
    simp [ne_underscore_of_isPlain (hplain d hd)]
  have hfit : underscoresFit ' ' (c :: cs ++ part) = true :=
    underscoresFit_of_isPlain (by decide) hplain
  have hparts : ∃ parts, readParts (c :: cs ++ part) = some parts := by
    unfold readParts
    rcases hpart with rfl | ⟨ds, rfl, hds⟩
    · simp only [List.append_nil, takeWhile_eq_self h, List.drop_length]
      exact ⟨_, rfl⟩
    · have hwhole : (c :: cs ++ '.' :: ds).takeWhile Char.isDigit = c :: cs := by
        rw [List.takeWhile_append_of_pos h]
        simp [show Char.isDigit '.' = false from rfl]
      simp only [hwhole, List.drop_left, takeWhile_eq_self hds, List.drop_length]
      exact ⟨_, rfl⟩
  obtain ⟨parts, hparts⟩ := hparts
  have hsign : splitSign (c :: cs ++ part) = (false, c :: cs ++ part) :=
    splitSign_of_isDigit (h c (by simp))
  unfold readFloat
  rw [normalized_of_isPlain hplain]
  simp only [hfilter, hsign, hfit, hparts]
  split
  · next hfalse => cases hfalse
  · split
    · exact ⟨_, rfl⟩
    · split <;> exact ⟨_, rfl⟩

end Number

/-! ## Literal tokens -/

/-- The token has the text of a literal or of a type, if it has the kind of one. -/
structure Spelled (t : Token) : Prop where
  int : t.kind = .intLiteral → ∀ e, Number.readInt t.text = .error e → ∃ n, e = .tooLongToRead n
  float : t.kind = .floatLiteral → ∃ x, Number.readFloat t.text = .ok x
  bool : t.kind = .kwTrue ∨ t.kind = .kwFalse → ∃ b, Number.readBool t.text = .ok b
  type : t.kind.isType = true → t.text ∈ builtinTypes

def Kind.isLiteral : Kind → Bool
  | .intLiteral | .floatLiteral | .kwTrue | .kwFalse => true
  | k => k.isType

theorem spelled_of_kind {t : Token} (h : t.kind.isLiteral = false) : Spelled t := by
  refine ⟨fun hk => ?_, fun hk => ?_, fun hk => ?_, fun hk => ?_⟩
  · rw [hk] at h
    cases h
  · rw [hk] at h
    cases h
  · rcases hk with hk | hk <;> rw [hk] at h <;> cases h
  · generalize t.kind = k at h hk
    cases k <;> cases hk <;> cases h

theorem Kind.isLiteral_ofSign {c : Char} {k : Kind} (h : Kind.ofSign c = some k) :
    k.isLiteral = false := by
  unfold Kind.ofSign at h
  split at h <;> cases h <;> rfl

theorem Kind.isLiteral_ofPair {c d : Char} {k : Kind} (h : Kind.ofPair c d = some k) :
    k.isLiteral = false := by
  unfold Kind.ofPair at h
  split at h <;> cases h <;> rfl

theorem Kind.ofWord_eq_true {word : String} (h : Kind.ofWord word = .kwTrue) : word = "true" := by
  unfold Kind.ofWord at h
  split at h <;> simp_all

theorem Kind.ofWord_eq_false {word : String} (h : Kind.ofWord word = .kwFalse) :
    word = "false" := by
  unfold Kind.ofWord at h
  split at h <;> simp_all

theorem Kind.ofWord_isType {word : String} (h : (Kind.ofWord word).isType = true) :
    word ∈ builtinTypes := by
  unfold Kind.ofWord at h
  split at h <;> cases h <;> simp [builtinTypes, intType, floatType, boolType]

theorem Kind.ofWord_ne_number (word : String) :
    Kind.ofWord word ≠ .intLiteral ∧ Kind.ofWord word ≠ .floatLiteral := by
  unfold Kind.ofWord
  split <;> simp

namespace Lexeme

theorem fraction_cases (cs : List Char) :
    fraction cs = [] ∨ ∃ ds, fraction cs = '.' :: ds ∧ ∀ d ∈ ds, d.isDigit = true := by
  unfold fraction
  split
  · next cs =>
    split
    · exact .inl rfl
    · refine .inr ⟨_, rfl, fun d hd => ?_⟩
      exact List.all_eq_true.mp List.all_takeWhile d hd
  · exact .inl rfl

/-- A number has digits and a fraction; an integer literal has none. -/
theorem number_text {c : Char} (h : c.isDigit = true) (cs : List Char) :
    ∃ ds part, (number (c :: cs)).text = c :: ds ++ part ∧ (∀ d ∈ c :: ds, d.isDigit = true) ∧
      (part = [] ∨ ∃ fs, part = '.' :: fs ∧ ∀ d ∈ fs, d.isDigit = true) ∧
      ((number (c :: cs)).kind = .intLiteral → part = []) := by
  have hwhole : (c :: cs).takeWhile Char.isDigit = c :: cs.takeWhile Char.isDigit := by simp [h]
  refine ⟨cs.takeWhile Char.isDigit, _, ?_, ?_,
    fraction_cases ((c :: cs).drop ((c :: cs).takeWhile Char.isDigit).length), ?_⟩
  · unfold number
    rw [← hwhole]
  · rw [← hwhole]
    exact List.all_eq_true.mp List.all_takeWhile
  · intro hk
    unfold number at hk
    dsimp only at hk
    split at hk
    · next hempty => exact List.isEmpty_iff.mp ((Bool.and_eq_true _ _).mp hempty).1
    · cases hk

theorem number_kind (cs : List Char) :
    (number cs).kind = .intLiteral ∨ (number cs).kind = .floatLiteral := by
  unfold number
  dsimp only
  split
  · exact .inl rfl
  · exact .inr rfl

variable {t : Token}

theorem spelled_number {c : Char} {cs : List Char} (h : c.isDigit = true)
    (hk : t.kind = (number (c :: cs)).kind)
    (ht : t.text = String.ofList (number (c :: cs)).text) : Spelled t := by
  obtain ⟨ds, part, htext, hds, hpart, hint⟩ := number_text h cs
  rw [htext] at ht
  refine ⟨fun hk' e he => ?_, fun _ => ?_, fun hk' => ?_, fun hk' => ?_⟩
  · rw [hint (hk.symm.trans hk'), List.append_nil] at ht
    rw [ht] at he
    exact Number.readInt_of_digits hds he
  · rw [ht]
    exact Number.readFloat_of_digits hds hpart
  · rw [hk] at hk'
    rcases number_kind (c :: cs) with h | h <;> rw [h] at hk' <;> simp at hk'
  · rw [hk] at hk'
    rcases number_kind (c :: cs) with h | h <;> rw [h] at hk' <;> cases hk'

theorem spelled_word {spelling : List Char} (hk : t.kind = (word spelling).kind)
    (ht : t.text = String.ofList (word spelling).text) : Spelled t := by
  have hk : t.kind = Kind.ofWord t.text := by
    rw [hk, ht]
    rfl
  obtain ⟨hint, hfloat⟩ := Kind.ofWord_ne_number t.text
  rw [← hk] at hint hfloat
  refine ⟨fun h => absurd h hint, fun h => absurd h hfloat, fun h => ?_,
    fun h => Kind.ofWord_isType (hk ▸ h)⟩
  rcases h with h | h
  · rw [Kind.ofWord_eq_true (hk.symm.trans h)]
    exact ⟨true, rfl⟩
  · rw [Kind.ofWord_eq_false (hk.symm.trans h)]
    exact ⟨false, rfl⟩

theorem spelled_read {cs : List Char} {l : Lexeme} (h : read cs = some l) (hk : t.kind = l.kind)
    (ht : t.text = String.ofList l.text) : Spelled t := by
  rcases read_cases h with ⟨c, rest, rfl, -, rfl⟩ | ⟨c, rest, rfl, hc, rfl⟩ | h
  · exact spelled_word hk ht
  · exact spelled_number hc hk ht
  · refine spelled_of_kind ?_
    rw [hk]
    rcases operator?_eq_some h with ⟨c, rest, -, -, hs⟩ | ⟨c, d, rest, -, -, hp⟩
    · exact Kind.isLiteral_ofSign hs
    · exact Kind.isLiteral_ofPair hp

end Lexeme

theorem Cursor.Step.spelled {c c' : Cursor} (h : Cursor.Step c c') : Spelled c'.token := by
  cases h with
  | finish => exact spelled_of_kind rfl
  | lexeme h => exact Lexeme.spelled_read h rfl rfl

theorem Stream.Scans.spelled {c : Cursor} {s : Stream} (h : Stream.Scans c s) :
    ∀ t ∈ s.tokens, Spelled t := by
  induction h with
  | finish hstep => simpa [Stream.tokens] using hstep.spelled
  | blocked hstep => simpa [Stream.tokens] using hstep.spelled
  | more hstep _ _ ih => simpa [Stream.tokens] using ⟨hstep.spelled, ih⟩

end LittleLang
