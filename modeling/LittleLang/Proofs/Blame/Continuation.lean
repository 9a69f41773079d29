import LittleLang.Proofs.Layout
import LittleLang.Proofs.Lexemes

/-!
# Going on with a text in another way

A text can be cut after one of its tokens and go on with others: after a blank the tokens before the
cut are the same, in the same places, and those after it are the ones that were put there
(`exists_text`). A lexeme is read up to the character after it, so what matters is that the cut
leaves that character in place, or puts a blank there.
-/

open LittleLang.Text LittleLang.Stream

namespace LittleLang

/-! ## The character after a lexeme -/

namespace Lexeme

/-- What comes next starts with the same character as before, or with a blank. -/
inductive Stops (rest : List Char) : List Char → Prop where
  | same {x : Char} {r r' : List Char} : rest = x :: r → Stops rest (x :: r')
  | blank {r' : List Char} : Stops rest (' ' :: r')

theorem Stops.append {rest rest' : List Char} (h : Stops rest rest') (cs : List Char) :
    Stops (cs ++ rest) (cs ++ rest') := by
  cases cs with
  | nil => exact h
  | cons c cs => exact .same rfl

theorem takeWhile_stops {p : Char → Bool} {cs rest rest' : List Char} (hp : p ' ' = false)
    (h : (cs ++ rest).takeWhile p = cs) (hs : Stops rest rest') :
    (cs ++ rest').takeWhile p = cs := by
  have hall : ∀ c ∈ cs, p c = true := by
    have := List.all_takeWhile (p := p) (l := cs ++ rest)
    rwa [h, List.all_eq_true] at this
  rw [List.takeWhile_append_of_pos hall] at h ⊢
  rw [List.append_right_eq_self] at h ⊢
  cases hs with
  | same hrest =>
    subst hrest
    rw [List.takeWhile_cons] at h ⊢
    split at h
    · cases h
    · next hx => rw [if_neg hx]
  | blank => rw [List.takeWhile_cons_of_neg (by simp [hp])]

theorem fraction_stops {cs rest rest' : List Char} (h : fraction (cs ++ rest) = cs)
    (hs : Stops rest rest') (hdot : rest'.head? ≠ some '.') : fraction (cs ++ rest') = cs := by
  cases cs with
  | nil =>
    obtain ⟨x, r, rfl⟩ : ∃ x r, rest' = x :: r := by cases hs <;> exact ⟨_, _, rfl⟩
    unfold fraction
    split
    · next heq => exact absurd (congrArg List.head? heq) hdot
    · rfl
  | cons c cs =>
    obtain ⟨rfl, hdigits⟩ : c = '.' ∧ (cs ++ rest).takeWhile Char.isDigit = cs := by
      unfold fraction at h
      split at h
      · next heq =>
        obtain ⟨rfl, rfl⟩ := List.cons.inj heq
        split at h
        · cases h
        · exact ⟨rfl, (List.cons.inj h).2⟩
      · cases h
    have hne : cs ≠ [] := by
      rintro rfl
      simp only [List.cons_append, fraction, hdigits] at h
      cases h
    show fraction ('.' :: (cs ++ rest')) = '.' :: cs
    rw [fraction, takeWhile_stops rfl hdigits hs]
    cases cs with
    | nil => exact absurd rfl hne
    | cons d ds => rfl

theorem floatMark_stops {cs rest rest' : List Char} (h : floatMark (cs ++ rest) = cs)
    (hs : Stops rest rest') : floatMark (cs ++ rest') = cs := by
  cases cs with
  | nil =>
    cases hs with
    | same hrest =>
      subst hrest
      simp only [List.nil_append, floatMark] at h ⊢
      split at h
      · cases h
      · next hx => rw [if_neg hx]
    | blank => rfl
  | cons c cs =>
    simp only [List.cons_append, floatMark] at h ⊢
    split at h
    · next hc => rw [if_pos hc, ← h]
    · cases h

structure IsNumber (l : Lexeme) (rest whole part mark : List Char) : Prop where
  digits : (whole ++ (part ++ (mark ++ rest))).takeWhile Char.isDigit = whole
  fraction : fraction (part ++ (mark ++ rest)) = part
  floatMark : floatMark (mark ++ rest) = mark
  eq : l = ⟨if part.isEmpty && mark.isEmpty then .intLiteral else .floatLiteral,
    whole ++ part ++ mark, whole ++ part⟩

theorem IsNumber.read {l : Lexeme} {rest whole part mark : List Char}
    (h : IsNumber l rest whole part mark) : number (l.spelling ++ rest) = l := by
  have hcs : l.spelling ++ rest = whole ++ (part ++ (mark ++ rest)) := by simp [h.eq]
  have hdrop : (whole ++ (part ++ (mark ++ rest))).drop (whole ++ part).length = mark ++ rest := by
    rw [← List.append_assoc, List.drop_left]
  unfold number
  simp only [hcs, h.digits, List.drop_left, h.fraction, hdrop, h.floatMark]
  exact h.eq.symm

theorem exists_isNumber {cs rest : List Char} {l : Lexeme} (h : number cs = l)
    (hcs : cs = l.spelling ++ rest) :
    ∃ whole part mark, IsNumber l rest whole part mark := by
  obtain ⟨rest₁, h₁⟩ := List.takeWhile_prefix (l := cs) Char.isDigit
  obtain ⟨rest₂, h₂⟩ := fraction_append rest₁
  obtain ⟨rest₃, h₃⟩ := floatMark_append rest₂
  have htext : cs = cs.takeWhile Char.isDigit ++ fraction rest₁ ++ rest₂ := by
    rw [List.append_assoc, ← h₂, h₁]
  have hl : l = ⟨if (fraction rest₁).isEmpty && (floatMark rest₂).isEmpty then .intLiteral
      else .floatLiteral, cs.takeWhile Char.isDigit ++ fraction rest₁ ++ floatMark rest₂,
      cs.takeWhile Char.isDigit ++ fraction rest₁⟩ := by
    rw [← h]
    unfold number
    simp only [drop_length_of_append h₁.symm, drop_length_of_append htext]
  have hrest : rest₃ = rest := by
    have hall : cs = (cs.takeWhile Char.isDigit ++ fraction rest₁ ++ floatMark rest₂) ++ rest₃ := by
      rw [List.append_assoc _ _ rest₃, ← h₃, ← htext]
    rw [hl] at hcs
    exact List.append_cancel_left (hall.symm.trans hcs)
  subst hrest
  refine ⟨_, _, _, ⟨?_, ?_, ?_, hl⟩⟩
  · rw [← h₃, ← h₂, h₁]
  · rw [← h₃, ← h₂]
  · rw [← h₃]

theorem word_stops {l : Lexeme} {rest rest' : List Char}
    (h : word ((l.spelling ++ rest).takeWhile isWordChar) = l) (hs : Stops rest rest') :
    word ((l.spelling ++ rest').takeWhile isWordChar) = l := by
  have htake : (l.spelling ++ rest).takeWhile isWordChar = l.spelling := by
    conv => rhs; rw [← h]
    rfl
  rw [takeWhile_stops (by decide +kernel) htake hs, ← htake, h]

theorem number_stops {l : Lexeme} {rest rest' : List Char} (h : number (l.spelling ++ rest) = l)
    (hs : Stops rest rest') (hdot : rest'.head? ≠ some '.') : number (l.spelling ++ rest') = l := by
  obtain ⟨whole, part, mark, hnum⟩ := exists_isNumber h rfl
  have hdot' : (mark ++ rest').head? ≠ some '.' := by
    cases mark with
    | nil => exact hdot
    | cons m ms =>
      intro hm
      obtain rfl : m = '.' := by simpa using hm
      have := hnum.floatMark
      simp [Lexeme.floatMark] at this
  have hnum' : IsNumber l rest' whole part mark :=
    ⟨takeWhile_stops rfl hnum.digits ((hs.append mark).append part),
      fraction_stops hnum.fraction (hs.append mark) hdot', floatMark_stops hnum.floatMark hs, hnum.eq⟩
  exact hnum'.read

/-- A sign of one character may be the start of a longer one, but not with a blank after it. -/
theorem operator?_stops {l : Lexeme} {rest rest' : List Char}
    (h : operator? (l.spelling ++ rest) = some l) (hs : Stops rest rest') :
    operator? (l.spelling ++ rest') = some l := by
  rcases operator?_eq_some h with ⟨c, r, -, hspell, -⟩ | ⟨c, d, r, -, hspell, -⟩
  · rw [hspell] at h ⊢
    cases hs with
    | same hrest => rwa [hrest] at h
    | blank =>
      have hpair : Kind.ofPair c ' ' = none := by
        unfold Kind.ofPair
        split <;> first | rfl | simp_all
      simp only [List.cons_append, List.nil_append, operator?, hpair]
      unfold operator? at h
      split at h
      · cases h
      · next heq =>
        obtain rfl : c = _ := (List.cons.inj heq).1
        exact h
      · next y r heq =>
        obtain rfl : c = _ := (List.cons.inj heq).1
        split at h
        · obtain rfl := Option.some.inj h
          cases hspell
        · exact h
  · rw [hspell] at h ⊢
    exact h

/-- A lexeme is read the same where what comes next starts the same, or with a blank. -/
theorem read_stops {l : Lexeme} {rest rest' : List Char} (h : read (l.spelling ++ rest) = some l)
    (hs : Stops rest rest') (hdot : rest'.head? ≠ some '.') :
    read (l.spelling ++ rest') = some l := by
  obtain ⟨c, cs, hspell⟩ := List.exists_cons_of_ne_nil (read_ne_nil h)
  have hread (r : List Char) : read (l.spelling ++ r) =
      if isLetter c then some (word ((l.spelling ++ r).takeWhile isWordChar))
      else if c.isDigit then some (number (l.spelling ++ r)) else operator? (l.spelling ++ r) := by
    rw [show l.spelling ++ r = c :: (cs ++ r) by rw [hspell]; rfl]
    rfl
  rw [hread] at h ⊢
  split at h
  · next hc => rw [if_pos hc, word_stops (Option.some.inj h) hs]
  · next hc =>
    rw [if_neg hc]
    split at h
    · next hd => rw [if_pos hd, number_stops (Option.some.inj h) hs hdot]
    · next hd => rw [if_neg hd, operator?_stops h hs]

theorem read_ne_dot {l : Lexeme} {cs : List Char} (h : read cs = some l) : cs.head? ≠ some '.' := by
  intro hdot
  cases cs with
  | nil => cases hdot
  | cons c cs =>
    obtain rfl : c = '.' := by simpa using hdot
    have hnone : read ('.' :: cs) = none := by
      have hletter : isLetter '.' = false := by decide +kernel
      have hdigit : Char.isDigit '.' = false := rfl
      simp only [read, hletter, hdigit, Bool.false_eq_true, if_false]
      cases cs <;> rfl
    rw [hnone] at h
    cases h

end Lexeme

/-! ## Reading tokens one by one -/

namespace Cursor

/-- The next token of a cursor, which is not the end of the text. -/
inductive Lexes : Cursor → Cursor → Prop where
  | mk {blanks xs rest : List Char} {x : Char} {l : Lexeme} {place : Place} {token : Token} :
      (∀ b ∈ blanks, isBlank b = true) → l.spelling = x :: xs → isBlank x = false →
      Lexeme.read (l.spelling ++ rest) = some l →
      Lexes ⟨blanks ++ (l.spelling ++ rest), place, token⟩
        ⟨rest, (place.pass blanks).pass l.spelling,
          (place.pass blanks).token l.kind (String.ofList l.text)⟩

theorem Lexes.next_eq {c c' : Cursor} (h : Lexes c c') : c.next = .ok c' := by
  cases h with
  | mk hb _ _ hl => exact next_lexeme hb _ _ hl

theorem Lexes.kind_ne {c c' : Cursor} (h : Lexes c c') : c'.token.kind ≠ .endOfInput := by
  cases h with
  | mk _ _ _ hl => exact Lexeme.read_kind_ne hl

theorem lexes_of_next {c c' : Cursor} (h : c.next = .ok c')
    (hk : c'.token.kind ≠ .endOfInput) : Lexes c c' := by
  obtain ⟨cs, place, token⟩ := c
  obtain ⟨rest, hrest⟩ := List.takeWhile_prefix (l := cs) isBlank
  have hb : ∀ b ∈ cs.takeWhile isBlank, isBlank b = true :=
    List.all_eq_true.mp List.all_takeWhile
  have hskip : (Cursor.mk cs place token).skipBlanks =
      ⟨rest, place.pass (cs.takeWhile isBlank), token⟩ := by
    rw [skipBlanks, ← advance_append, hrest]
  have hstop : ∀ x ∈ rest.head?, isBlank x = false := by
    intro x hx
    cases rest with
    | nil => cases hx
    | cons y rest =>
      obtain rfl : y = x := by simpa using hx
      cases hy : isBlank y with
      | false => rfl
      | true =>
        have htake := congrArg (List.takeWhile isBlank) hrest
        rw [List.takeWhile_append_of_pos hb, List.takeWhile_cons_of_pos hy] at htake
        have := congrArg List.length htake
        simp at this
  unfold next at h
  simp only [hskip] at h
  generalize cs.takeWhile isBlank = blanks at h hrest hb
  subst hrest
  cases rest with
  | nil =>
    cases h
    exact absurd rfl hk
  | cons x rest =>
    dsimp only at h
    split at h
    · cases h
    · next l hl =>
      obtain ⟨tail, htail⟩ := Lexeme.read_append hl
      obtain ⟨y, xs, hspell⟩ := List.exists_cons_of_ne_nil (Lexeme.read_ne_nil hl)
      obtain rfl : x = y := by
        rw [hspell] at htail
        exact (List.cons.inj htail).1
      rw [htail, advance_append] at h
      rw [htail] at hl ⊢
      cases h
      exact .mk hb hspell (hstop x rfl) hl

def withRest (c : Cursor) (rest : List Char) : Cursor :=
  { c with rest }

inductive Emits : Cursor → List Token → Cursor → Prop where
  | nil (c : Cursor) : Emits c [] c
  | cons {c c₁ c₂ : Cursor} {ts : List Token} :
      Lexes c c₁ → Emits c₁ ts c₂ → Emits c (c₁.token :: ts) c₂

theorem Emits.append {c c₁ c₂ : Cursor} {ts us : List Token} (h : Emits c ts c₁)
    (h' : Emits c₁ us c₂) : Emits c (ts ++ us) c₂ := by
  induction h with
  | nil => exact h'
  | cons hstep _ ih => exact .cons hstep (ih h')

/-- What stands behind the last token can be replaced, after a blank. -/
theorem Emits.replace {c c' : Cursor} {ts : List Token} (h : Emits c ts c') :
    ∃ front, c.rest = front ++ c'.rest ∧ ∀ rest,
      Emits (c.withRest (front ++ ' ' :: rest)) ts (c'.withRest (' ' :: rest)) := by
  induction h with
  | nil c => exact ⟨[], rfl, fun rest => .nil _⟩
  | @cons c c₁ c₂ ts hstep htail ih =>
    obtain ⟨front, hfront, ih⟩ := ih
    cases hstep with
    | @mk blanks xs rest₁ x l place token hb hspell hx hl =>
      refine ⟨blanks ++ (l.spelling ++ front), by simp [show rest₁ = _ from hfront], fun rest => ?_⟩
      -- The next lexeme, or else the blank, comes right after this one.
      have hstops : Lexeme.Stops rest₁ (front ++ ' ' :: rest) ∧
          (front ++ ' ' :: rest).head? ≠ some '.' := by
        cases front with
        | nil => exact ⟨.blank, by simp⟩
        | cons y front =>
          refine ⟨.same hfront, ?_⟩
          cases htail with
          | nil =>
            have hlength := congrArg List.length hfront
            simp only [List.length_append, List.length_cons] at hlength
            omega
          | cons hnext =>
            have hne : rest₁.head? ≠ some '.' := by
              generalize hc : Cursor.mk rest₁ _ _ = c at hnext
              cases hnext with
              | @mk blanks _ rest₂ z l₂ _ _ hb₂ hspell₂ hz hl₂ =>
                obtain rfl : rest₁ = _ := congrArg Cursor.rest hc
                cases blanks with
                | nil => exact Lexeme.read_ne_dot hl₂
                | cons b blanks =>
                  intro hdot
                  obtain rfl : b = '.' := by simpa using hdot
                  have := hb₂ '.' (by simp)
                  revert this
                  decide +kernel
            rw [show rest₁ = y :: front ++ c₂.rest from hfront] at hne
            simpa using hne
      have hread := Lexeme.read_stops hl hstops.1 hstops.2
      have hlex : Lexes ⟨blanks ++ (l.spelling ++ (front ++ ' ' :: rest)), place, token⟩ _ :=
        .mk hb hspell hx hread
      have htail := ih rest
      have hcons := Emits.cons hlex htail
      simpa [withRest] using hcons

end Cursor

namespace Stream

open Cursor

theorem emits_of_reads {rounds : Nat} {c : Cursor} {s s' : Stream} {ts : List Token}
    (h : ofCursor rounds c = .ok s) (hr : Reads s ts s') : ∃ c', Emits c ts c' := by
  induction hr generalizing rounds c with
  | nil => exact ⟨c, .nil c⟩
  | @cons head tail s' ts _ ih =>
    cases rounds with
    | zero => cases h
    | succ rounds =>
      unfold ofCursor at h
      split at h
      · cases h
      · next c₁ hc₁ =>
        dsimp only at h
        split at h
        · cases h
        · next hk =>
          split at h
          · cases h
          · next htail =>
            cases h
            obtain ⟨c', hemits⟩ := ih htail
            exact ⟨c', .cons (lexes_of_next hc₁ hk) hemits⟩

theorem ofCursor_of_emits {c c₁ c₂ : Cursor} {ts : List Token} (h : Emits c ts c₁)
    (hend : c₁.next = .ok c₂) (hk : c₂.token.kind = .endOfInput) {rounds : Nat}
    (hr : c.rest.length < rounds) :
    ∃ s, ofCursor rounds c = .ok s ∧ s.tokens = ts ++ [c₂.token] ∧ s.error? = none := by
  induction h generalizing rounds with
  | nil c =>
    obtain ⟨rounds, rfl⟩ := Nat.exists_eq_succ_of_ne_zero (show rounds ≠ 0 by omega)
    exact ⟨.finish ⟨c₂.token, c₂.place.offset⟩, by simp [ofCursor, hend, hk], rfl, rfl⟩
  | @cons c c' c₁ ts hstep _ ih =>
    obtain ⟨rounds, rfl⟩ := Nat.exists_eq_succ_of_ne_zero (show rounds ≠ 0 by omega)
    have hlt := rest_lt (step_of_next hstep.next_eq) hstep.kind_ne
    obtain ⟨tail, htail, htokens, herror⟩ := ih hend (show c'.rest.length < rounds by omega)
    refine ⟨.more ⟨c'.token, c'.place.offset⟩ tail, ?_, ?_, herror⟩
    · simp [ofCursor, hstep.next_eq, hstep.kind_ne, htail]
    · simp [tokens, htokens]

end Stream

/-! ## Tokens that can be written down -/

namespace Token

/-- The token is spelled like its text, before a blank. -/
structure Plain (t : Token) : Prop where
  read : ∀ rest, Lexeme.read (t.text.toList ++ ' ' :: rest) =
    some ⟨t.kind, t.text.toList, t.text.toList⟩
  first : ∀ x ∈ t.text.toList.head?, isBlank x = false

/-- The tokens written down one after another, each after a blank, and a blank at the end. -/
def spelled : List Token → List Char
  | [] => [' ']
  | t :: ts => ' ' :: (t.text.toList ++ spelled ts)

theorem spelled_eq_cons (ts : List Token) : ∃ r, spelled ts = ' ' :: r := by
  cases ts <;> exact ⟨_, rfl⟩

end Token

open Token

theorem blank_space : ∀ b ∈ [' '], isBlank b = true :=
  List.forall_mem_singleton.mpr (by decide +kernel)

theorem Cursor.emits_spelled {ts : List Token} (h : ∀ t ∈ ts, t.Plain) {c : Cursor}
    (hc : c.rest = spelled ts) :
    ∃ us c', Emits c us c' ∧ c'.rest = [' '] ∧ us.map unplaced = ts.map unplaced := by
  induction ts generalizing c with
  | nil => exact ⟨[], c, .nil c, hc, rfl⟩
  | cons t ts ih =>
    obtain ⟨_, place, token⟩ := c
    obtain rfl : _ = spelled (t :: ts) := hc
    have ht : t.Plain := h t (by simp)
    have hread : Lexeme.read (t.text.toList ++ spelled ts) =
        some ⟨t.kind, t.text.toList, t.text.toList⟩ := by
      obtain ⟨r, hr⟩ := spelled_eq_cons ts
      rw [hr]
      exact ht.read r
    obtain ⟨x, xs, hspell⟩ := List.exists_cons_of_ne_nil (Lexeme.read_ne_nil (ht.read []))
    have hx : isBlank x = false := ht.first x (by simp [show t.text.toList = x :: xs from hspell])
    have hlex : Lexes ⟨[' '] ++ (t.text.toList ++ spelled ts), place, token⟩ _ :=
      .mk blank_space hspell hx hread
    obtain ⟨us, c', hemits, hrest, hus⟩ := @ih (fun u hu => h u (by simp [hu]))
      ⟨spelled ts, (place.pass [' ']).pass t.text.toList,
        (place.pass [' ']).token t.kind (String.ofList t.text.toList)⟩ rfl
    refine ⟨_, c', .cons hlex hemits, hrest, ?_⟩
    rw [List.map_cons, List.map_cons, hus, String.ofList_toList]
    rfl

/-- A text that starts like another one, up to some token, and goes on with tokens of any kind. -/
theorem exists_text {text : String} {s s' : Stream} {ts us : List Token}
    (hs : Stream.ofText text = .ok s) (hr : Reads s ts s') (hus : ∀ t ∈ us, t.Plain) :
    ∃ text' us' last, tokenize text' = (ts ++ us' ++ [last], none) ∧
      us'.map unplaced = us.map unplaced ∧ last.kind = .endOfInput ∧ last.text = "" := by
  obtain ⟨c, hemits⟩ := Stream.emits_of_reads hs hr
  obtain ⟨front, -, hreplace⟩ := hemits.replace
  obtain ⟨rest, hrest⟩ := spelled_eq_cons us
  obtain ⟨us', c', hemits', hend, hus'⟩ := Cursor.emits_spelled hus
    (show (c.withRest (' ' :: rest)).rest = spelled us from hrest.symm)
  have hall := (hreplace rest).append hemits'
  obtain ⟨_, place, token⟩ := c'
  obtain rfl : _ = [' '] := hend
  have hnext := Cursor.next_finish blank_space place token
  have htext : Cursor.ofText (String.ofList (front ++ ' ' :: rest)) =
      (Cursor.ofText text).withRest (front ++ ' ' :: rest) := by
    simp [Cursor.ofText, Cursor.start, Cursor.withRest]
  obtain ⟨s₁, hs₁, htokens, herror⟩ := Stream.ofCursor_of_emits hall hnext rfl
    (show _ < (front ++ ' ' :: rest).length + 1 from Nat.lt_succ_self _)
  refine ⟨String.ofList (front ++ ' ' :: rest), us', (place.pass [' ']).token .endOfInput "", ?_,
    hus', rfl, rfl⟩
  unfold tokenize Stream.ofText
  rw [htext, String.length_ofList, hs₁]
  dsimp only
  rw [htokens, herror]

end LittleLang
