import LittleLang.Proofs.Reading

/-!
# The tokens of a text

`Scans c s`: the stream `s` holds the tokens that follow the cursor `c`, one by one. The stream of a
text is one of these (`scans_of_ofText`): the rounds that `Stream.ofCursor` is given are enough,
since each lexeme takes a character at least. What a stream of a text looks like follows by
induction: it is proper, its offsets increase, and each token is spelled like its kind. -/

open LittleLang.Text

namespace LittleLang

/-! ## Lexemes -/

theorem Kind.ofWord_ne_endOfInput (word : String) : Kind.ofWord word ≠ .endOfInput := by
  unfold Kind.ofWord
  split <;> simp

namespace Lexeme

theorem fraction_append (cs : List Char) : ∃ rest, cs = fraction cs ++ rest := by
  unfold fraction
  split
  · split
    · exact ⟨_, rfl⟩
    · next cs digits h =>
      obtain ⟨rest, hrest⟩ := List.takeWhile_prefix (l := cs) Char.isDigit
      exact ⟨rest, by simp [hrest]⟩
  · exact ⟨_, rfl⟩

theorem floatMark_append (cs : List Char) : ∃ rest, cs = floatMark cs ++ rest := by
  unfold floatMark
  split
  · split
    · exact ⟨_, rfl⟩
    · exact ⟨_, rfl⟩
  · exact ⟨_, rfl⟩

theorem drop_length_of_append {cs front rest : List Char} (h : cs = front ++ rest) :
    cs.drop front.length = rest := by
  rw [h, List.drop_left]

theorem number_append (cs : List Char) : ∃ rest, cs = (number cs).spelling ++ rest := by
  obtain ⟨rest₁, h₁⟩ := List.takeWhile_prefix (l := cs) Char.isDigit
  obtain ⟨rest₂, h₂⟩ := fraction_append rest₁
  obtain ⟨rest₃, h₃⟩ := floatMark_append rest₂
  have hcs : cs = cs.takeWhile Char.isDigit ++ fraction rest₁ ++ rest₂ := by
    rw [List.append_assoc, ← h₂, h₁]
  refine ⟨rest₃, ?_⟩
  unfold number
  simp only [drop_length_of_append h₁.symm, drop_length_of_append hcs]
  rw [List.append_assoc _ _ rest₃, ← h₃, ← hcs]

theorem sign?_eq_some {c : Char} {l : Lexeme} (h : sign? c = some l) :
    l.spelling = [c] ∧ l.text = [c] ∧ Kind.ofSign c = some l.kind := by
  unfold sign? at h
  simp only [Option.map_eq_some_iff] at h
  obtain ⟨k, hk, rfl⟩ := h
  exact ⟨rfl, rfl, hk⟩

theorem operator?_eq_some {cs : List Char} {l : Lexeme} (h : operator? cs = some l) :
    (∃ c rest, cs = c :: rest ∧ l.spelling = [c] ∧ Kind.ofSign c = some l.kind) ∨
      ∃ c d rest, cs = c :: d :: rest ∧ l.spelling = [c, d] ∧ Kind.ofPair c d = some l.kind := by
  unfold operator? at h
  split at h
  · cases h
  · obtain ⟨hs, -, hk⟩ := sign?_eq_some h
    exact .inl ⟨_, _, rfl, hs, hk⟩
  · split at h
    · next k hk =>
      cases h
      exact .inr ⟨_, _, _, rfl, rfl, hk⟩
    · obtain ⟨hs, -, hk⟩ := sign?_eq_some h
      exact .inl ⟨_, _, rfl, hs, hk⟩

theorem read_cases {cs : List Char} {l : Lexeme} (h : read cs = some l) :
    (∃ c rest, cs = c :: rest ∧ isLetter c = true ∧ l = word (cs.takeWhile isWordChar)) ∨
      (∃ c rest, cs = c :: rest ∧ c.isDigit = true ∧ l = number cs) ∨ operator? cs = some l := by
  unfold read at h
  split at h
  · cases h
  · split at h
    · next c rest hc =>
      cases h
      exact .inl ⟨c, rest, rfl, hc, rfl⟩
    · split at h
      · next c rest _ hc =>
        cases h
        exact .inr (.inl ⟨c, rest, rfl, hc, rfl⟩)
      · exact .inr (.inr h)

theorem read_append {cs : List Char} {l : Lexeme} (h : read cs = some l) :
    ∃ rest, cs = l.spelling ++ rest := by
  rcases read_cases h with ⟨c, tail, -, -, rfl⟩ | ⟨c, tail, -, -, rfl⟩ | h
  · obtain ⟨rest, hrest⟩ := List.takeWhile_prefix (l := cs) isWordChar
    exact ⟨rest, hrest.symm⟩
  · exact number_append cs
  · rcases operator?_eq_some h with ⟨c, rest, rfl, hs, -⟩ | ⟨c, d, rest, rfl, hs, -⟩
    · exact ⟨rest, by simp [hs]⟩
    · exact ⟨rest, by simp [hs]⟩

theorem read_ne_nil {cs : List Char} {l : Lexeme} (h : read cs = some l) : l.spelling ≠ [] := by
  rcases read_cases h with ⟨c, tail, rfl, hc, rfl⟩ | ⟨c, tail, rfl, hc, rfl⟩ | h
  · simp [word, isWordChar, hc]
  · simp [number, hc]
  · rcases operator?_eq_some h with ⟨c, rest, rfl, hs, -⟩ | ⟨c, d, rest, rfl, hs, -⟩
    · simp [hs]
    · simp [hs]

theorem read_kind_ne {cs : List Char} {l : Lexeme} (h : read cs = some l) :
    l.kind ≠ .endOfInput := by
  rcases read_cases h with ⟨c, tail, -, -, rfl⟩ | ⟨c, tail, -, -, rfl⟩ | h
  · exact Kind.ofWord_ne_endOfInput _
  · unfold number
    dsimp only
    split <;> simp
  · intro hk
    rcases operator?_eq_some h with ⟨c, rest, -, -, hs⟩ | ⟨c, d, rest, -, -, hp⟩
    · rw [hk] at hs
      unfold Kind.ofSign at hs
      split at hs <;> simp_all
    · rw [hk] at hp
      unfold Kind.ofPair at hp
      split at hp <;> simp_all

/-- `!` is the only spelling of its kind. -/
theorem read_bang {cs : List Char} {l : Lexeme} (h : read cs = some l) (hk : l.kind = .bang) :
    l.spelling = ['!'] := by
  rcases read_cases h with ⟨c, tail, -, -, rfl⟩ | ⟨c, tail, -, -, rfl⟩ | h
  · unfold word Kind.ofWord at hk
    dsimp only at hk
    split at hk <;> cases hk
  · unfold number at hk
    dsimp only at hk
    split at hk <;> cases hk
  · rcases operator?_eq_some h with ⟨c, rest, -, hs, hc⟩ | ⟨c, d, rest, -, -, hp⟩
    · rw [hk] at hc
      unfold Kind.ofSign at hc
      split at hc <;> simp_all
    · rw [hk] at hp
      unfold Kind.ofPair at hp
      split at hp <;> simp_all

end Lexeme

/-! ## Cursors -/

theorem Place.pass_offset (p : Place) (cs : List Char) :
    (p.pass cs).offset = p.offset + cs.length := by
  induction cs generalizing p with
  | nil => rfl
  | cons c cs ih =>
    have hstep : (p.step c).offset = p.offset + 1 := by
      unfold Place.step
      split <;> rfl
    show ((p.step c).pass cs).offset = _
    rw [ih, hstep, List.length_cons]
    omega

namespace Cursor

/-- What reading a token does: it passes over blanks, and then the text ends or a lexeme is read. -/
inductive Step : Cursor → Cursor → Prop where
  | finish {blanks : List Char} {place : Place} {token : Token} :
      Step ⟨blanks, place, token⟩
        ⟨[], place.pass blanks, (place.pass blanks).token .endOfInput ""⟩
  | lexeme {blanks rest : List Char} {l : Lexeme} {place : Place} {token : Token} :
      Lexeme.read (l.spelling ++ rest) = some l →
      Step ⟨blanks ++ (l.spelling ++ rest), place, token⟩
        ⟨rest, (place.pass blanks).pass l.spelling,
          (place.pass blanks).token l.kind (String.ofList l.text)⟩

theorem advance_append (front rest : List Char) (place : Place) (token : Token) :
    (Cursor.mk (front ++ rest) place token).advance front.length =
      ⟨rest, place.pass front, token⟩ := by
  simp [advance]

theorem step_of_next {c c' : Cursor} (h : c.next = .ok c') : Step c c' := by
  obtain ⟨cs, place, token⟩ := c
  obtain ⟨rest, hrest⟩ := List.takeWhile_prefix (l := cs) isBlank
  have hskip : (Cursor.mk cs place token).skipBlanks =
      ⟨rest, place.pass (cs.takeWhile isBlank), token⟩ := by
    rw [skipBlanks, ← advance_append, hrest]
  unfold next at h
  simp only [hskip] at h
  generalize cs.takeWhile isBlank = blanks at h hrest
  subst hrest
  cases rest with
  | nil =>
    cases h
    rw [List.append_nil]
    exact .finish
  | cons ch rest =>
    dsimp only at h
    split at h
    · cases h
    · next l hl =>
      obtain ⟨tail, htail⟩ := Lexeme.read_append hl
      rw [htail, advance_append] at h
      rw [htail] at hl ⊢
      cases h
      exact .lexeme hl

end Cursor

namespace Stream

/-! ## Streams of a text -/

inductive Scans : Cursor → Stream → Prop where
  | finish {c c' : Cursor} : Cursor.Step c c' → c'.token.kind = .endOfInput →
      Scans c (.finish ⟨c'.token, c'.place.offset⟩)
  | blocked {c c' : Cursor} {e : LexicalError} : Cursor.Step c c' →
      c'.token.kind ≠ .endOfInput → Scans c (.blocked ⟨c'.token, c'.place.offset⟩ e)
  | more {c c' : Cursor} {tail : Stream} : Cursor.Step c c' → c'.token.kind ≠ .endOfInput →
      Scans c' tail → Scans c (.more ⟨c'.token, c'.place.offset⟩ tail)

/-- Reading a token leaves less of the text, unless it is at its end. -/
theorem rest_lt {c c' : Cursor} (h : Cursor.Step c c') (hk : c'.token.kind ≠ .endOfInput) :
    c'.rest.length < c.rest.length := by
  cases h with
  | finish => exact absurd rfl hk
  | lexeme h =>
    have := List.length_pos_iff.mpr (Lexeme.read_ne_nil h)
    simp only [List.length_append]
    omega

theorem scans_of_ofCursor {rounds : Nat} {c : Cursor} {s : Stream}
    (h : ofCursor rounds c = .ok s) (hr : c.rest.length < rounds) :
    Scans c s ∧ s.length ≤ rounds := by
  induction rounds generalizing c s with
  | zero => omega
  | succ rounds ih =>
    unfold ofCursor at h
    split at h
    · cases h
    · next c' hc =>
      have hstep := Cursor.step_of_next hc
      dsimp only at h
      split at h
      · next hk =>
        cases h
        exact ⟨.finish hstep hk, by simp [Stream.length]⟩
      · next hk =>
        split at h
        · cases h
          exact ⟨.blocked hstep hk, by simp [Stream.length]⟩
        · next tail htail =>
          have hlt := rest_lt hstep hk
          obtain ⟨hscan, hlen⟩ := ih htail (by omega)
          cases h
          exact ⟨.more hstep hk hscan, by simp [Stream.length, hlen]⟩

theorem scans_of_ofText {text : String} {s : Stream} (h : ofText text = .ok s) :
    Scans (.ofText text) s ∧ s.length ≤ text.length + 1 :=
  scans_of_ofCursor h (by simp [Cursor.ofText, Cursor.start, String.length_toList])

theorem Scans.proper {c : Cursor} {s : Stream} (h : Scans c s) : s.Proper := by
  induction h with
  | finish _ hk => exact hk
  | blocked _ hk => exact hk
  | more _ hk _ ih => exact ⟨hk, ih⟩

/-! ### Offsets -/

/-- The offsets increase from token to token; only the end of the text may have the offset of the
token before it. -/
def Ordered : Stream → Prop
  | .finish _ | .blocked _ _ => True
  | .more head tail => tail.Ordered ∧
      (head.stop < tail.head.stop ∨ head.stop = tail.head.stop ∧ ∃ last, tail = .finish last)

theorem Scans.stop_le {c : Cursor} {s : Stream} (h : Scans c s) :
    c.place.offset < s.head.stop ∨ c.place.offset = s.head.stop ∧ ∃ last, s = .finish last := by
  have hlt {c c' : Cursor} (hstep : Cursor.Step c c') (hk : c'.token.kind ≠ .endOfInput) :
      c.place.offset < c'.place.offset := by
    cases hstep with
    | finish => exact absurd rfl hk
    | lexeme h =>
      have := List.length_pos_iff.mpr (Lexeme.read_ne_nil h)
      simp only [Place.pass_offset]
      omega
  cases h with
  | finish hstep _ =>
    cases hstep with
    | @finish blanks place token =>
      rcases Nat.eq_zero_or_pos blanks.length with h | h
      · exact .inr ⟨by simp [Stream.head, Place.pass_offset, h], _, rfl⟩
      · exact .inl (by simp [Stream.head, Place.pass_offset, h])
    | lexeme h => exact absurd ‹_› (Lexeme.read_kind_ne h)
  | blocked hstep hk => exact .inl (hlt hstep hk)
  | more hstep hk _ => exact .inl (hlt hstep hk)

theorem Scans.ordered {c : Cursor} {s : Stream} (h : Scans c s) : s.Ordered := by
  induction h with
  | finish => trivial
  | blocked => trivial
  | more _ _ h ih => exact ⟨ih, h.stop_le⟩

/-- A `!` right before the end of the text is its last character. -/
theorem Scans.bang_last {text : List Char} {c : Cursor} {s : Stream} (h : Scans c s)
    {front : List Char} (htext : text = front ++ c.rest) {l e : Placed} {ts : List Token}
    (hr : Reads s ts (.more l (.finish e))) (hk : l.token.kind = .bang) (hstop : l.stop = e.stop) :
    text.getLast? = some '!' := by
  induction h generalizing front ts with
  | finish => cases hr
  | blocked => cases hr
  | @more c c' tail hstep hkind hscan ih =>
    cases hstep with
    | finish => exact absurd rfl hkind
    | @lexeme blanks rest lx place token hlx =>
      cases hr with
      | cons hr =>
        have htext : text = (front ++ blanks ++ lx.spelling) ++ rest := by simp [htext]
        exact ih htext hr
      | nil =>
        have hspell := Lexeme.read_bang hlx hk
        cases hscan with
        | finish hend hkend =>
          cases hend with
          | lexeme h => exact absurd hkend (Lexeme.read_kind_ne h)
          | finish =>
            have : rest = [] := by
              simp only [Place.pass_offset] at hstop
              exact List.length_eq_zero_iff.mp (by omega)
            subst this
            simp [htext, hspell]

end Stream

end LittleLang
