import LittleLang.Token.Stream

/-!
# Reading along a stream

`Reads s ts s'`: the stream `s` holds the tokens `ts`, and `s'` is what follows them. A stream is
`Proper` if the end-of-input token is its end and stands nowhere else, as in the stream of a text.
-/

namespace LittleLang.Stream

/-! ## Tokens in front of a stream -/

/-- The stream holds some tokens and then another stream. -/
inductive Reads : Stream → List Token → Stream → Prop where
  | nil (s : Stream) : Reads s [] s
  | cons {head : Placed} {tail s : Stream} {ts : List Token} :
      Reads tail ts s → Reads (more head tail) (head.token :: ts) s

theorem Reads.single (head : Placed) (tail : Stream) :
    Reads (more head tail) [head.token] tail :=
  .cons (.nil tail)

theorem Reads.append {s s₁ s₂ : Stream} {ts us : List Token} (h : Reads s ts s₁)
    (h' : Reads s₁ us s₂) : Reads s (ts ++ us) s₂ := by
  induction h with
  | nil => exact h'
  | cons _ ih => exact .cons (ih h')

theorem Reads.split {s s₂ : Stream} {ts us : List Token} (h : Reads s (ts ++ us) s₂) :
    ∃ s₁, Reads s ts s₁ ∧ Reads s₁ us s₂ := by
  induction ts generalizing s with
  | nil => exact ⟨s, .nil s, h⟩
  | cons t ts ih =>
    cases h with
    | cons h =>
      obtain ⟨s₁, h₁, h₂⟩ := ih h
      exact ⟨s₁, .cons h₁, h₂⟩

theorem Reads.eq_of_nil {s s' : Stream} (h : Reads s [] s') : s' = s := by
  cases h
  rfl

theorem Reads.uncons {s s' : Stream} {t : Token} {ts : List Token} (h : Reads s (t :: ts) s') :
    ∃ head tail, s = more head tail ∧ t = head.token ∧ Reads tail ts s' := by
  cases h with
  | cons h => exact ⟨_, _, rfl, rfl, h⟩

theorem Reads.token_eq {s s' : Stream} {t : Token} {ts : List Token}
    (h : Reads s (t :: ts) s') : s.token = t := by
  obtain ⟨head, tail, rfl, rfl, -⟩ := h.uncons
  rfl

theorem Reads.kind_eq {s s' : Stream} {t : Token} {ts : List Token} (h : Reads s (t :: ts) s') :
    s.kind = t.kind :=
  congrArg Token.kind h.token_eq

theorem Reads.length {s s' : Stream} {ts : List Token} (h : Reads s ts s') :
    s.length = ts.length + s'.length := by
  induction h with
  | nil => simp
  | cons _ ih =>
    simp only [Stream.length, List.length_cons, ih]
    omega

theorem Reads.length_lt {s s' : Stream} {ts : List Token} (h : Reads s ts s') (hts : ts ≠ []) :
    s'.length < s.length := by
  have := h.length
  have := List.length_pos_iff.mpr hts
  omega

theorem Reads.length_le {s s' : Stream} {ts : List Token} (h : Reads s ts s') :
    s'.length ≤ s.length := by
  have := h.length
  omega

theorem Reads.tokens {s s' : Stream} {ts : List Token} (h : Reads s ts s') :
    s.tokens = ts ++ s'.tokens := by
  induction h with
  | nil => rfl
  | cons _ ih => simp [Stream.tokens, ih]

theorem Reads.error? {s s' : Stream} {ts : List Token} (h : Reads s ts s') :
    s.error? = s'.error? := by
  induction h with
  | nil => rfl
  | cons _ ih => simpa [Stream.error?] using ih

/-- The tokens of a stream can be read one by one, but for the last. -/
theorem reads_of_tokens {s : Stream} {ts us : List Token} (h : s.tokens = ts ++ us)
    (hus : us ≠ []) : ∃ s', Reads s ts s' ∧ s'.tokens = us := by
  induction ts generalizing s with
  | nil => exact ⟨s, .nil s, h⟩
  | cons t ts ih =>
    cases s with
    | finish head => simp_all [Stream.tokens]
    | blocked head error => simp_all [Stream.tokens]
    | more head tail =>
      simp only [Stream.tokens, List.cons_append, List.cons.injEq] at h
      obtain ⟨rfl, h⟩ := h
      obtain ⟨s', hr, hs'⟩ := ih h
      exact ⟨s', .cons hr, hs'⟩

theorem kind_of_tokens (s : Stream) {t : Token} {ts : List Token} (h : s.tokens = t :: ts) :
    s.kind = t.kind := by
  cases s <;> simp_all [Stream.tokens, Stream.kind, Stream.token, Stream.head]

/-! ## Proper streams -/

/-- The end-of-input token ends the stream and stands nowhere else. -/
def Proper : Stream → Prop
  | finish head => head.token.kind = .endOfInput
  | blocked head _ => head.token.kind ≠ .endOfInput
  | more head tail => head.token.kind ≠ .endOfInput ∧ tail.Proper

theorem Reads.proper {s s' : Stream} {ts : List Token} (h : Reads s ts s') (hs : s.Proper) :
    s'.Proper := by
  induction h with
  | nil => exact hs
  | cons _ ih => exact ih hs.2

theorem Proper.eq_finish {s : Stream} (hs : s.Proper) (hk : s.kind = .endOfInput) :
    ∃ head, s = finish head := by
  cases s with
  | finish head => exact ⟨head, rfl⟩
  | blocked head error => exact absurd hk hs
  | more head tail => exact absurd hk hs.1

/-- Away from the end a proper stream goes on, or meets a lexical error. -/
theorem Proper.next_cases {s : Stream} (hs : s.Proper) (hk : s.kind ≠ .endOfInput) :
    (∃ s', s.next = .ok s' ∧ Reads s [s.token] s') ∨ ∃ e, s.next = .error e := by
  cases s with
  | finish head => exact absurd hs hk
  | blocked head error => exact .inr ⟨error, rfl⟩
  | more head tail => exact .inl ⟨tail, rfl, Reads.single head tail⟩

end LittleLang.Stream
