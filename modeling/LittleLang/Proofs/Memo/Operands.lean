import LittleLang.Proofs.Scanning

/-!
# Where a number may be asked for

The memo of the parser knows a token by the offset after it, and the end of the text may share that
offset with the token before it. So it matters at which of the two a number can be asked for. Two
states are enough to tell: whether an operand is expected after the tokens read so far
(`expectsAfter`). A rule that asks for a number stands where an operand is expected, or on a token
that starts an expression on its own (`AtOperand`); every rule ends where none is (`AtEnd`). Two
such places with one offset are an opening parenthesis or a `!` and the end of the text right after
it (`AtOperand.eq_or_twins`). -/

namespace LittleLang

/-- Whether an operand is expected after a token of this kind, given whether one was expected before
it. An operator in the place of an operand leads nowhere. -/
def Kind.expects (expected : Bool) : Kind → Bool
  | .leftParen | .bang => true
  | .less | .greater | .lessEq | .greaterEq | .equal | .notEqual | .andAnd | .orOr => !expected
  | .comma | .assign | .kwReturn | .kwIf => !expected
  | _ => false

namespace Stream

/-- Whether an operand is expected after some tokens. -/
def expectsAfter (ts : List Token) : Bool :=
  ts.foldl (fun expected t => t.kind.expects expected) false

theorem expectsAfter_concat (ts : List Token) (t : Token) :
    expectsAfter (ts ++ [t]) = t.kind.expects (expectsAfter ts) := by
  simp [expectsAfter]

def Within (whole s : Stream) : Prop :=
  ∃ ts, Reads whole ts s

def AtOperand (whole s : Stream) : Prop :=
  ∃ ts, Reads whole ts s ∧ (expectsAfter ts = true ∨ s.kind.startsExpression = true)

def AtEnd (whole s : Stream) : Prop :=
  ∃ ts, Reads whole ts s ∧ expectsAfter ts = false

/-! ## Moving on -/

section

variable {whole s s' : Stream}

theorem AtOperand.within (h : AtOperand whole s) : Within whole s := by
  obtain ⟨ts, hr, -⟩ := h
  exact ⟨ts, hr⟩

theorem AtEnd.within (h : AtEnd whole s) : Within whole s := by
  obtain ⟨ts, hr, -⟩ := h
  exact ⟨ts, hr⟩

theorem Within.next (h : Within whole s) (hr : Reads s [s.token] s') : Within whole s' := by
  obtain ⟨ts, hts⟩ := h
  exact ⟨ts ++ [s.token], hts.append hr⟩

theorem Within.proper (h : Within whole s) (hw : whole.Proper) : s.Proper := by
  obtain ⟨ts, hr⟩ := h
  exact hr.proper hw

/-- After `(` and `!` an operand is expected in any case. -/
theorem Within.next_operand (h : Within whole s) (hr : Reads s [s.token] s')
    (hk : ∀ b, s.kind.expects b = true) : AtOperand whole s' := by
  obtain ⟨ts, hts⟩ := h
  refine ⟨ts ++ [s.token], hts.append hr, .inl ?_⟩
  rw [expectsAfter_concat]
  exact hk _

theorem Within.next_end (h : Within whole s) (hr : Reads s [s.token] s')
    (hk : ∀ b, s.kind.expects b = false) : AtEnd whole s' := by
  obtain ⟨ts, hts⟩ := h
  refine ⟨ts ++ [s.token], hts.append hr, ?_⟩
  rw [expectsAfter_concat]
  exact hk _

theorem AtEnd.next_operand (h : AtEnd whole s) (hr : Reads s [s.token] s')
    (hk : s.kind.expects false = true) : AtOperand whole s' := by
  obtain ⟨ts, hts, he⟩ := h
  refine ⟨ts ++ [s.token], hts.append hr, .inl ?_⟩
  rw [expectsAfter_concat, he]
  exact hk

theorem AtEnd.operand (h : AtEnd whole s) (hk : s.kind.startsExpression = true) :
    AtOperand whole s := by
  obtain ⟨ts, hr, -⟩ := h
  exact ⟨ts, hr, .inr hk⟩

theorem atEnd_whole (whole : Stream) : AtEnd whole whole :=
  ⟨[], .nil whole, rfl⟩

end

/-! ## Places with one offset -/

/-- Of two parts of a stream one is a part of the other. -/
theorem Reads.comparable {whole s₁ s₂ : Stream} {ts us : List Token} (h₁ : Reads whole ts s₁)
    (h₂ : Reads whole us s₂) :
    (∃ vs, us = ts ++ vs ∧ Reads s₁ vs s₂) ∨ ∃ vs, ts = us ++ vs ∧ Reads s₂ vs s₁ := by
  induction h₁ generalizing us with
  | nil => exact .inl ⟨us, rfl, h₂⟩
  | @cons head tail s₁ ts h₁ ih =>
    cases h₂ with
    | nil => exact .inr ⟨head.token :: ts, rfl, .cons h₁⟩
    | cons h₂ =>
      rcases ih h₂ with ⟨vs, rfl, h⟩ | ⟨vs, rfl, h⟩
      · exact .inl ⟨vs, rfl, h⟩
      · exact .inr ⟨vs, rfl, h⟩

theorem Reads.ordered {s s' : Stream} {ts : List Token} (h : Reads s ts s') (ho : s.Ordered) :
    s'.Ordered := by
  induction h with
  | nil => exact ho
  | cons _ ih => exact ih ho.1

/-- The offset grows on the way to a later part, unless that is the end of the text right after. -/
theorem Reads.stop_lt {s s' : Stream} {ts : List Token} (h : Reads s ts s') (ho : s.Ordered)
    (hts : ts ≠ []) : s.head.stop < s'.head.stop ∨
      ∃ l e, s = .more l (.finish e) ∧ s' = .finish e ∧ ts = [l.token] ∧ l.stop = e.stop := by
  induction h with
  | nil => exact absurd rfl hts
  | @cons head tail s ts h ih =>
    obtain ⟨ho, hstop⟩ := ho
    by_cases hnil : ts = []
    · subst hnil
      obtain rfl := h.eq_of_nil
      rcases hstop with hlt | ⟨heq, last, rfl⟩
      · exact .inl hlt
      · exact .inr ⟨head, last, rfl, rfl, rfl, heq⟩
    · have hle : head.stop ≤ tail.head.stop := by
        rcases hstop with h | h <;> omega
      rcases ih ho hnil with hlt | ⟨l, e, rfl, rfl, rfl, hle'⟩
      · exact .inl (Nat.lt_of_le_of_lt hle hlt)
      · rcases hstop with hlt | ⟨-, last, hlast⟩
        · refine .inl ?_
          simp only [Stream.head] at hlt ⊢
          omega
        · cases hlast

/-- An opening parenthesis or a `!`, and the end of the text right after it. -/
def Twins (s₁ s₂ : Stream) : Prop :=
  ∃ l e, s₁ = .more l (.finish e) ∧ s₂ = .finish e ∧ l.stop = e.stop ∧
    (l.token.kind = .leftParen ∨ l.token.kind = .bang)

/-- Only `(` and `!` are operands themselves and expect an operand after them. -/
theorem twins_kind {k : Kind} {expected : Bool} (h : k.expects expected = true)
    (hk : expected = true ∨ k.startsExpression = true) : k = .leftParen ∨ k = .bang := by
  cases expected <;> cases k <;> simp_all [Kind.expects, Kind.startsExpression]

theorem twins_of_later {whole s₁ s₂ : Stream} {ts vs : List Token} (hw : whole.Proper)
    (ho : whole.Ordered) (hr : Reads whole ts s₁) (hv : Reads s₁ vs s₂)
    (h₁ : expectsAfter ts = true ∨ s₁.kind.startsExpression = true)
    (h₂ : expectsAfter (ts ++ vs) = true ∨ s₂.kind.startsExpression = true)
    (hstop : s₁.head.stop = s₂.head.stop) : s₁ = s₂ ∨ Twins s₁ s₂ := by
  by_cases hnil : vs = []
  · subst hnil
    exact .inl hv.eq_of_nil.symm
  · rcases hv.stop_lt (hr.ordered ho) hnil with hlt | ⟨l, e, rfl, rfl, rfl, hle⟩
    · omega
    · have hend : (Stream.finish e).kind = .endOfInput := hv.proper (hr.proper hw)
      rw [expectsAfter_concat, hend] at h₂
      have h₂ := h₂.resolve_right (by decide)
      exact .inr ⟨l, e, rfl, rfl, hle, twins_kind h₂ h₁⟩

theorem AtOperand.eq_or_twins {whole s₁ s₂ : Stream} (hw : whole.Proper) (ho : whole.Ordered)
    (h₁ : AtOperand whole s₁) (h₂ : AtOperand whole s₂) (hstop : s₁.head.stop = s₂.head.stop) :
    s₁ = s₂ ∨ Twins s₁ s₂ ∨ Twins s₂ s₁ := by
  obtain ⟨ts, hr₁, hk₁⟩ := h₁
  obtain ⟨us, hr₂, hk₂⟩ := h₂
  rcases hr₁.comparable hr₂ with ⟨vs, rfl, hv⟩ | ⟨vs, rfl, hv⟩
  · rcases twins_of_later hw ho hr₁ hv hk₁ hk₂ hstop with h | h
    · exact .inl h
    · exact .inr (.inl h)
  · rcases twins_of_later hw ho hr₂ hv hk₂ hk₁ hstop.symm with h | h
    · exact .inl h.symm
    · exact .inr (.inr h)

end Stream

end LittleLang
