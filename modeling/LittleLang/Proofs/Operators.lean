import LittleLang.Value.Operators

/-!
# When operators fail

An operator fails with an error of the run that blames its token, or for an integer that is to be
rounded to a float and is too large for that (`applied_unary`, `applied_binary`). So what
`applyUnary` and `applyBinary` look at before they go on is enough: no plain form of an operator
meets operands that it is not defined on, and nothing is divided by zero. Of the token, only its
kind and its text matter. -/

namespace LittleLang

def RuntimeCause.isOfOperands : RuntimeCause → Bool
  | unaryOperand .. | binaryOperands .. | divisionByZero | unknownOperator _ => true
  | variableNotFound _ | functionNotFound _ | argumentCount .. => false

/-! ## Numbers -/

namespace Numeric

variable {x y : Numeric} {e : Failure}

theorem toFloat_eq_error (h : x.toFloat = .error e) : e = .number .beyondFloat := by
  cases x with
  | int n =>
    unfold toFloat at h
    dsimp only at h
    split at h
    · cases h
    · exact (Except.error.inj h).symm
  | float x => cases h

/-- What is done with two numbers as floats fails for one that cannot be rounded, or by itself. -/
theorem error_of_floats {f : Float → Float → Except Failure Value}
    (h : (do f (← x.toFloat) (← y.toFloat)) = .error e)
    (hf : ∀ p q, f p q = .error e → e = .number .beyondFloat) : e = .number .beyondFloat := by
  cases hx : x.toFloat with
  | error e' =>
    rw [hx] at h
    cases h
    exact toFloat_eq_error hx
  | ok p =>
    cases hy : y.toFloat with
    | error e' =>
      rw [hx, hy] at h
      cases h
      exact toFloat_eq_error hy
    | ok q =>
      rw [hx, hy] at h
      exact hf p q h

theorem combine_eq_error {onInts : Int → Int → Int} {onFloats : Float → Float → Float}
    (h : combine onInts onFloats x y = .error e) : e = .number .beyondFloat := by
  unfold combine at h
  split at h
  · cases h
  · exact error_of_floats h nofun

/-- Neither of the two tests for zero succeeds if the divisor is not zero. -/
theorem quotient_eq_error (h : quotient x y = .error e) (hy : y.isZero = false) :
    e = .number .beyondFloat := by
  unfold quotient at h
  split at h
  · next n =>
    have hn : n ≠ 0 := by simpa [isZero] using hy
    rw [if_neg hn] at h
    cases h
  · refine error_of_floats h fun p q hpq => ?_
    rw [hy] at hpq
    cases hpq

end Numeric

/-! ## Plain forms -/

namespace Value

variable {v a b : Value} {e : Failure}

theorem exists_numeric (h : v.isNone = false) : ∃ x, v.numeric? = some x := by
  cases v with
  | none => cases h
  | _ => exact ⟨_, rfl⟩

theorem exists_plus (h : v.isNone = false) : ∃ w, v.plus = .ok w := by
  obtain ⟨x, hx⟩ := exists_numeric h
  unfold plus
  rw [hx]
  cases x <;> exact ⟨_, rfl⟩

theorem exists_minus (h : v.isNone = false) : ∃ w, v.minus = .ok w := by
  obtain ⟨x, hx⟩ := exists_numeric h
  unfold minus
  rw [hx]
  cases x <;> exact ⟨_, rfl⟩

theorem onNumbers_eq_error {symbol : String} {operation : Numeric → Numeric → Except Failure Value}
    (h : onNumbers symbol operation a b = .error e) (ha : a.isNone = false)
    (hb : b.isNone = false) :
    ∃ x y, a.numeric? = some x ∧ b.numeric? = some y ∧ operation x y = .error e := by
  obtain ⟨x, hx⟩ := exists_numeric ha
  obtain ⟨y, hy⟩ := exists_numeric hb
  unfold onNumbers at h
  rw [hx, hy] at h
  exact ⟨x, y, hx, hy, h⟩

theorem comparison_eq_ok (ha : a.isNone = false) (hb : b.isNone = false) (symbol : String)
    (holds : Bool) : comparison symbol a b holds = .ok holds := by
  unfold comparison
  rw [ha, hb]
  rfl

/-! ## Operators -/

/-- What an operator comes to under two tokens: the same value, the same error that blames either
token, or an integer that cannot be rounded. -/
inductive Applied (op op' : Token) : Except Failure Value → Except Failure Value → Prop where
  | value (v : Value) : Applied op op' (.ok v) (.ok v)
  | blamed {cause : RuntimeCause} : cause.isOfOperands = true →
      Applied op op' (.error (.runtime cause op)) (.error (.runtime cause op'))
  | beyondFloat : Applied op op' (.error (.number .beyondFloat)) (.error (.number .beyondFloat))

section

variable {op op' : Token}

theorem Applied.same {r : Except Failure Value}
    (h : ∀ e, r = .error e → e = .number .beyondFloat) : Applied op op' r r := by
  cases r with
  | ok v => exact .value v
  | error e =>
    obtain rfl := h e rfl
    exact .beyondFloat

theorem applied_refuseOperand (ht : op.text = op'.text) (v : Value) :
    Applied op op' (refuseOperand op v) (refuseOperand op' v) := by
  unfold refuseOperand
  rw [ht]
  exact .blamed rfl

theorem applied_refuseOperands (ht : op.text = op'.text) (a b : Value) :
    Applied op op' (refuseOperands op a b) (refuseOperands op' a b) := by
  unfold refuseOperands
  rw [ht]
  exact .blamed rfl

theorem applied_unary (hk : op.kind = op'.kind) (ht : op.text = op'.text) (v : Value) :
    Applied op op' (applyUnary op v) (applyUnary op' v) := by
  have hrefuse := applied_refuseOperand ht v
  unfold applyUnary
  rw [hk]
  split
  · split
    · exact .value _
    · exact hrefuse
  · split
    · next hnumber =>
      have hv : v.isNone = false := by
        cases v with
        | none => cases hnumber
        | _ => rfl
      obtain ⟨w, hplus⟩ := exists_plus hv
      obtain ⟨w', hminus⟩ := exists_minus hv
      rw [hplus, hminus]
      split
      · exact .value w
      · exact .value w'
      · exact hrefuse
    · exact hrefuse

theorem applied_arithmetic (hk : op.kind = op'.kind) (ht : op.text = op'.text)
    (ha : a.isNone = false) (hb : b.isNone = false) :
    Applied op op' (applyArithmetic op a b) (applyArithmetic op' a b) := by
  have hcombine (symbol : String) (onInts : Int → Int → Int) (onFloats : Float → Float → Float) :
      Applied op op' (onNumbers symbol (Numeric.combine onInts onFloats) a b)
        (onNumbers symbol (Numeric.combine onInts onFloats) a b) := by
    refine .same fun e he => ?_
    obtain ⟨x, y, -, -, hxy⟩ := onNumbers_eq_error he ha hb
    exact Numeric.combine_eq_error hxy
  unfold applyArithmetic
  rw [hk, ht]
  split
  · exact hcombine "+" _ _
  · exact hcombine "-" _ _
  · exact hcombine "*" _ _
  · by_cases hzero : b.isZero = true
    · rw [if_pos hzero, if_pos hzero]
      exact .blamed rfl
    · rw [if_neg hzero, if_neg hzero]
      refine .same fun e he => ?_
      obtain ⟨x, y, -, hy, hxy⟩ := onNumbers_eq_error he ha hb
      have hne : y.isZero = false := by simpa [isZero, hy] using hzero
      exact Numeric.quotient_eq_error hxy hne
  · exact .blamed rfl

theorem applied_binary (hk : op.kind = op'.kind) (ht : op.text = op'.text) (a b : Value) :
    Applied op op' (applyBinary op a b) (applyBinary op' a b) := by
  have hrefuse := applied_refuseOperands ht a b
  unfold applyBinary
  rw [hk]
  split
  · exact .value _
  · exact .value _
  · split
    · exact hrefuse
    · next hnone =>
      obtain ⟨ha, hb⟩ : a.isNone = false ∧ b.isNone = false := by simpa using hnone
      have hcompare (symbol : String) (holds : Bool) :
          Applied op op' (Value.bool <$> comparison symbol a b holds)
            (Value.bool <$> comparison symbol a b holds) := by
        rw [comparison_eq_ok ha hb]
        exact .value _
      split
      · exact hcompare "<" _
      · exact hcompare ">" _
      · exact hcompare "<=" _
      · exact hcompare ">=" _
      · split
        · exact hrefuse
        · exact applied_arithmetic hk ht ha hb

end

end Value

end LittleLang
