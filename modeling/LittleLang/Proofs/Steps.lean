import LittleLang.Parse
import LittleLang.Proofs.Reading

/-!
# Reasoning about parsing steps

`Meets p fails post` is a contract for a step: whatever the memo holds, a result of the step has the
property `post`, and a failure of it the property `fails`. There is one lemma for each way to put
steps together. The rules of the parser that go by the kind of the next token are restated here as
nested conditions, one equation for each rule.
-/

open LittleLang.Stream

namespace LittleLang.Parsing

variable {α β : Type}

/-! ## Contracts -/

/-- Results of the step have one property and its failures another. -/
def Meets (p : Parsing α) (fails : Failure → Prop) (post : α → Prop) : Prop :=
  ∀ memo, match p memo with
    | .ok a _ => post a
    | .error e _ => fails e

section

variable {p : Parsing α} {fails fails' : Failure → Prop} {post post' : α → Prop}

theorem Meets.imp (h : Meets p fails post) (hf : ∀ e, fails e → fails' e)
    (hp : ∀ a, post a → post' a) : Meets p fails' post' := by
  intro memo
  have := h memo
  split at this
  · exact hp _ this
  · exact hf _ this

theorem Meets.weaken (h : Meets p fails post) (hp : ∀ a, post a → post' a) :
    Meets p fails post' :=
  h.imp (fun _ he => he) hp

theorem meets_pure {a : α} (h : post a) : Meets (pure a) fails post :=
  fun _ => h

theorem meets_throw {e : Failure} (h : fails e) : Meets (throw e : Parsing α) fails post :=
  fun _ => h

theorem Meets.bind {f : α → Parsing β} {post : β → Prop} {mid : α → Prop}
    (h : Meets p fails mid) (hf : ∀ a, mid a → Meets (f a) fails post) :
    Meets (p >>= f) fails post := by
  intro memo
  have hp := h memo
  simp only [Bind.bind, EStateM.bind]
  cases hm : p memo with
  | ok a memo' =>
    rw [hm] at hp
    exact hf a hp memo'
  | error e memo' =>
    rw [hm] at hp
    exact hp

theorem Meets.bind_of_false {f : α → Parsing β} {post : β → Prop}
    (h : Meets p fails fun _ => False) : Meets (p >>= f) fails post :=
  h.bind fun _ h => h.elim

theorem Meets.ite {c : Prop} [Decidable c] {q : Parsing α} (hp : c → Meets p fails post)
    (hq : ¬c → Meets q fails post) : Meets (if c then p else q) fails post := by
  split
  · exact hp ‹c›
  · exact hq ‹¬c›

theorem Meets.attempt (h : Meets p fails post) {post' : Option α → Prop}
    (hsome : ∀ a, post a → post' (some a)) (hnone : ∀ t, fails (.unexpected t) → post' none)
    (hfail : ∀ e, fails e → (∀ t, e ≠ .unexpected t) → fails' e) :
    Meets (attempt p) fails' post' := by
  intro memo
  have hp := h memo
  unfold Parsing.attempt
  cases hm : p memo with
  | ok a memo' =>
    rw [hm] at hp
    exact hsome a hp
  | error e memo' =>
    rw [hm] at hp
    cases e with
    | unexpected t => exact hnone t hp
    | _ => exact hfail _ hp (by simp)

end

/-! ## Moving on -/

theorem meets_advance {s : Stream} {fails : Failure → Prop} (hs : s.Proper)
    (hk : s.kind ≠ .endOfInput) (hf : ∀ e, fails (.lexical e)) :
    Meets (advance s) fails fun s' => Reads s [s.token] s' := by
  unfold advance
  rcases hs.next_cases hk with ⟨s', h, hr⟩ | ⟨e, h⟩
  · rw [h]
    exact meets_pure hr
  · rw [h]
    exact meets_throw (hf e)

theorem meets_eat {s : Stream} {kind : Kind} {fails : Failure → Prop} (hs : s.Proper)
    (hk : kind ≠ .endOfInput) (hf : ∀ e, fails (.lexical e)) (hu : ∀ t, fails (.unexpected t)) :
    Meets (eat kind s) fails fun s' => s.kind = kind ∧ Reads s [s.token] s' := by
  unfold eat
  refine Meets.ite (fun h => ?_) fun _ => meets_throw (hu _)
  exact (meets_advance hs (h ▸ hk) hf).weaken fun _ hr => ⟨h, hr⟩

/-! ## Classes of kinds -/

theorem endsStatements_of_closesBlock {k : Kind} (h : k.closesBlock = true) :
    k.endsStatements = true := by
  cases k <;> simp_all [Kind.closesBlock, Kind.endsStatements]

theorem closesBlock_iff {k : Kind} :
    k.closesBlock = true ↔ k = .rightBrace ∨ k = .endOfInput := by
  cases k <;> simp [Kind.closesBlock]

theorem startsExpression_iff {k : Kind} :
    k.startsExpression = true ↔ k ∈ [.intLiteral, .floatLiteral, .kwTrue, .kwFalse, .leftParen,
      .plus, .minus, .bang] := by
  cases k <;> simp [Kind.startsExpression]

/-! ## Rules as nested conditions -/

theorem boolTerm_eq (reuse : Reuse) (depth : Nat) (s : Stream) :
    boolTerm reuse (depth + 1) s =
      if s.kind = .leftParen then
        prefer (parenthesized (boolExpr reuse depth) s)
          (fun kind => kind.isArithmetic || kind.isComparison)
          (comparison (numExpr reuse depth) s)
      else if s.kind = .bang then
        advance s >>= boolTerm reuse depth >>= fun r => pure (.unary s.token r.1, r.2)
      else if s.kind = .kwTrue ∨ s.kind = .kwFalse then
        advance s >>= fun rest => pure (.boolLiteral s.token, rest)
      else comparison (numExpr reuse depth) s := by
  unfold boolTerm
  cases s.kind <;> simp

theorem factor_eq (reuse : Reuse) (depth : Nat) (s : Stream) :
    factor reuse (depth + 1) s =
      if s.kind = .leftParen then parenthesized (numExpr reuse depth) s
      else if s.kind = .plus ∨ s.kind = .minus then
        advance s >>= factor reuse depth >>= fun r => pure (.unary s.token r.1, r.2)
      else if s.kind = .floatLiteral then
        advance s >>= fun rest => pure (.floatLiteral s.token, rest)
      else if s.kind = .intLiteral then
        advance s >>= fun rest => pure (.intLiteral s.token, rest)
      else if s.kind = .identifier then
        advance s >>= fun rest => if rest.kind = .leftParen then call reuse depth s else var s
      else var s := by
  unfold factor
  cases s.kind <;> simp

def argumentList (expression : Stream → Parsing Parsed) (s : Stream) :
    Parsing (List Node × Stream) :=
  if s.kind = .rightParen then pure ([], s) else commaList expression s

theorem call_eq (reuse : Reuse) (depth : Nat) (s : Stream) :
    call reuse (depth + 1) s = (do
      let rest ← eat .leftParen (← eat .identifier s)
      let (arguments, rest) ← argumentList (expression reuse depth) rest
      return (.call s.token arguments, ← eat .rightParen rest)) := by
  unfold call argumentList
  refine bind_congr fun _ => bind_congr fun rest => ?_
  split <;> rfl

def assignTo (reuse : Reuse) (depth : Nat) (type : Option Token) (target : Stream) :
    Parsing Parsed := do
  let op ← eat .identifier target
  let (value, rest) ← expression reuse depth (← eat .assign op)
  return (.assign type target.token op.token value, rest)

theorem assignment_eq (reuse : Reuse) (depth : Nat) (s : Stream) :
    assignment reuse depth s =
      if s.kind.isType = true then advance s >>= assignTo reuse depth (some s.token)
      else assignTo reuse depth none s := by
  unfold assignment typeName
  split
  · simp only [bind_assoc, pure_bind]
    rfl
  · simp only [pure_bind]
    rfl

theorem statement_eq (reuse : Reuse) (depth : Nat) (s : Stream) :
    statement reuse (depth + 1) s =
      if s.kind = .identifier then
        advance s >>= fun rest =>
          if rest.kind = .leftParen then terminated (call reuse depth s)
          else terminated (assignment reuse depth s)
      else if s.kind.isType = true then terminated (assignment reuse depth s)
      else if s.kind = .kwReturn then terminated (ret reuse depth s)
      else if s.kind = .kwIf then ifStatement reuse depth s
      else if s.kind.closesBlock = true then pure (.noOp, s)
      else if s.kind.startsExpression = true then expressionStatement reuse depth s
      else refuse s := by
  unfold statement
  cases s.kind <;> simp [Kind.isType, Kind.closesBlock, Kind.startsExpression]

theorem statement_of_isType (reuse : Reuse) (depth : Nat) {s : Stream}
    (h : s.kind.isType = true) :
    statement reuse (depth + 1) s = terminated (assignment reuse depth s) := by
  rw [statement_eq, if_neg, if_pos h]
  intro hk
  rw [hk] at h
  cases h

theorem statement_of_startsExpression (reuse : Reuse) (depth : Nat) {s : Stream}
    (h : s.kind.startsExpression = true) :
    statement reuse (depth + 1) s = expressionStatement reuse depth s := by
  rw [statement_eq]
  generalize s.kind = k at h
  cases k <;> simp_all [Kind.startsExpression, Kind.isType, Kind.closesBlock]

/-- The block after `else`, or the empty statement where there is none. -/
def alternative (block : Stream → Parsing Parsed) (s : Stream) : Parsing Parsed :=
  if s.kind = .kwElse then advance s >>= block else pure (.noOp, s)

theorem ifStatement_eq (reuse : Reuse) (depth : Nat) (s : Stream) :
    ifStatement reuse (depth + 1) s = (do
      let (condition, rest) ← boolExpr reuse depth (← eat .kwIf s)
      let (whenTrue, rest) ← block reuse depth rest
      let (whenFalse, rest) ← alternative (block reuse depth) rest
      return (.branch (some s.token) condition whenTrue whenFalse, rest)) := by
  unfold ifStatement alternative
  refine bind_congr fun _ => bind_congr fun c => bind_congr fun t => ?_
  obtain ⟨whenTrue, rest⟩ := t
  by_cases h : rest.kind = .kwElse <;> simp [h]

theorem programPart_eq (reuse : Reuse) (depth : Nat) (s : Stream) :
    programPart reuse depth s =
      if s.kind = .kwFunc then functionDeclaration reuse depth s
      else if s.kind = .rightBrace then refuse s
      else statementList reuse depth s := by
  unfold programPart
  cases s.kind <;> simp

end LittleLang.Parsing
