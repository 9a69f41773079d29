import LittleLang.Proofs.Likeness.Trees
import LittleLang.Proofs.Steps

/-!
# Streams that are alike are parsed alike

No rule of the parser looks at more of a token than its kind, and where a token goes into a tree or
into a failure it goes there as it is. So on streams that are alike, at the same depth, a rule
builds trees that are alike or fails alike (`like_program`). The offsets of tokens matter for the
memo alone: a way to reuse outcomes has to respect the likeness.
-/

namespace LittleLang.Parsing

variable {α : Type} {l : Likeness} {A : α → α → Prop}

/-! ## The contract of a step -/

structure Built (l : Likeness) (A : α → α → Prop) (r r' : α × Stream) : Prop where
  made : A r.1 r'.1
  rest : l.Streams r.2 r'.2

inductive Entries (l : Likeness) : Except Token Parsed → Except Token Parsed → Prop where
  | ok {r r' : Parsed} : Built l l.Trees r r' → Entries l (.ok r) (.ok r')
  | error {t t' : Token} : l.token t t' → Entries l (.error t) (.error t')

/-- Memos with entries for the same offsets, which are alike. -/
abbrev Memos (l : Likeness) (memo memo' : Memo) : Prop :=
  memo.Forall₂ (fun entry entry' => entry.1 = entry'.1 ∧ Entries l entry.2 entry'.2) memo'

abbrev Like (l : Likeness) (p p' : Parsing α) (A : α → α → Prop) : Prop :=
  InStep (Memos l) (fun e e' memo memo' => l.Failures e e' ∧ Memos l memo memo') p p' A

abbrev LikeRule (l : Likeness) (rule rule' : Stream → Parsing (α × Stream))
    (A : α → α → Prop) : Prop :=
  ∀ s s', l.Streams s s' → Like l (rule s) (rule' s') (Built l A)

theorem like_throw {e e' : Failure} (h : l.Failures e e') :
    Like l (throw e) (throw e') A :=
  inStep_throw fun _ _ hm => ⟨h, hm⟩

theorem like_tooDeep : Like l (throw .tooDeep) (throw .tooDeep) A :=
  like_throw (.placeless rfl)

/-! ## Reuse -/

/-- A way to reuse outcomes that does not tell offsets apart that are alike. -/
def Respects (l : Likeness) (reuse : Reuse) : Prop :=
  ∀ offset offset' rule rule', l.offset offset offset' → Like l rule rule' (Built l l.Trees) →
    Like l (reuse offset rule) (reuse offset' rule') (Built l l.Trees)

theorem respects_never : Respects l .never :=
  fun _ _ _ _ _ h => h

theorem lookup_memos {memo memo' : Memo} (h : Memos l memo memo') (offset : Nat) :
    (memo.lookup offset).Rel (Entries l) (memo'.lookup offset) := by
  induction h with
  | nil => exact .none
  | @cons entry entry' _ _ he _ ih =>
    obtain ⟨hkey, hentry⟩ := he
    rw [List.lookup_cons, List.lookup_cons, ← hkey]
    split
    · exact .some hentry
    · exact ih

/-- The memo goes by the offset, so offsets that are alike have to be the same. -/
theorem respects_byOffset (ho : ∀ offset offset', l.offset offset offset' → offset = offset') :
    Respects l .byOffset := by
  intro offset offset' rule rule' hoffset h memo memo' hm
  obtain rfl := ho _ _ hoffset
  have hlookup := lookup_memos hm offset
  unfold Reuse.byOffset
  generalize memo.lookup offset = found at hlookup
  generalize memo'.lookup offset = found' at hlookup
  cases hlookup with
  | some hentry =>
    cases hentry with
    | ok hr => exact .ok hr hm
    | error ht => exact .error ⟨.unexpected ht, hm⟩
  | none =>
    have h := h memo memo' hm
    dsimp only
    generalize rule memo = r at h
    generalize rule' memo' = r' at h
    cases h with
    | ok hr hm => exact .ok hr (.cons ⟨rfl, .ok hr⟩ hm)
    | @error e e' _ _ he =>
      obtain ⟨he, hm⟩ := he
      cases he with
      | unexpected ht => exact .error ⟨.unexpected ht, .cons ⟨rfl, .error ht⟩ hm⟩
      | lexical hl => exact .error ⟨.lexical hl, hm⟩
      | semantic cause ht => exact .error ⟨.semantic cause ht, hm⟩
      | runtime cause ht => exact .error ⟨.runtime cause ht, hm⟩
      | placeless hp =>
        cases e with
        | unexpected t => cases hp
        | _ => exact .error ⟨.placeless hp, hm⟩

/-! ## Combinators -/

section

variable {s s' : Stream} {first first' second second' : Parsing Parsed}
  {rule rule' : Stream → Parsing Parsed}

theorem like_refuse (hs : l.Streams s s') : Like l (refuse s) (refuse s') A :=
  like_throw (.unexpected hs.token)

theorem like_advance (hs : l.Streams s s') : Like l (advance s) (advance s') l.Streams := by
  unfold advance
  cases hs with
  | finish ht ho => exact inStep_pure (.finish ht ho)
  | blocked _ _ he => exact like_throw (.lexical he)
  | more _ _ htail => exact inStep_pure htail

theorem like_eat (kind : Kind) (hs : l.Streams s s') :
    Like l (eat kind s) (eat kind s') l.Streams := by
  unfold eat
  rw [hs.kind_eq]
  exact InStep.ite (fun _ => like_advance hs) fun _ => like_refuse hs

theorem like_attempt {p p' : Parsing α} (h : Like l p p' A) :
    Like l (attempt p) (attempt p') (Option.Rel A) := by
  intro memo memo' hm
  have h := h memo memo' hm
  unfold attempt
  generalize p memo = r at h
  generalize p' memo' = r' at h
  cases h with
  | ok ha hm => exact .ok (.some ha) hm
  | @error e e' _ _ he =>
    obtain ⟨he, hm⟩ := he
    cases he with
    | unexpected _ => exact .ok .none hm
    | lexical hl => exact .error ⟨.lexical hl, hm⟩
    | semantic cause ht => exact .error ⟨.semantic cause ht, hm⟩
    | runtime cause ht => exact .error ⟨.runtime cause ht, hm⟩
    | placeless hp =>
      cases e with
      | unexpected t => cases hp
      | _ => exact .error ⟨.placeless hp, hm⟩

theorem like_prefer {refused : Kind → Bool} (h₁ : Like l first first' (Built l l.Trees))
    (h₂ : Like l second second' (Built l l.Trees)) :
    Like l (prefer first refused second) (prefer first' refused second') (Built l l.Trees) := by
  unfold prefer
  refine (like_attempt h₁).bind fun r r' hr => ?_
  cases hr with
  | none => exact h₂
  | @some r r' hr =>
    dsimp only
    rw [hr.rest.kind_eq]
    exact InStep.ite (fun _ => h₂) fun _ => inStep_pure hr

theorem like_parenthesized (h : LikeRule l rule rule' l.Trees) :
    LikeRule l (parenthesized rule) (parenthesized rule') l.Trees := by
  intro s s' hs
  unfold parenthesized
  refine (like_eat .leftParen hs).bind fun s₁ s₁' hs₁ => ?_
  refine (h s₁ s₁' hs₁).bind fun r r' hr => ?_
  exact (like_eat .rightParen hr.rest).bind fun _ _ hs₂ => inStep_pure ⟨hr.made, hs₂⟩

theorem like_comparison (h : LikeRule l rule rule' l.Trees) :
    LikeRule l (comparison rule) (comparison rule') l.Trees := by
  intro s s' hs
  unfold comparison
  refine (h s s' hs).bind fun r r' hr => ?_
  obtain ⟨left, s₁⟩ := r
  obtain ⟨left', s₁'⟩ := r'
  dsimp only
  rw [hr.rest.kind_eq, hr.made.isReference_eq]
  refine InStep.ite (fun _ => ?_) fun _ =>
    InStep.ite (fun _ => inStep_pure hr) fun _ => like_refuse hr.rest
  refine (like_advance hr.rest).bind fun s₂ s₂' hs₂ => ?_
  refine (h s₂ s₂' hs₂).bind fun r₃ r₃' hr₃ => ?_
  exact inStep_pure ⟨.binary hr.rest.token hr.made hr₃.made, hr₃.rest⟩

theorem like_var : LikeRule l var var l.Trees := by
  intro s s' hs
  unfold var
  exact (like_eat .identifier hs).bind fun _ _ hs₁ => inStep_pure ⟨.var hs.token, hs₁⟩

end

/-! ### Repetition -/

section

variable {operand operand' : Stream → Parsing Parsed}
  {item item' : Stream → Parsing (α × Stream)}

theorem like_chainFrom (isOperator : Kind → Bool) (h : LikeRule l operand operand' l.Trees)
    (rounds : Nat) {left left' : Node} {s s' : Stream} (hleft : l.Trees left left')
    (hs : l.Streams s s') :
    Like l (chainFrom isOperator operand rounds left s)
      (chainFrom isOperator operand' rounds left' s') (Built l l.Trees) := by
  induction rounds generalizing left left' s s' with
  | zero => exact inStep_pure ⟨hleft, hs⟩
  | succ rounds ih =>
    unfold chainFrom
    rw [hs.kind_eq]
    refine InStep.ite (fun _ => ?_) fun _ => inStep_pure ⟨hleft, hs⟩
    refine (like_advance hs).bind fun s₁ s₁' hs₁ => ?_
    refine (h s₁ s₁' hs₁).bind fun r r' hr => ?_
    exact ih (.binary hs.token hleft hr.made) hr.rest

theorem like_chain (isOperator : Kind → Bool) (h : LikeRule l operand operand' l.Trees) :
    LikeRule l (chain isOperator operand) (chain isOperator operand') l.Trees := by
  intro s s' hs
  unfold chain
  refine (h s s' hs).bind fun r r' hr => ?_
  obtain ⟨left, s₁⟩ := r
  obtain ⟨left', s₁'⟩ := r'
  dsimp only
  rw [hr.rest.kind_eq, hr.rest.length_eq]
  exact InStep.ite (fun _ => like_chainFrom isOperator h _ hr.made hr.rest)
    fun _ => inStep_pure hr

theorem like_afterCommas (h : LikeRule l item item' A) (rounds : Nat) :
    LikeRule l (afterCommas item rounds) (afterCommas item' rounds) (List.Forall₂ A) := by
  induction rounds with
  | zero => exact fun _ _ hs => inStep_pure ⟨.nil, hs⟩
  | succ rounds ih =>
    intro s s' hs
    unfold afterCommas
    rw [hs.kind_eq]
    refine InStep.ite (fun _ => ?_) fun _ => inStep_pure ⟨.nil, hs⟩
    refine (like_advance hs).bind fun s₁ s₁' hs₁ => ?_
    refine (h s₁ s₁' hs₁).bind fun r r' hr => ?_
    refine (ih r.2 r'.2 hr.rest).bind fun rs rs' hrs => ?_
    exact inStep_pure ⟨.cons hr.made hrs.made, hrs.rest⟩

theorem like_commaList (h : LikeRule l item item' A) :
    LikeRule l (commaList item) (commaList item') (List.Forall₂ A) := by
  intro s s' hs
  unfold commaList
  refine (h s s' hs).bind fun r r' hr => ?_
  obtain ⟨first, s₁⟩ := r
  obtain ⟨first', s₁'⟩ := r'
  dsimp only
  rw [hr.rest.length_eq]
  refine (like_afterCommas h _ s₁ s₁' hr.rest).bind fun rs rs' hrs => ?_
  exact inStep_pure ⟨.cons hr.made hrs.made, hrs.rest⟩

theorem like_untilEnd (isEnd : Kind → Bool) (h : LikeRule l operand operand' l.Trees)
    (rounds : Nat) :
    LikeRule l (untilEnd isEnd operand rounds) (untilEnd isEnd operand' rounds)
      (List.Forall₂ l.Trees) := by
  induction rounds with
  | zero => exact fun _ _ hs => inStep_pure ⟨.nil, hs⟩
  | succ rounds ih =>
    intro s s' hs
    unfold untilEnd
    rw [hs.kind_eq]
    refine InStep.ite (fun _ => inStep_pure ⟨.nil, hs⟩) fun _ => ?_
    refine (h s s' hs).bind fun r r' hr => ?_
    refine (ih r.2 r'.2 hr.rest).bind fun rs rs' hrs => ?_
    exact inStep_pure ⟨.cons hr.made hrs.made, hrs.rest⟩

end

/-! ## Expressions -/

abbrev LikeAt (l : Likeness) (rule : Nat → Stream → Parsing Parsed) (depth : Nat) : Prop :=
  LikeRule l (rule depth) (rule depth) l.Trees

/-- So do all rules for expressions. -/
structure LikeExpressions (l : Likeness) (reuse : Reuse) (depth : Nat) : Prop where
  call : LikeAt l (Parsing.call reuse) depth
  factor : LikeAt l (Parsing.factor reuse) depth
  numTerm : LikeAt l (Parsing.numTerm reuse) depth
  numExpr : LikeAt l (Parsing.numExpr reuse) depth
  boolTerm : LikeAt l (Parsing.boolTerm reuse) depth
  boolExpr : LikeAt l (Parsing.boolExpr reuse) depth
  expression : LikeAt l (Parsing.expression reuse) depth

namespace LikeExpressions

variable {reuse : Reuse} {depth : Nat}

theorem expression_succ (ih : LikeExpressions l reuse depth) :
    LikeAt l (Parsing.expression reuse) (depth + 1) := by
  intro s s' hs
  unfold Parsing.expression
  exact like_prefer (ih.boolExpr s s' hs) (ih.numExpr s s' hs)

theorem boolExpr_succ (ih : LikeExpressions l reuse depth) :
    LikeAt l (Parsing.boolExpr reuse) (depth + 1) := by
  intro s s' hs
  unfold Parsing.boolExpr
  exact like_chain _ ih.boolTerm s s' hs

theorem boolTerm_succ (ih : LikeExpressions l reuse depth) :
    LikeAt l (Parsing.boolTerm reuse) (depth + 1) := by
  intro s s' hs
  have hcomp := like_comparison ih.numExpr s s' hs
  rw [boolTerm_eq, boolTerm_eq, hs.kind_eq]
  refine InStep.ite (fun _ => ?_) fun _ => InStep.ite (fun _ => ?_) fun _ =>
    InStep.ite (fun _ => ?_) fun _ => hcomp
  · exact like_prefer (like_parenthesized ih.boolExpr s s' hs) hcomp
  · rw [bind_assoc, bind_assoc]
    refine (like_advance hs).bind fun s₁ s₁' hs₁ => ?_
    refine (ih.boolTerm s₁ s₁' hs₁).bind fun r r' hr => ?_
    exact inStep_pure ⟨.unary hs.token hr.made, hr.rest⟩
  · exact (like_advance hs).bind fun _ _ hs₁ => inStep_pure ⟨.boolLiteral hs.token, hs₁⟩

theorem numExpr_succ (hr : Respects l reuse) (ih : LikeExpressions l reuse depth) :
    LikeAt l (Parsing.numExpr reuse) (depth + 1) := by
  intro s s' hs
  rw [Parsing.numExpr, Parsing.numExpr]
  exact hr _ _ _ _ hs.offset (like_chain _ ih.numTerm s s' hs)

theorem numTerm_succ (ih : LikeExpressions l reuse depth) :
    LikeAt l (Parsing.numTerm reuse) (depth + 1) := by
  intro s s' hs
  unfold Parsing.numTerm
  exact like_chain _ ih.factor s s' hs

theorem factor_succ (ih : LikeExpressions l reuse depth) :
    LikeAt l (Parsing.factor reuse) (depth + 1) := by
  intro s s' hs
  rw [factor_eq, factor_eq, hs.kind_eq]
  refine InStep.ite (fun _ => like_parenthesized ih.numExpr s s' hs) fun _ =>
    InStep.ite (fun _ => ?_) fun _ => InStep.ite (fun _ => ?_) fun _ =>
    InStep.ite (fun _ => ?_) fun _ => InStep.ite (fun _ => ?_) fun _ =>
    like_var s s' hs
  · rw [bind_assoc, bind_assoc]
    refine (like_advance hs).bind fun s₁ s₁' hs₁ => ?_
    refine (ih.factor s₁ s₁' hs₁).bind fun r r' hr => ?_
    exact inStep_pure ⟨.unary hs.token hr.made, hr.rest⟩
  · exact (like_advance hs).bind fun _ _ hs₁ => inStep_pure ⟨.floatLiteral hs.token, hs₁⟩
  · exact (like_advance hs).bind fun _ _ hs₁ => inStep_pure ⟨.intLiteral hs.token, hs₁⟩
  · refine (like_advance hs).bind fun s₁ s₁' hs₁ => ?_
    rw [hs₁.kind_eq]
    exact InStep.ite (fun _ => ih.call s s' hs) fun _ => like_var s s' hs

theorem call_succ (ih : LikeExpressions l reuse depth) :
    LikeAt l (Parsing.call reuse) (depth + 1) := by
  intro s s' hs
  have hargs : LikeRule l (argumentList (Parsing.expression reuse depth))
      (argumentList (Parsing.expression reuse depth)) (List.Forall₂ l.Trees) := by
    intro s s' hs
    unfold argumentList
    rw [hs.kind_eq]
    exact InStep.ite (fun _ => inStep_pure ⟨.nil, hs⟩) fun _ =>
      like_commaList ih.expression s s' hs
  rw [call_eq, call_eq]
  refine (like_eat .identifier hs).bind fun s₁ s₁' hs₁ => ?_
  refine (like_eat .leftParen hs₁).bind fun s₂ s₂' hs₂ => ?_
  refine (hargs s₂ s₂' hs₂).bind fun r r' hr => ?_
  exact (like_eat .rightParen hr.rest).bind fun _ _ hs₃ =>
    inStep_pure ⟨.call hs.token hr.made, hs₃⟩

end LikeExpressions

section

variable {reuse : Reuse}

theorem likeExpressions (hr : Respects l reuse) (depth : Nat) :
    LikeExpressions l reuse depth := by
  induction depth with
  | zero =>
    exact ⟨fun _ _ _ => like_tooDeep, fun _ _ _ => like_tooDeep, fun _ _ _ => like_tooDeep,
      fun _ _ _ => like_tooDeep, fun _ _ _ => like_tooDeep, fun _ _ _ => like_tooDeep,
      fun _ _ _ => like_tooDeep⟩
  | succ depth ih =>
    exact ⟨ih.call_succ, ih.factor_succ, ih.numTerm_succ, ih.numExpr_succ hr, ih.boolTerm_succ,
      ih.boolExpr_succ, ih.expression_succ⟩

/-! ## Statements -/

theorem like_terminated {p p' : Parsing Parsed} (h : Like l p p' (Built l l.Trees)) :
    Like l (terminated p) (terminated p') (Built l l.Trees) := by
  unfold terminated
  refine h.bind fun r r' hr => ?_
  exact (like_eat .semicolon hr.rest).bind fun _ _ hs₁ => inStep_pure ⟨hr.made, hs₁⟩

theorem like_assignTo (hr : Respects l reuse) (depth : Nat) {type type' : Option Token}
    (ht : type.Rel l.token type') :
    LikeRule l (assignTo reuse depth type) (assignTo reuse depth type') l.Trees := by
  intro s s' hs
  unfold assignTo
  refine (like_eat .identifier hs).bind fun s₁ s₁' hs₁ => ?_
  refine (like_eat .assign hs₁).bind fun s₂ s₂' hs₂ => ?_
  refine ((likeExpressions hr depth).expression s₂ s₂' hs₂).bind fun r r' hr => ?_
  exact inStep_pure ⟨.assign ht hs.token hs₁.token hr.made, hr.rest⟩

theorem like_assignment (hr : Respects l reuse) (depth : Nat) :
    LikeAt l (assignment reuse) depth := by
  intro s s' hs
  rw [assignment_eq, assignment_eq, hs.kind_eq]
  refine InStep.ite (fun _ => ?_) fun _ => like_assignTo hr depth .none s s' hs
  exact (like_advance hs).bind fun s₁ s₁' hs₁ =>
    like_assignTo hr depth (.some hs.token) s₁ s₁' hs₁

theorem like_ret (hr : Respects l reuse) (depth : Nat) : LikeAt l (ret reuse) depth := by
  intro s s' hs
  unfold ret
  refine (like_eat .kwReturn hs).bind fun s₁ s₁' hs₁ => ?_
  refine ((likeExpressions hr depth).expression s₁ s₁' hs₁).bind fun r r' hr => ?_
  exact inStep_pure ⟨.ret hr.made, hr.rest⟩

theorem like_expressionStatement (hr : Respects l reuse) (depth : Nat) :
    LikeAt l (expressionStatement reuse) depth := by
  intro s s' hs
  unfold expressionStatement
  refine ((likeExpressions hr depth).expression s s' hs).bind fun r r' hr => ?_
  obtain ⟨node, s₁⟩ := r
  obtain ⟨node', s₁'⟩ := r'
  dsimp only
  rw [hr.rest.kind_eq]
  refine InStep.ite (fun _ => inStep_pure hr) fun _ => ?_
  exact (like_eat .semicolon hr.rest).bind fun _ _ hs₂ => inStep_pure ⟨hr.made, hs₂⟩

structure LikeStatements (l : Likeness) (reuse : Reuse) (depth : Nat) : Prop where
  block : LikeAt l (Parsing.block reuse) depth
  ifStatement : LikeAt l (Parsing.ifStatement reuse) depth
  statement : LikeAt l (Parsing.statement reuse) depth
  statementList : LikeAt l (Parsing.statementList reuse) depth

namespace LikeStatements

variable {depth : Nat}

theorem block_succ (ih : LikeStatements l reuse depth) :
    LikeAt l (Parsing.block reuse) (depth + 1) := by
  intro s s' hs
  unfold Parsing.block
  refine (like_eat .leftBrace hs).bind fun s₁ s₁' hs₁ => ?_
  refine (ih.statementList s₁ s₁' hs₁).bind fun r r' hr => ?_
  exact (like_eat .rightBrace hr.rest).bind fun _ _ hs₂ => inStep_pure ⟨hr.made, hs₂⟩

theorem alternative_succ (ih : LikeStatements l reuse depth) :
    LikeRule l (alternative (Parsing.block reuse depth))
      (alternative (Parsing.block reuse depth)) l.Trees := by
  intro s s' hs
  unfold alternative
  rw [hs.kind_eq]
  refine InStep.ite (fun _ => ?_) fun _ => inStep_pure ⟨.noOp, hs⟩
  exact (like_advance hs).bind fun s₁ s₁' hs₁ => ih.block s₁ s₁' hs₁

theorem ifStatement_succ (hr : Respects l reuse) (ih : LikeStatements l reuse depth) :
    LikeAt l (Parsing.ifStatement reuse) (depth + 1) := by
  intro s s' hs
  rw [ifStatement_eq, ifStatement_eq]
  refine (like_eat .kwIf hs).bind fun s₁ s₁' hs₁ => ?_
  refine ((likeExpressions hr depth).boolExpr s₁ s₁' hs₁).bind fun c c' hc => ?_
  refine (ih.block c.2 c'.2 hc.rest).bind fun t t' ht => ?_
  refine (ih.alternative_succ t.2 t'.2 ht.rest).bind fun f f' hf => ?_
  exact inStep_pure ⟨.branch (.some hs.token) hc.made ht.made hf.made, hf.rest⟩

theorem statement_succ (hr : Respects l reuse) (ih : LikeStatements l reuse depth) :
    LikeAt l (Parsing.statement reuse) (depth + 1) := by
  intro s s' hs
  have hassign := like_terminated (like_assignment hr depth s s' hs)
  rw [statement_eq, statement_eq, hs.kind_eq]
  refine InStep.ite (fun _ => ?_) fun _ => InStep.ite (fun _ => hassign) fun _ =>
    InStep.ite (fun _ => like_terminated (like_ret hr depth s s' hs)) fun _ =>
    InStep.ite (fun _ => ih.ifStatement s s' hs) fun _ =>
    InStep.ite (fun _ => inStep_pure ⟨.noOp, hs⟩) fun _ =>
    InStep.ite (fun _ => like_expressionStatement hr depth s s' hs) fun _ =>
    like_refuse hs
  refine (like_advance hs).bind fun s₁ s₁' hs₁ => ?_
  rw [hs₁.kind_eq]
  refine InStep.ite (fun _ => ?_) fun _ => hassign
  exact like_terminated ((likeExpressions hr depth).call s s' hs)

theorem statementList_succ (ih : LikeStatements l reuse depth) :
    LikeAt l (Parsing.statementList reuse) (depth + 1) := by
  intro s s' hs
  unfold Parsing.statementList
  refine (ih.statement s s' hs).bind fun r r' hr => ?_
  obtain ⟨first, s₁⟩ := r
  obtain ⟨first', s₁'⟩ := r'
  dsimp only
  rw [hr.rest.length_eq]
  refine (like_untilEnd _ ih.statement _ s₁ s₁' hr.rest).bind fun rs rs' hrs => ?_
  have hall : (first :: rs.1).Forall₂ l.Trees (first' :: rs'.1) := .cons hr.made hrs.made
  exact inStep_pure ⟨.compound (Likeness.Trees.throughReturn hall), hrs.rest⟩

end LikeStatements

theorem likeStatements (hr : Respects l reuse) (depth : Nat) :
    LikeStatements l reuse depth := by
  induction depth with
  | zero =>
    exact ⟨fun _ _ _ => like_tooDeep, fun _ _ _ => like_tooDeep, fun _ _ _ => like_tooDeep,
      fun _ _ _ => like_tooDeep⟩
  | succ depth ih =>
    exact ⟨ih.block_succ, ih.ifStatement_succ hr, ih.statement_succ hr, ih.statementList_succ⟩

/-! ## Programs -/

theorem like_typeName : LikeRule l typeName typeName l.token := by
  intro s s' hs
  unfold typeName
  rw [hs.kind_eq]
  refine InStep.ite (fun _ => ?_) fun _ => like_refuse hs
  exact (like_advance hs).bind fun _ _ hs₁ => inStep_pure ⟨hs.token, hs₁⟩

theorem like_parameter : LikeRule l parameter parameter l.Parameters := by
  intro s s' hs
  unfold parameter
  refine (like_typeName s s' hs).bind fun r r' hr => ?_
  exact (like_eat .identifier hr.rest).bind fun _ _ hs₁ =>
    inStep_pure ⟨⟨hr.made, hr.rest.token⟩, hs₁⟩

theorem like_parameters :
    LikeRule l parameters parameters (List.Forall₂ l.Parameters) := by
  intro s s' hs
  unfold parameters
  rw [hs.kind_eq]
  exact InStep.ite (fun _ => like_commaList like_parameter s s' hs) fun _ =>
    inStep_pure ⟨.nil, hs⟩

theorem like_functionDeclaration (hr : Respects l reuse) (depth : Nat) :
    LikeAt l (functionDeclaration reuse) depth := by
  intro s s' hs
  unfold functionDeclaration
  refine (like_eat .kwFunc hs).bind fun s₁ s₁' hs₁ => ?_
  refine (like_eat .identifier hs₁).bind fun s₂ s₂' hs₂ => ?_
  refine (like_eat .leftParen hs₂).bind fun s₃ s₃' hs₃ => ?_
  refine (like_parameters s₃ s₃' hs₃).bind fun ps ps' hps => ?_
  refine (like_eat .rightParen hps.rest).bind fun s₄ s₄' hs₄ => ?_
  refine ((likeStatements hr depth).block s₄ s₄' hs₄).bind fun b b' hb => ?_
  exact inStep_pure ⟨.function hs₁.token hps.made hb.made, hb.rest⟩

theorem like_programPart (hr : Respects l reuse) (depth : Nat) :
    LikeAt l (programPart reuse) depth := by
  intro s s' hs
  rw [programPart_eq, programPart_eq, hs.kind_eq]
  exact InStep.ite (fun _ => like_functionDeclaration hr depth s s' hs) fun _ =>
    InStep.ite (fun _ => like_refuse hs) fun _ =>
    (likeStatements hr depth).statementList s s' hs

/-- Programs that are alike are built from streams that are alike. -/
theorem like_program (hr : Respects l reuse) (depth : Nat) {s s' : Stream}
    (hs : l.Streams s s') :
    Like l (program reuse depth s) (program reuse depth s') l.Trees := by
  unfold program
  rw [hs.length_eq]
  refine (like_untilEnd _ (like_programPart hr depth) _ s s' hs).bind fun rs rs' hrs => ?_
  exact inStep_pure (.program "main" (.compound hrs.made))

end

end LittleLang.Parsing
