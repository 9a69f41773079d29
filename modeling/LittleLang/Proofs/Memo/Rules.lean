import LittleLang.Proofs.Memo.Following

/-!
# Every rule follows its form without a memo

The simulation of `Memo.Following`, for each combinator and each rule of the parser. The contract of
a rule also says where it stands: a rule for expressions begins at an operand, all rules end where
no operand is expected. The induction is on the depth of the parser with the memo, for all depths of
the other one at once, since an entry of the memo may be asked for at any depth. -/

open LittleLang.Stream

namespace LittleLang.Parsing

variable {α : Type} {whole : Stream} {deep : Prop}

abbrev Ends (whole : Stream) (r : α × Stream) : Prop := AtEnd whole r.2

/-! ## Combinators -/

section

variable {s : Stream}

theorem follows_advance (hs : s.Proper) (hk : s.kind ≠ .endOfInput) :
    Follows whole deep (advance s) (advance s) fun s' => Reads s [s.token] s' := by
  unfold advance
  rcases hs.next_cases hk with ⟨s', h, hr⟩ | ⟨e, h⟩
  · rw [h]
    exact follows_pure hr
  · rw [h]
    exact follows_throw _

theorem follows_eat {kind : Kind} (hs : s.Proper) (hk : kind ≠ .endOfInput) :
    Follows whole deep (eat kind s) (eat kind s) fun s' => s.kind = kind ∧ Reads s [s.token] s' := by
  unfold eat
  refine Follows.ite (fun h => ?_) fun _ => follows_throw _
  exact (follows_advance hs (h ▸ hk)).weaken fun _ hr => ⟨h, hr⟩

theorem follows_prefer {first second first' second' : Parsing Parsed} {refused : Kind → Bool}
    {post : Parsed → Prop} (h₁ : Follows whole deep first first' post)
    (h₂ : Follows whole deep second second' post) :
    Follows whole deep (prefer first refused second) (prefer first' refused second') post := by
  unfold prefer
  refine h₁.attempt.bind fun r hr => ?_
  cases r with
  | none => exact h₂
  | some a => exact Follows.ite (fun _ => h₂) fun _ => follows_pure (hr a rfl)

theorem follows_parenthesized {inner inner' : Stream → Parsing Parsed} (hw : whole.Proper)
    (hs : Within whole s)
    (h : ∀ s', AtOperand whole s' → Follows whole deep (inner s') (inner' s') (Ends whole)) :
    Follows whole deep (parenthesized inner s) (parenthesized inner' s) (Ends whole) := by
  unfold parenthesized
  refine (follows_eat (hs.proper hw) (by decide)).bind fun s₁ h₁ => ?_
  obtain ⟨hl, hr₁⟩ := h₁
  refine (h s₁ (hs.next_operand hr₁ (by simp [hl, Kind.expects]))).bind fun r h₂ => ?_
  refine (follows_eat (h₂.within.proper hw) (by decide)).bind fun s₃ h₃ => ?_
  obtain ⟨hrt, hr₃⟩ := h₃
  exact follows_pure (h₂.within.next_end hr₃ (by simp [hrt, Kind.expects]))

theorem follows_comparison {number number' : Stream → Parsing Parsed} (hw : whole.Proper)
    (hs : AtOperand whole s)
    (h : ∀ s', AtOperand whole s' → Follows whole deep (number s') (number' s') (Ends whole)) :
    Follows whole deep (comparison number s) (comparison number' s) (Ends whole) := by
  unfold comparison
  refine (h s hs).bind fun r h₁ => ?_
  obtain ⟨left, s₁⟩ := r
  refine Follows.ite (fun hop => ?_) fun _ => ?_
  · have hexp : s₁.kind.expects false = true ∧ s₁.kind ≠ .endOfInput := by
      generalize s₁.kind = k at hop
      cases k <;> simp_all [Kind.isComparison, Kind.expects]
    refine (follows_advance (h₁.within.proper hw) hexp.2).bind fun s₂ hr₂ => ?_
    exact (h s₂ (h₁.next_operand hr₂ hexp.1)).bind fun r h₃ => follows_pure h₃
  · exact Follows.ite (fun _ => follows_pure h₁) fun _ => follows_throw _

theorem follows_var (hw : whole.Proper) (hs : Within whole s) :
    Follows whole deep (var s) (var s) (Ends whole) := by
  unfold var
  refine (follows_eat (hs.proper hw) (by decide)).bind fun s₁ h₁ => ?_
  obtain ⟨hk, hr⟩ := h₁
  exact follows_pure (hs.next_end hr (by simp [hk, Kind.expects]))

end

/-! ### Repetition -/

section

variable {isOperator : Kind → Bool} {operand operand' : Stream → Parsing Parsed}
  {pre : Stream → Prop}

theorem follows_chainFrom (hw : whole.Proper) (hend : isOperator .endOfInput = false)
    (hnext : ∀ s s', AtEnd whole s → isOperator s.kind = true → Reads s [s.token] s' → pre s')
    (h : ∀ s, pre s → Follows whole deep (operand s) (operand' s) (Ends whole)) (rounds : Nat)
    {left : Node} {s : Stream} (hs : AtEnd whole s) :
    Follows whole deep (chainFrom isOperator operand rounds left s)
      (chainFrom isOperator operand' rounds left s) (Ends whole) := by
  induction rounds generalizing left s with
  | zero => exact follows_pure hs
  | succ rounds ih =>
    unfold chainFrom
    refine Follows.ite (fun hop => ?_) fun _ => follows_pure hs
    have hk : s.kind ≠ .endOfInput := by
      intro he
      rw [he, hend] at hop
      cases hop
    refine (follows_advance (hs.within.proper hw) hk).bind fun s₁ hr => ?_
    exact (h s₁ (hnext s s₁ hs hop hr)).bind fun r h₂ => ih h₂

theorem follows_chain (hw : whole.Proper) (hend : isOperator .endOfInput = false)
    (hnext : ∀ s s', AtEnd whole s → isOperator s.kind = true → Reads s [s.token] s' → pre s')
    (h : ∀ s, pre s → Follows whole deep (operand s) (operand' s) (Ends whole)) {s : Stream}
    (hs : pre s) :
    Follows whole deep (chain isOperator operand s) (chain isOperator operand' s)
      (Ends whole) := by
  unfold chain
  refine (h s hs).bind fun r hr => ?_
  exact Follows.ite (fun _ => follows_chainFrom hw hend hnext h _ hr) fun _ => follows_pure hr

end

section

variable {item item' : Stream → Parsing (α × Stream)} {pre : Stream → Prop}

theorem follows_afterCommas (hw : whole.Proper)
    (hnext : ∀ s s', AtEnd whole s → s.kind = .comma → Reads s [s.token] s' → pre s')
    (h : ∀ s, pre s → Follows whole deep (item s) (item' s) (Ends whole)) (rounds : Nat)
    {s : Stream} (hs : AtEnd whole s) :
    Follows whole deep (afterCommas item rounds s) (afterCommas item' rounds s) (Ends whole) := by
  induction rounds generalizing s with
  | zero => exact follows_pure hs
  | succ rounds ih =>
    unfold afterCommas
    refine Follows.ite (fun hc => ?_) fun _ => follows_pure hs
    refine (follows_advance (hs.within.proper hw) (by simp [hc])).bind fun s₁ hr => ?_
    refine (h s₁ (hnext s s₁ hs hc hr)).bind fun r h₂ => ?_
    exact (ih h₂).bind fun r' h₃ => follows_pure h₃

theorem follows_commaList (hw : whole.Proper)
    (hnext : ∀ s s', AtEnd whole s → s.kind = .comma → Reads s [s.token] s' → pre s')
    (h : ∀ s, pre s → Follows whole deep (item s) (item' s) (Ends whole)) {s : Stream}
    (hs : pre s) :
    Follows whole deep (commaList item s) (commaList item' s) (Ends whole) := by
  unfold commaList
  refine (h s hs).bind fun r h₁ => ?_
  exact (follows_afterCommas hw hnext h _ h₁).bind fun r' h₂ => follows_pure h₂

end

theorem follows_untilEnd {isEnd : Kind → Bool} {item item' : Stream → Parsing Parsed}
    (h : ∀ s, AtEnd whole s → Follows whole deep (item s) (item' s) (Ends whole)) (rounds : Nat)
    {s : Stream} (hs : AtEnd whole s) :
    Follows whole deep (untilEnd isEnd item rounds s) (untilEnd isEnd item' rounds s)
      (Ends whole) := by
  induction rounds generalizing s with
  | zero => exact follows_pure hs
  | succ rounds ih =>
    unfold untilEnd
    refine Follows.ite (fun _ => follows_pure hs) fun _ => ?_
    refine (h s hs).bind fun r h₁ => ?_
    exact (ih h₁).bind fun r' h₂ => follows_pure h₂

/-! ## Expressions -/

/-- The rule with a memo, at the given depth, follows the rule without one at every depth. -/
def FollowsRule (whole : Stream) (rule : Reuse → Nat → Stream → Parsing Parsed)
    (pre : Stream → Prop) (depth : Nat) : Prop :=
  ∀ depth' s, pre s →
    Follows whole (depth < depth') (rule .byOffset depth s) (rule .never depth' s) (Ends whole)

section

variable {rule : Reuse → Nat → Stream → Parsing Parsed} {pre : Stream → Prop}

theorem followsRule_zero (hrule : ∀ reuse s, rule reuse 0 s = throw .tooDeep) :
    FollowsRule whole rule pre 0 := by
  intro depth' s _
  rw [hrule]
  refine follows_throw_first ?_
  cases depth' with
  | zero => exact .inr (hrule _ s)
  | succ depth' => exact .inl (Nat.succ_pos depth')

/-- It is enough to look at the rule without a memo where it does not give up at once. -/
theorem followsRule_succ (hrule : ∀ reuse s, rule reuse 0 s = throw .tooDeep) {depth : Nat}
    (h : ∀ depth' s, pre s → Follows whole (depth < depth') (rule .byOffset (depth + 1) s)
      (rule .never (depth' + 1) s) (Ends whole)) : FollowsRule whole rule pre (depth + 1) := by
  intro depth' s hs
  cases depth' with
  | zero =>
    rw [hrule]
    exact (h 0 s hs).throw_second
  | succ depth' => exact (h depth' s hs).imp Nat.succ_lt_succ fun _ h => h

end

structure FollowsAt (whole : Stream) (depth : Nat) : Prop where
  call : FollowsRule whole Parsing.call (Within whole) depth
  factor : FollowsRule whole Parsing.factor (Within whole) depth
  numTerm : FollowsRule whole Parsing.numTerm (Within whole) depth
  numExpr : FollowsRule whole Parsing.numExpr (AtOperand whole) depth
  boolTerm : FollowsRule whole Parsing.boolTerm (AtOperand whole) depth
  boolExpr : FollowsRule whole Parsing.boolExpr (AtOperand whole) depth
  expression : FollowsRule whole Parsing.expression (AtOperand whole) depth

section

variable {depth depth' : Nat} {s : Stream}

/-- After an arithmetic operator a factor stands anywhere. -/
theorem within_next {isOperator : Kind → Bool} (s s' : Stream) (hs : AtEnd whole s)
    (_ : isOperator s.kind = true) (hr : Reads s [s.token] s') : Within whole s' :=
  hs.within.next hr

theorem atOperand_comma (s s' : Stream) (hs : AtEnd whole s) (hk : s.kind = .comma)
    (hr : Reads s [s.token] s') : AtOperand whole s' :=
  hs.next_operand hr (by rw [hk]; rfl)

theorem FollowsAt.expression_succ (ih : FollowsAt whole depth) (hs : AtOperand whole s) :
    Follows whole (depth < depth') (Parsing.expression .byOffset (depth + 1) s)
      (Parsing.expression .never (depth' + 1) s) (Ends whole) := by
  unfold Parsing.expression
  exact follows_prefer (ih.boolExpr depth' s hs) (ih.numExpr depth' s hs)

theorem FollowsAt.boolExpr_succ (hw : whole.Proper) (ih : FollowsAt whole depth)
    (hs : AtOperand whole s) :
    Follows whole (depth < depth') (Parsing.boolExpr .byOffset (depth + 1) s)
      (Parsing.boolExpr .never (depth' + 1) s) (Ends whole) := by
  unfold Parsing.boolExpr
  refine follows_chain hw rfl (fun s s' hs hop hr => ?_) (ih.boolTerm depth') hs
  refine hs.next_operand hr ?_
  generalize s.kind = k at hop
  cases k <;> simp_all [Kind.isConnective, Kind.expects]

theorem FollowsAt.boolTerm_succ (hw : whole.Proper) (ih : FollowsAt whole depth)
    (hs : AtOperand whole s) :
    Follows whole (depth < depth') (Parsing.boolTerm .byOffset (depth + 1) s)
      (Parsing.boolTerm .never (depth' + 1) s) (Ends whole) := by
  have hp := hs.within.proper hw
  have hcomp := follows_comparison hw hs (ih.numExpr depth')
  rw [boolTerm_eq, boolTerm_eq]
  refine Follows.ite (fun _ => ?_) fun _ => Follows.ite (fun hk => ?_) fun _ =>
    Follows.ite (fun hk => ?_) fun _ => hcomp
  · exact follows_prefer (follows_parenthesized hw hs.within (ih.boolExpr depth')) hcomp
  · rw [bind_assoc, bind_assoc]
    refine (follows_advance hp (by simp [hk])).bind fun s₁ hr₁ => ?_
    have h₁ : AtOperand whole s₁ := hs.within.next_operand hr₁ (by simp [hk, Kind.expects])
    exact (ih.boolTerm depth' s₁ h₁).bind fun r h₂ => follows_pure h₂
  · have hexp : (∀ b, s.kind.expects b = false) ∧ s.kind ≠ .endOfInput := by
      rcases hk with hk | hk <;> simp [hk, Kind.expects]
    refine (follows_advance hp hexp.2).bind fun s₁ hr₁ => ?_
    exact follows_pure (hs.within.next_end hr₁ hexp.1)

theorem FollowsAt.numExpr_succ (hw : whole.Proper) (ho : whole.Ordered)
    (ih : FollowsAt whole depth) (hs : AtOperand whole s) :
    Follows whole (depth < depth') (Parsing.numExpr .byOffset (depth + 1) s)
      (Parsing.numExpr .never (depth' + 1) s) (Ends whole) := by
  rw [Parsing.numExpr]
  refine follows_byOffset hw ho hs (fun depth' => ?_) depth'
  exact follows_chain hw rfl within_next (ih.numTerm depth') hs.within

theorem FollowsAt.numTerm_succ (hw : whole.Proper) (ih : FollowsAt whole depth)
    (hs : Within whole s) :
    Follows whole (depth < depth') (Parsing.numTerm .byOffset (depth + 1) s)
      (Parsing.numTerm .never (depth' + 1) s) (Ends whole) := by
  unfold Parsing.numTerm
  exact follows_chain hw rfl within_next (ih.factor depth') hs

theorem FollowsAt.factor_succ (hw : whole.Proper) (ih : FollowsAt whole depth)
    (hs : Within whole s) :
    Follows whole (depth < depth') (Parsing.factor .byOffset (depth + 1) s)
      (Parsing.factor .never (depth' + 1) s) (Ends whole) := by
  have hp := hs.proper hw
  have hliteral {node : Node} (hk : s.kind = .floatLiteral ∨ s.kind = .intLiteral) :
      Follows whole (depth < depth') (advance s >>= fun rest => pure (node, rest))
        (advance s >>= fun rest => pure (node, rest)) (Ends whole) := by
    have hexp : (∀ b, s.kind.expects b = false) ∧ s.kind ≠ .endOfInput := by
      rcases hk with hk | hk <;> simp [hk, Kind.expects]
    refine (follows_advance hp hexp.2).bind fun s₁ hr₁ => ?_
    exact follows_pure (hs.next_end hr₁ hexp.1)
  rw [factor_eq, factor_eq]
  refine Follows.ite (fun _ => ?_) fun _ => Follows.ite (fun hk => ?_) fun _ =>
    Follows.ite (fun hk => hliteral (.inl hk)) fun _ =>
    Follows.ite (fun hk => hliteral (.inr hk)) fun _ =>
    Follows.ite (fun hk => ?_) fun _ => follows_var hw hs
  · exact follows_parenthesized hw hs (ih.numExpr depth')
  · have hend : s.kind ≠ .endOfInput := by
      rcases hk with hk | hk <;> simp [hk]
    rw [bind_assoc, bind_assoc]
    refine (follows_advance hp hend).bind fun s₁ hr₁ => ?_
    exact (ih.factor depth' s₁ (hs.next hr₁)).bind fun r h₂ => follows_pure h₂
  · refine (follows_advance hp (by simp [hk])).bind fun s₁ _ => ?_
    exact Follows.ite (fun _ => ih.call depth' s hs) fun _ => follows_var hw hs

theorem FollowsAt.call_succ (hw : whole.Proper) (ih : FollowsAt whole depth)
    (hs : Within whole s) :
    Follows whole (depth < depth') (Parsing.call .byOffset (depth + 1) s)
      (Parsing.call .never (depth' + 1) s) (Ends whole) := by
  rw [call_eq, call_eq]
  refine (follows_eat (hs.proper hw) (by decide)).bind fun s₁ h₁ => ?_
  have hs₁ := hs.next h₁.2
  refine (follows_eat (hs₁.proper hw) (by decide)).bind fun s₂ h₂ => ?_
  obtain ⟨hl, hr₂⟩ := h₂
  have hs₂ : AtOperand whole s₂ := hs₁.next_operand hr₂ (by simp [hl, Kind.expects])
  have hargs : Follows whole (depth < depth')
      (argumentList (Parsing.expression .byOffset depth) s₂)
      (argumentList (Parsing.expression .never depth') s₂) fun r => Within whole r.2 := by
    unfold argumentList
    refine Follows.ite (fun _ => follows_pure hs₂.within) fun _ => ?_
    exact (follows_commaList hw atOperand_comma (ih.expression depth') hs₂).weaken
      fun _ h => h.within
  refine hargs.bind fun r h₃ => ?_
  refine (follows_eat (h₃.proper hw) (by decide)).bind fun s₄ h₄ => ?_
  obtain ⟨hrt, hr₄⟩ := h₄
  exact follows_pure (h₃.next_end hr₄ (by simp [hrt, Kind.expects]))

end

theorem followsAt (hw : whole.Proper) (ho : whole.Ordered) (depth : Nat) :
    FollowsAt whole depth := by
  induction depth with
  | zero =>
    exact ⟨followsRule_zero fun _ _ => rfl, followsRule_zero fun _ _ => rfl,
      followsRule_zero fun _ _ => rfl, followsRule_zero fun _ _ => rfl,
      followsRule_zero fun _ _ => rfl, followsRule_zero fun _ _ => rfl,
      followsRule_zero fun _ _ => rfl⟩
  | succ depth ih =>
    exact ⟨followsRule_succ (fun _ _ => rfl) fun _ _ => ih.call_succ hw,
      followsRule_succ (fun _ _ => rfl) fun _ _ => ih.factor_succ hw,
      followsRule_succ (fun _ _ => rfl) fun _ _ => ih.numTerm_succ hw,
      followsRule_succ (fun _ _ => rfl) fun _ _ => ih.numExpr_succ hw ho,
      followsRule_succ (fun _ _ => rfl) fun _ _ => ih.boolTerm_succ hw,
      followsRule_succ (fun _ _ => rfl) fun _ _ => ih.boolExpr_succ hw,
      followsRule_succ (fun _ _ => rfl) fun _ _ => ih.expression_succ⟩

/-! ## Statements -/

section

variable {depth depth' : Nat} {s : Stream}

theorem follows_terminated {p q : Parsing Parsed} (hw : whole.Proper)
    (h : Follows whole deep p q (Ends whole)) :
    Follows whole deep (terminated p) (terminated q) (Ends whole) := by
  unfold terminated
  refine h.bind fun r h₁ => ?_
  refine (follows_eat (h₁.within.proper hw) (by decide)).bind fun s₂ h₂ => ?_
  obtain ⟨hk, hr₂⟩ := h₂
  exact follows_pure (h₁.within.next_end hr₂ (by simp [hk, Kind.expects]))

theorem FollowsAt.assignTo (hw : whole.Proper) (ih : FollowsAt whole depth) (type : Option Token)
    (hs : Within whole s) :
    Follows whole (depth < depth') (Parsing.assignTo .byOffset depth type s)
      (Parsing.assignTo .never depth' type s) (Ends whole) := by
  unfold Parsing.assignTo
  refine (follows_eat (hs.proper hw) (by decide)).bind fun s₁ h₁ => ?_
  obtain ⟨hk, hr₁⟩ := h₁
  have hs₁ : AtEnd whole s₁ := hs.next_end hr₁ (by simp [hk, Kind.expects])
  refine (follows_eat (hs₁.within.proper hw) (by decide)).bind fun s₂ h₂ => ?_
  obtain ⟨hop, hr₂⟩ := h₂
  have hs₂ : AtOperand whole s₂ := hs₁.next_operand hr₂ (by rw [hop]; rfl)
  exact (ih.expression depth' s₂ hs₂).bind fun r h₃ => follows_pure h₃

theorem FollowsAt.assignment (hw : whole.Proper) (ih : FollowsAt whole depth)
    (hs : Within whole s) :
    Follows whole (depth < depth') (Parsing.assignment .byOffset depth s)
      (Parsing.assignment .never depth' s) (Ends whole) := by
  rw [assignment_eq, assignment_eq]
  refine Follows.ite (fun hk => ?_) fun _ => ih.assignTo hw none hs
  have hend : s.kind ≠ .endOfInput := by
    intro he
    simp [he, Kind.isType] at hk
  exact (follows_advance (hs.proper hw) hend).bind fun s₁ hr₁ => ih.assignTo hw _ (hs.next hr₁)

theorem FollowsAt.ret (hw : whole.Proper) (ih : FollowsAt whole depth) (hs : AtEnd whole s) :
    Follows whole (depth < depth') (Parsing.ret .byOffset depth s)
      (Parsing.ret .never depth' s) (Ends whole) := by
  unfold Parsing.ret
  refine (follows_eat (hs.within.proper hw) (by decide)).bind fun s₁ h₁ => ?_
  obtain ⟨hk, hr₁⟩ := h₁
  have hs₁ : AtOperand whole s₁ := hs.next_operand hr₁ (by rw [hk]; rfl)
  exact (ih.expression depth' s₁ hs₁).bind fun r h₂ => follows_pure h₂

theorem FollowsAt.expressionStatement (hw : whole.Proper) (ih : FollowsAt whole depth)
    (hs : AtOperand whole s) :
    Follows whole (depth < depth') (Parsing.expressionStatement .byOffset depth s)
      (Parsing.expressionStatement .never depth' s) (Ends whole) := by
  unfold Parsing.expressionStatement
  refine (ih.expression depth' s hs).bind fun r h₁ => ?_
  refine Follows.ite (fun _ => follows_pure h₁) fun _ => ?_
  refine (follows_eat (h₁.within.proper hw) (by decide)).bind fun s₂ h₂ => ?_
  obtain ⟨hk, hr₂⟩ := h₂
  exact follows_pure (h₁.within.next_end hr₂ (by simp [hk, Kind.expects]))

end

structure FollowsStatementsAt (whole : Stream) (depth : Nat) : Prop where
  block : FollowsRule whole Parsing.block (AtEnd whole) depth
  ifStatement : FollowsRule whole Parsing.ifStatement (AtEnd whole) depth
  statement : FollowsRule whole Parsing.statement (AtEnd whole) depth
  statementList : FollowsRule whole Parsing.statementList (AtEnd whole) depth

section

variable {depth depth' : Nat} {s : Stream}

theorem FollowsStatementsAt.block_succ (hw : whole.Proper) (ih : FollowsStatementsAt whole depth)
    (hs : AtEnd whole s) :
    Follows whole (depth < depth') (Parsing.block .byOffset (depth + 1) s)
      (Parsing.block .never (depth' + 1) s) (Ends whole) := by
  unfold Parsing.block
  refine (follows_eat (hs.within.proper hw) (by decide)).bind fun s₁ h₁ => ?_
  obtain ⟨hl, hr₁⟩ := h₁
  have hs₁ : AtEnd whole s₁ := hs.within.next_end hr₁ (by simp [hl, Kind.expects])
  refine (ih.statementList depth' s₁ hs₁).bind fun r h₂ => ?_
  refine (follows_eat (h₂.within.proper hw) (by decide)).bind fun s₃ h₃ => ?_
  obtain ⟨hrb, hr₃⟩ := h₃
  exact follows_pure (h₂.within.next_end hr₃ (by simp [hrb, Kind.expects]))

theorem FollowsStatementsAt.alternative_succ (hw : whole.Proper)
    (ih : FollowsStatementsAt whole depth) (hs : AtEnd whole s) :
    Follows whole (depth < depth') (alternative (Parsing.block .byOffset depth) s)
      (alternative (Parsing.block .never depth') s) (Ends whole) := by
  unfold alternative
  refine Follows.ite (fun helse => ?_) fun _ => follows_pure hs
  refine (follows_advance (hs.within.proper hw) (by simp [helse])).bind fun s₁ hr₁ => ?_
  exact ih.block depth' s₁ (hs.within.next_end hr₁ (by simp [helse, Kind.expects]))

theorem FollowsStatementsAt.ifStatement_succ (hw : whole.Proper) (ho : whole.Ordered)
    (ih : FollowsStatementsAt whole depth) (hs : AtEnd whole s) :
    Follows whole (depth < depth') (Parsing.ifStatement .byOffset (depth + 1) s)
      (Parsing.ifStatement .never (depth' + 1) s) (Ends whole) := by
  rw [ifStatement_eq, ifStatement_eq]
  refine (follows_eat (hs.within.proper hw) (by decide)).bind fun s₁ h₁ => ?_
  obtain ⟨hif, hr₁⟩ := h₁
  have hs₁ : AtOperand whole s₁ := hs.next_operand hr₁ (by rw [hif]; rfl)
  refine ((followsAt hw ho depth).boolExpr depth' s₁ hs₁).bind fun c h₂ => ?_
  refine (ih.block depth' c.2 h₂).bind fun t h₃ => ?_
  exact (ih.alternative_succ hw h₃).bind fun f h₄ => follows_pure h₄

theorem FollowsStatementsAt.statement_succ (hw : whole.Proper) (ho : whole.Ordered)
    (ih : FollowsStatementsAt whole depth) (hs : AtEnd whole s) :
    Follows whole (depth < depth') (Parsing.statement .byOffset (depth + 1) s)
      (Parsing.statement .never (depth' + 1) s) (Ends whole) := by
  have hexpr := followsAt hw ho depth
  have hassign : Follows whole (depth < depth') (terminated (assignment .byOffset depth s))
      (terminated (assignment .never depth' s)) (Ends whole) :=
    follows_terminated hw (hexpr.assignment hw hs.within)
  rw [statement_eq, statement_eq]
  refine Follows.ite (fun hk => ?_) fun _ => Follows.ite (fun _ => hassign) fun _ =>
    Follows.ite (fun _ => follows_terminated hw (hexpr.ret hw hs)) fun _ =>
    Follows.ite (fun _ => ih.ifStatement depth' s hs) fun _ =>
    Follows.ite (fun _ => follows_pure hs) fun _ =>
    Follows.ite (fun hk => hexpr.expressionStatement hw (hs.operand hk)) fun _ => follows_throw _
  refine (follows_advance (hs.within.proper hw) (by simp [hk])).bind fun s₁ _ => ?_
  refine Follows.ite (fun _ => ?_) fun _ => hassign
  exact follows_terminated hw (hexpr.call depth' s hs.within)

theorem FollowsStatementsAt.statementList_succ (ih : FollowsStatementsAt whole depth)
    (hs : AtEnd whole s) :
    Follows whole (depth < depth') (Parsing.statementList .byOffset (depth + 1) s)
      (Parsing.statementList .never (depth' + 1) s) (Ends whole) := by
  unfold Parsing.statementList
  refine (ih.statement depth' s hs).bind fun r h₁ => ?_
  exact (follows_untilEnd (ih.statement depth') _ h₁).bind fun r' h₂ => follows_pure h₂

end

theorem followsStatementsAt (hw : whole.Proper) (ho : whole.Ordered) (depth : Nat) :
    FollowsStatementsAt whole depth := by
  induction depth with
  | zero =>
    exact ⟨followsRule_zero fun _ _ => rfl, followsRule_zero fun _ _ => rfl,
      followsRule_zero fun _ _ => rfl, followsRule_zero fun _ _ => rfl⟩
  | succ depth ih =>
    exact ⟨followsRule_succ (fun _ _ => rfl) fun _ _ => ih.block_succ hw,
      followsRule_succ (fun _ _ => rfl) fun _ _ => ih.ifStatement_succ hw ho,
      followsRule_succ (fun _ _ => rfl) fun _ _ => ih.statement_succ hw ho,
      followsRule_succ (fun _ _ => rfl) fun _ _ => ih.statementList_succ⟩

/-! ## Programs -/

section

variable {depth depth' : Nat} {s : Stream}

theorem follows_typeName (hw : whole.Proper) (hs : Within whole s) :
    Follows whole deep (typeName s) (typeName s) fun r => Within whole r.2 := by
  unfold typeName
  refine Follows.ite (fun hk => ?_) fun _ => follows_throw _
  have hend : s.kind ≠ .endOfInput := by
    intro he
    simp [he, Kind.isType] at hk
  exact (follows_advance (hs.proper hw) hend).bind fun s₁ hr₁ => follows_pure (hs.next hr₁)

theorem follows_parameter (hw : whole.Proper) (hs : Within whole s) :
    Follows whole deep (parameter s) (parameter s) (Ends whole) := by
  unfold parameter
  refine (follows_typeName hw hs).bind fun r h₁ => ?_
  refine (follows_eat (h₁.proper hw) (by decide)).bind fun s₂ h₂ => ?_
  obtain ⟨hk, hr₂⟩ := h₂
  exact follows_pure (h₁.next_end hr₂ (by simp [hk, Kind.expects]))

theorem follows_parameters (hw : whole.Proper) (hs : Within whole s) :
    Follows whole deep (parameters s) (parameters s) fun r => Within whole r.2 := by
  unfold parameters
  refine Follows.ite (fun _ => ?_) fun _ => follows_pure hs
  refine (follows_commaList hw (fun s s' hs _ hr => hs.within.next hr)
    (fun s hs => follows_parameter hw hs) hs).weaken fun _ h => h.within

theorem follows_functionDeclaration (hw : whole.Proper) (ho : whole.Ordered)
    (hs : Within whole s) :
    Follows whole (depth < depth') (functionDeclaration .byOffset depth s)
      (functionDeclaration .never depth' s) (Ends whole) := by
  unfold functionDeclaration
  refine (follows_eat (hs.proper hw) (by decide)).bind fun s₁ h₁ => ?_
  have hs₁ := hs.next h₁.2
  refine (follows_eat (hs₁.proper hw) (by decide)).bind fun s₂ h₂ => ?_
  have hs₂ := hs₁.next h₂.2
  refine (follows_eat (hs₂.proper hw) (by decide)).bind fun s₃ h₃ => ?_
  refine (follows_parameters hw (hs₂.next h₃.2)).bind fun r h₄ => ?_
  refine (follows_eat (h₄.proper hw) (by decide)).bind fun s₅ h₅ => ?_
  obtain ⟨hrt, hr₅⟩ := h₅
  have hs₅ : AtEnd whole s₅ := h₄.next_end hr₅ (by simp [hrt, Kind.expects])
  exact ((followsStatementsAt hw ho depth).block depth' s₅ hs₅).bind fun b h₆ => follows_pure h₆

theorem follows_programPart (hw : whole.Proper) (ho : whole.Ordered) (hs : AtEnd whole s) :
    Follows whole (depth < depth') (programPart .byOffset depth s) (programPart .never depth' s)
      (Ends whole) := by
  rw [programPart_eq, programPart_eq]
  refine Follows.ite (fun _ => follows_functionDeclaration hw ho hs.within) fun _ => ?_
  refine Follows.ite (fun _ => follows_throw _) fun _ => ?_
  exact (followsStatementsAt hw ho depth).statementList depth' s hs

theorem follows_program (hw : whole.Proper) (ho : whole.Ordered) (depth depth' : Nat) :
    Follows whole (depth < depth') (program .byOffset depth whole) (program .never depth' whole)
      fun _ => True := by
  unfold program
  refine (follows_untilEnd (fun s hs => follows_programPart hw ho hs) _
    (atEnd_whole whole)).bind fun r _ => ?_
  exact follows_pure trivial

end

end LittleLang.Parsing
