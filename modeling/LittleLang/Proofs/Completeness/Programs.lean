import LittleLang.Proofs.Completeness.Expressions

/-!
# Derivable programs are parsed

What `Completeness.Expressions` says of expressions, for statements and programs. No rule for
statements goes back, so only the token after a statement matters: an `else` would go on with an if
statement.
-/

open LittleLang.Stream LittleLang.Grammar

namespace LittleLang

theorem Kind.endsStatements_of_startsStatement {k : Kind} (h : k.startsStatement = true) :
    k.endsStatements = false := by
  cases k <;> simp_all [Kind.startsStatement, Kind.endsStatements, Kind.isType,
    Kind.startsExpression]

theorem Kind.ne_else_of_startsStatement {k : Kind} (h : k.startsStatement = true) :
    k ≠ .kwElse := by
  rintro rfl
  cases h

theorem Kind.ne_else_of_endsStatements {k : Kind} (h : k.endsStatements = true) : k ≠ .kwElse := by
  rintro rfl
  cases h

namespace Parsing

/-! ## Simple statements -/

section

variable {depth : Nat} {s s' : Stream} {ts : List Token} {n : Node}

theorem returns_expression (h : Expression ts n) (hr : Reads s ts s')
    (hs' : s'.kind.extendsBool = false) : Returns (expression .never depth s) (n, s') :=
  (completeBelow (ts.length + 1)).expression ts n (Nat.lt_succ_self _) h depth s s' hr hs'

theorem returns_boolExpr (h : BoolExpr ts n) (hr : Reads s ts s')
    (hs' : s'.kind.extendsBool = false) : Returns (boolExpr .never depth s) (n, s') :=
  (completeBelow (ts.length + 1)).boolExpr ts n (Nat.lt_succ_self _) h depth s s' hr hs'

theorem returns_call (h : Call ts n) (hr : Reads s ts s') :
    Returns (call .never depth s) (n, s') :=
  (completeBelow (ts.length + 1)).call ts n (Nat.lt_succ_self _) h depth s s' hr trivial

theorem returns_terminated {statement : Parsing Parsed} {semicolon : Token} {s₁ : Stream}
    (hk : semicolon.kind = .semicolon) (hr : Reads s₁ [semicolon] s')
    (h : s₁.kind.extendsBool = false → Returns statement (n, s₁)) :
    Returns (terminated statement) (n, s') := by
  obtain ⟨head, s₂, rfl, rfl, h₂⟩ := hr.uncons
  obtain rfl := h₂.eq_of_nil
  unfold terminated
  refine (h ?_).bind ((returns_eat hk).bind (returns_pure _))
  rw [show (Stream.more head s').kind = .semicolon from hk]
  rfl

theorem returns_assignTo {type : Option Token} {target op : Token} {value : Node}
    (htarget : target.kind = .identifier) (hop : op.kind = .assign) (h : Expression ts value)
    (hr : Reads s (target :: op :: ts) s') (hs' : s'.kind.extendsBool = false) :
    Returns (assignTo .never depth type s) (.assign type target op value, s') := by
  obtain ⟨target, s₁, rfl, rfl, h₁⟩ := hr.uncons
  obtain ⟨op, s₂, rfl, rfl, h₂⟩ := h₁.uncons
  unfold assignTo
  refine (returns_eat htarget).bind ((returns_eat hop).bind ?_)
  exact (returns_expression h h₂ hs').bind (returns_pure _)

theorem returns_assignment (h : Assignment ts n) (hr : Reads s ts s')
    (hs' : s'.kind.extendsBool = false) : Returns (assignment .never depth s) (n, s') := by
  rw [assignment_eq]
  cases h with
  | plain htarget hop h =>
    have hk : s.kind.isType = false := by
      rw [show s.kind = .identifier from hr.kind_eq.trans htarget]
      rfl
    rw [if_neg (by simp [hk])]
    exact returns_assignTo htarget hop h hr hs'
  | typed htype htarget hop h =>
    obtain ⟨type, s₁, rfl, rfl, h₁⟩ := hr.uncons
    rw [if_pos (show (Stream.more type s₁).kind.isType = true from htype)]
    exact (returns_advance type s₁).bind (returns_assignTo htarget hop h h₁ hs')

end

/-! ## Statements with blocks -/

structure CompleteStatementsBelow (bound : Nat) : Prop where
  statement : AcceptsBelow bound (Parsing.statement .never) Statement (· ≠ .kwElse)
  block : AcceptsBelow bound (Parsing.block .never) Block fun _ => True

section

variable {bound depth : Nat} {s s' : Stream} {ts : List Token}

/-- The last expression of a list needs no semicolon. -/
theorem returns_standing {n : Node} (h : Standing ts n) (hr : Reads s ts s')
    (hs' : s'.kind.closesBlock = true) :
    Returns (Parsing.statement .never depth s) (n, s') := by
  cases depth with
  | zero => exact returns_tooDeep _
  | succ depth =>
    obtain ⟨t, vs, rfl, ht⟩ := h.first_kind
    have hk : s.kind = t.kind := hr.kind_eq
    rw [statement_of_startsExpression _ _ (by rwa [hk])]
    cases h with
    | mk _ h =>
      have hext : s'.kind.extendsBool = false := by
        rcases closesBlock_iff.mp hs' with h | h <;> rw [h] <;> rfl
      unfold expressionStatement
      refine (returns_expression h hr hext).bind ?_
      simp only [hs', if_true]
      exact returns_pure _

theorem returns_expressionStatement {n : Node} {semicolon : Token} (h : Standing ts n)
    (hsemi : semicolon.kind = .semicolon) (hr : Reads s (ts ++ [semicolon]) s') :
    Returns (expressionStatement .never depth s) (n, s') := by
  obtain ⟨s₁, hr₁, h₁⟩ := hr.split
  obtain ⟨head, s₂, rfl, rfl, h₂⟩ := h₁.uncons
  obtain rfl := h₂.eq_of_nil
  have hk : (Stream.more head s').kind = .semicolon := hsemi
  cases h with
  | mk _ h =>
    unfold expressionStatement
    refine (returns_expression h hr₁ (by rw [hk]; rfl)).bind ?_
    simp only [hk, Kind.closesBlock, Bool.false_eq_true, if_false]
    exact (returns_eat hsemi).bind (returns_pure _)

theorem CompleteStatementsBelow.returns_ifStatement (ih : CompleteStatementsBelow bound)
    {keyword : Token} {us vs : List Token} {condition whenTrue whenFalse : Node}
    (hif : keyword.kind = .kwIf) (hcond : BoolExpr us condition) (hblock : Block vs whenTrue)
    (hb : vs.length < bound) {s₁ : Stream} (hr : Reads s (keyword :: us ++ vs) s₁)
    (halt : ∀ depth, Returns (alternative (Parsing.block .never depth) s₁) (whenFalse, s')) :
    Returns (Parsing.ifStatement .never depth s)
      (.branch (some keyword) condition whenTrue whenFalse, s') := by
  cases depth with
  | zero => exact returns_tooDeep _
  | succ depth =>
    obtain ⟨keyword, s₂, rfl, rfl, h₂⟩ := hr.uncons
    obtain ⟨s₃, hr₃, h₃⟩ := h₂.split
    have hk₃ : s₃.kind.extendsBool = false := by
      obtain ⟨t, ws, rfl, ht⟩ : ∃ t ws, vs = t :: ws ∧ t.kind = .leftBrace := by
        cases hblock with
        | empty hl => exact ⟨_, _, rfl, hl⟩
        | statements hl => exact ⟨_, _, rfl, hl⟩
      rw [h₃.kind_eq, ht]
      rfl
    rw [ifStatement_eq]
    refine (returns_eat hif).bind ((returns_boolExpr hcond hr₃ hk₃).bind ?_)
    refine (ih.block vs whenTrue hb hblock depth s₃ s₁ h₃ trivial).bind ?_
    exact (halt depth).bind (returns_pure _)

theorem CompleteStatementsBelow.statement_succ (ih : CompleteStatementsBelow bound) :
    AcceptsBelow (bound + 1) (Parsing.statement .never) Statement (· ≠ .kwElse) := by
  intro ts n hb h depth s s' hr hs'
  cases depth with
  | zero => exact returns_tooDeep _
  | succ depth =>
    cases h with
    | assignment h hsemi =>
      obtain ⟨s₁, hr₁, h₁⟩ := hr.split
      have hfinal : Returns (terminated (assignment .never depth s)) (n, s') :=
        returns_terminated hsemi h₁ fun hk => returns_assignment h hr₁ hk
      cases h with
      | plain htarget hop =>
        obtain ⟨target, s₂, rfl, rfl, h₂⟩ := hr₁.uncons
        obtain ⟨op, s₃, rfl, rfl, h₃⟩ := h₂.uncons
        rw [statement_eq, if_pos (show (Stream.more target _).kind = .identifier from htarget)]
        refine (returns_advance target _).bind ?_
        rwa [if_neg]
        rw [show (Stream.more op s₃).kind = .assign from hop]
        simp
      | typed htype =>
        obtain ⟨type, s₂, rfl, rfl, h₂⟩ := hr₁.uncons
        rw [statement_of_isType _ _ (show (Stream.more type s₂).kind.isType = true from htype)]
        exact hfinal
    | call h hsemi =>
      obtain ⟨s₁, hr₁, h₁⟩ := hr.split
      have hfinal : Returns (terminated (call .never depth s)) (n, s') :=
        returns_terminated hsemi h₁ fun _ => returns_call h hr₁
      cases h with
      | mk hname hl =>
        simp only [List.cons_append] at hr₁
        obtain ⟨name, s₂, rfl, rfl, h₂⟩ := hr₁.uncons
        obtain ⟨l, s₃, rfl, rfl, h₃⟩ := h₂.uncons
        rw [statement_eq, if_pos (show (Stream.more name _).kind = .identifier from hname)]
        refine (returns_advance name _).bind ?_
        rwa [if_pos (show (Stream.more l s₃).kind = .leftParen from hl)]
    | ret hret h hsemi =>
      obtain ⟨s₁, hr₁, h₁⟩ := hr.split
      obtain ⟨keyword, s₂, rfl, rfl, h₂⟩ := hr₁.uncons
      have hk : (Stream.more keyword s₂).kind = .kwReturn := hret
      simp only [statement_eq, hk, Kind.isType, reduceCtorEq, Bool.false_eq_true, if_false, if_true]
      refine returns_terminated hsemi h₁ fun hext => ?_
      exact (returns_eat hret).bind ((returns_expression h h₂ hext).bind (returns_pure _))
    | standing h hsemi =>
      obtain ⟨t, vs, rfl, ht⟩ := h.first_kind
      have hk : s.kind = t.kind := hr.kind_eq
      rw [statement_of_startsExpression _ _ (by rwa [hk])]
      exact returns_expressionStatement h hsemi hr
    | branch hif hcond hblock =>
      have hk : s.kind = .kwIf := hr.kind_eq.trans hif
      simp only [List.length_append, List.length_cons] at hb
      simp only [statement_eq, hk, Kind.isType, reduceCtorEq, Bool.false_eq_true, if_false, if_true]
      refine ih.returns_ifStatement hif hcond hblock (by omega) hr fun depth => ?_
      unfold alternative
      rw [if_neg hs']
      exact returns_pure _
    | @branches keyword other ts us vs condition whenTrue whenFalse hif hcond hblock helse halt =>
      have hk : s.kind = .kwIf := hr.kind_eq.trans hif
      obtain ⟨s₁, hr₁, h₁⟩ := hr.split
      obtain ⟨other, s₂, rfl, rfl, h₂⟩ := h₁.uncons
      simp only [List.length_append, List.length_cons] at hb
      simp only [statement_eq, hk, Kind.isType, reduceCtorEq, Bool.false_eq_true, if_false, if_true]
      refine ih.returns_ifStatement hif hcond hblock (by omega) hr₁ fun depth => ?_
      unfold alternative
      rw [if_pos (show (Stream.more other s₂).kind = .kwElse from helse)]
      refine (returns_advance other s₂).bind ?_
      exact ih.block vs whenFalse (by omega) halt depth s₂ s' h₂ trivial

theorem returns_untilEnd_stop {isEnd : Kind → Bool} {item : Stream → Parsing Parsed}
    (hk : isEnd s.kind = true) (rounds : Nat) :
    Returns (untilEnd isEnd item rounds s) ([], s) := by
  cases rounds with
  | zero => exact returns_pure _
  | succ rounds =>
    rw [untilEnd, if_pos hk]
    exact returns_pure _

theorem returns_untilEnd_step {isEnd : Kind → Bool} {item : Stream → Parsing Parsed} {n : Node}
    {nodes : List Node} {s₁ : Stream} (hk : isEnd s.kind = false) (h : Returns (item s) (n, s₁))
    {rounds : Nat} (hrest : Returns (untilEnd isEnd item rounds s₁) (nodes, s')) :
    Returns (untilEnd isEnd item (rounds + 1) s) (n :: nodes, s') := by
  rw [untilEnd, if_neg (by simp [hk])]
  exact h.bind (hrest.bind (returns_pure _))

theorem startsStatement_of_reads {next : Kind} {nodes : List Node} (h : Statements next ts nodes)
    (hr : Reads s ts s') : s.kind.startsStatement = true := by
  obtain ⟨t, us, rfl, ht⟩ := h.first_token
  rwa [hr.kind_eq]

theorem CompleteStatementsBelow.returns_untilEnd (ih : CompleteStatementsBelow bound)
    {nodes : List Node} (h : Statements s'.kind ts nodes) (hb : ts.length < bound)
    (hr : Reads s ts s') (hend : s'.kind.endsStatements = true) (rounds : Nat)
    (hrounds : s.length ≤ rounds) :
    Returns (untilEnd Kind.endsStatements (Parsing.statement .never depth) rounds s)
      (nodes, s') := by
  have hnotElse := Kind.ne_else_of_endsStatements hend
  induction nodes generalizing s ts rounds with
  | nil => cases h
  | cons n nodes ihn =>
    have hk := Kind.endsStatements_of_startsStatement (startsStatement_of_reads h hr)
    obtain ⟨rounds, rfl⟩ := Nat.exists_eq_succ_of_ne_zero
      (show rounds ≠ 0 from fun h => by have := s.length_pos; omega)
    cases h with
    | single h =>
      exact returns_untilEnd_step hk (ih.statement ts n hb h depth s s' hr hnotElse)
        (returns_untilEnd_stop hend rounds)
    | standing hc h =>
      exact returns_untilEnd_step hk (returns_standing h hr (closesBlock_iff.mpr hc))
        (returns_untilEnd_stop hend rounds)
    | @cons _ us ws _ _ h hrest =>
      obtain ⟨s₁, hr₁, h₁⟩ := hr.split
      have hs₁ := Kind.ne_else_of_startsStatement (startsStatement_of_reads hrest h₁)
      have hlt := hr₁.length_lt h.ne_nil
      simp only [List.length_append] at hb
      exact returns_untilEnd_step hk (ih.statement us n (by omega) h depth s s₁ hr₁ hs₁)
        (ihn hrest (by omega) h₁ rounds (by omega))

theorem CompleteStatementsBelow.returns_statementList (ih : CompleteStatementsBelow bound)
    {nodes reached : List Node} (h : Statements s'.kind ts nodes) (hreach : Reached nodes reached)
    (hb : ts.length < bound) (hr : Reads s ts s') (hend : s'.kind.endsStatements = true) :
    Returns (Parsing.statementList .never depth s) (.compound reached, s') := by
  cases depth with
  | zero => exact returns_tooDeep _
  | succ depth =>
    rw [hreach.eq_throughReturn]
    have hnotElse := Kind.ne_else_of_endsStatements hend
    unfold Parsing.statementList
    cases h with
    | single h =>
      refine (ih.statement ts _ hb h depth s s' hr hnotElse).bind ?_
      exact (returns_untilEnd_stop hend _).bind (returns_pure _)
    | standing hc h =>
      refine (returns_standing h hr (closesBlock_iff.mpr hc)).bind ?_
      exact (returns_untilEnd_stop hend _).bind (returns_pure _)
    | @cons _ us ws n nodes h hrest =>
      obtain ⟨s₁, hr₁, h₁⟩ := hr.split
      have hs₁ := Kind.ne_else_of_startsStatement (startsStatement_of_reads hrest h₁)
      simp only [List.length_append] at hb
      refine (ih.statement us n (by omega) h depth s s₁ hr₁ hs₁).bind ?_
      exact (ih.returns_untilEnd hrest (by omega) h₁ hend _ (Nat.le_refl _)).bind (returns_pure _)

theorem CompleteStatementsBelow.block_succ (ih : CompleteStatementsBelow bound) :
    AcceptsBelow (bound + 1) (Parsing.block .never) Block fun _ => True := by
  intro ts n hb h depth s s' hr _
  cases depth with
  | zero => exact returns_tooDeep _
  | succ depth =>
    unfold Parsing.block
    cases h with
    | empty hl hrb =>
      obtain ⟨l, s₁, rfl, rfl, h₁⟩ := hr.uncons
      obtain ⟨r, s₂, rfl, rfl, h₂⟩ := h₁.uncons
      obtain rfl := h₂.eq_of_nil
      have hk : (Stream.more r s').kind = .rightBrace := hrb
      have hlist : Returns (Parsing.statementList .never depth (.more r s'))
          (.compound [.noOp], .more r s') := by
        cases depth with
        | zero => exact returns_tooDeep _
        | succ depth =>
          refine Returns.bind (a := (.noOp, .more r s')) ?_
            ((returns_untilEnd_stop (by rw [hk]; rfl) _).bind (returns_pure _))
          cases depth with
          | zero => exact returns_tooDeep _
          | succ depth =>
            simp only [statement_eq, hk, Kind.isType, Kind.closesBlock, reduceCtorEq,
              Bool.false_eq_true, if_false, if_true]
            exact returns_pure _
      exact (returns_eat hl).bind (hlist.bind ((returns_eat hrb).bind (returns_pure _)))
    | statements hl hstmts hreach hrb =>
      obtain ⟨s₁, hr₁, h₁⟩ := hr.split
      obtain ⟨l, s₂, rfl, rfl, h₂⟩ := hr₁.uncons
      obtain ⟨r, s₃, rfl, rfl, h₃⟩ := h₁.uncons
      obtain rfl := h₃.eq_of_nil
      have hk : (Stream.more r s').kind = .rightBrace := hrb
      simp only [List.length_append, List.length_cons] at hb
      refine (returns_eat hl).bind ?_
      refine (ih.returns_statementList (by rwa [hk]) hreach (by omega) h₂ (by rw [hk]; rfl)).bind ?_
      exact (returns_eat hrb).bind (returns_pure _)

end

theorem completeStatementsBelow (bound : Nat) : CompleteStatementsBelow bound := by
  induction bound with
  | zero => exact ⟨fun ts _ hb => by omega, fun ts _ hb => by omega⟩
  | succ bound ih => exact ⟨ih.statement_succ, ih.block_succ⟩

/-! ## Programs -/

section

variable {depth : Nat} {s s' : Stream} {ts : List Token}

theorem returns_parameter {p : Parameter} (h : ParameterOf ts p) (hr : Reads s ts s') :
    Returns (parameter s) (p, s') := by
  cases h with
  | mk htype hname =>
    obtain ⟨type, s₁, rfl, rfl, h₁⟩ := hr.uncons
    obtain ⟨name, s₂, rfl, rfl, h₂⟩ := h₁.uncons
    obtain rfl := h₂.eq_of_nil
    have hk : (Stream.more type (.more name s')).kind.isType = true := htype
    unfold parameter typeName
    simp only [hk, if_true]
    refine Returns.bind ((returns_advance type _).bind (returns_pure _)) ?_
    exact (returns_eat hname).bind (returns_pure _)

theorem returns_parameters {ps : List Parameter} (h : Listed ParameterOf ts ps)
    (hr : Reads s ts s') (hs' : s'.kind = .rightParen) :
    Returns (parameters s) (ps, s') := by
  unfold parameters
  cases h with
  | nil =>
    obtain rfl := hr.eq_of_nil
    rw [if_neg (by simp [hs', Kind.isType])]
    exact returns_pure _
  | items h =>
    obtain ⟨t, vs, rfl, ht⟩ : ∃ t vs, ts = t :: vs ∧ t.kind.isType = true := by
      refine Separated.first_token (fun us p hp => ?_) h
      cases hp with
      | mk htype => exact ⟨_, _, rfl, htype⟩
    rw [if_pos (by rwa [hr.kind_eq])]
    exact returns_commaList (fun _ => True) (fun us p _ hp s s' hr _ => returns_parameter hp hr)
      trivial h hr trivial (by simp [hs'])

theorem returns_functionDeclaration {n : Node} (h : Declaration ts n) (hr : Reads s ts s') :
    Returns (functionDeclaration .never depth s) (n, s') := by
  cases h with
  | @mk _ _ _ _ ts us _ body hfunc hname hl hparams hrt hbody =>
    obtain ⟨s₄, hr₄, h₄⟩ := hr.split
    obtain ⟨keyword, s₁, rfl, rfl, h₁⟩ := hr₄.uncons
    obtain ⟨name, s₂, rfl, rfl, h₂⟩ := h₁.uncons
    obtain ⟨l, s₃, rfl, rfl, h₃⟩ := h₂.uncons
    obtain ⟨r, s₅, rfl, rfl, h₅⟩ := h₄.uncons
    unfold functionDeclaration
    refine (returns_eat hfunc).bind ((returns_eat hname).bind ((returns_eat hl).bind ?_))
    refine (returns_parameters hparams h₃ hrt).bind ((returns_eat hrt).bind ?_)
    exact ((completeStatementsBelow (us.length + 1)).block us body (Nat.lt_succ_self _) hbody depth
      s₅ s' h₅ trivial).bind (returns_pure _)

theorem returns_parts {nodes : List Node} (h : Parts ts nodes) (hts : s.tokens = ts) (rounds : Nat)
    (hrounds : s.length ≤ rounds) :
    ∃ s', Returns (untilEnd (· = .endOfInput) (programPart .never depth) rounds s) (nodes, s') := by
  induction h generalizing s rounds with
  | finish hlast =>
    have hk : s.kind = .endOfInput := by rw [s.kind_of_tokens hts, hlast]
    exact ⟨s, returns_untilEnd_stop (by simp [hk]) rounds⟩
  | @function ts us n nodes h hparts ih =>
    obtain ⟨s₁, hr, hs₁⟩ := reads_of_tokens hts hparts.ne_nil
    obtain ⟨rounds, rfl⟩ := Nat.exists_eq_succ_of_ne_zero
      (show rounds ≠ 0 from fun h => by have := s.length_pos; omega)
    have hlt := hr.length_lt h.ne_nil
    obtain ⟨s', hrest⟩ := ih hs₁ rounds (by omega)
    have hk : s.kind = .kwFunc := by
      cases h with
      | mk hfunc => exact hr.kind_eq.trans hfunc
    refine ⟨s', returns_untilEnd_step (by simp [hk]) ?_ hrest⟩
    rw [programPart_eq, if_pos hk]
    exact returns_functionDeclaration h hr
  | @statements ts us next nodes reached parts h hreach hnext _ ih =>
    obtain ⟨s₁, hr, hs₁⟩ := reads_of_tokens hts (by simp)
    obtain ⟨rounds, rfl⟩ := Nat.exists_eq_succ_of_ne_zero
      (show rounds ≠ 0 from fun h => by have := s.length_pos; omega)
    have hlt := hr.length_lt h.ne_nil
    obtain ⟨s', hrest⟩ := ih hs₁ rounds (by omega)
    have hk₁ : s₁.kind = next.kind := s₁.kind_of_tokens hs₁
    have hend : s₁.kind.endsStatements = true := by
      rw [hk₁]
      rcases hnext with h | h <;> rw [h] <;> rfl
    have hk := Kind.endsStatements_of_startsStatement (startsStatement_of_reads h hr)
    refine ⟨s', returns_untilEnd_step ?_ ?_ hrest⟩
    · refine decide_eq_false fun h => ?_
      rw [h] at hk
      cases hk
    · rw [programPart_eq, if_neg (by rintro h; rw [h] at hk; cases hk),
        if_neg (by rintro h; rw [h] at hk; cases hk)]
      rw [← hk₁] at h
      exact (completeStatementsBelow (ts.length + 1)).returns_statementList h hreach
        (Nat.lt_succ_self _) hr hend

theorem returns_program {tree : Node} (h : Program s.tokens tree) :
    Returns (program .never depth s) tree := by
  cases h with
  | mk h =>
    obtain ⟨s', hparts⟩ := returns_parts h rfl s.length (Nat.le_refl _)
    exact hparts.bind (returns_pure _)

end

end Parsing

end LittleLang
