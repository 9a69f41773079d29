import LittleLang.Proofs.Soundness.Expressions

/-!
# Programs that are parsed are derivable

The contracts of the rules for statements and programs, like those for expressions. A list of
statements ends where a block, the text or the statements before a function declaration end; only
there can an expression go without its semicolon.
-/

open LittleLang.Stream LittleLang.Grammar

namespace LittleLang.Parsing

/-! ## Items up to an end -/

/-- Items one after another, up to a token of an ending kind. -/
inductive Run (isEnd : Kind → Bool) (Item : Stream → Parsed → Prop) :
    Stream → List Node → Stream → Prop where
  | stop {s : Stream} : isEnd s.kind = true → Run isEnd Item s [] s
  | step {s s₁ s₂ : Stream} {n : Node} {nodes : List Node} :
      isEnd s.kind = false → Item s (n, s₁) → Run isEnd Item s₁ nodes s₂ →
      Run isEnd Item s (n :: nodes) s₂

theorem meets_untilEnd {isEnd : Kind → Bool} {item : Stream → Parsing Parsed}
    {Item : Stream → Parsed → Prop} {fails : Failure → Prop}
    (hitem : ∀ s r, s.Proper → isEnd s.kind = false → Item s r →
      r.2.Proper ∧ r.2.length < s.length)
    (rounds : Nat) {s : Stream} (hs : s.Proper) (hr : s.length ≤ rounds)
    (h : ∀ s', s'.Proper → s'.length ≤ s.length → isEnd s'.kind = false →
      Meets (item s') fails (Item s')) :
    Meets (untilEnd isEnd item rounds s) fails fun r => Run isEnd Item s r.1 r.2 := by
  induction rounds generalizing s with
  | zero =>
    have := s.length_pos
    omega
  | succ rounds ih =>
    unfold untilEnd
    refine Meets.ite (fun he => meets_pure (.stop he)) fun he => ?_
    have he : isEnd s.kind = false := by simpa using he
    refine (h s hs (Nat.le_refl _) he).bind fun r h₁ => ?_
    obtain ⟨hp, hl⟩ := hitem s r hs he h₁
    refine (ih hp (by omega) fun s' hp' hl' => h s' hp' (by omega)).bind fun r' h₂ => ?_
    exact meets_pure (.step he h₁ h₂)

/-! ## Statements -/

/-- What a statement read from a stream may be: nothing before the end of a block, a whole
statement, or an expression without a semicolon before the end of a block. -/
inductive StatementRead (s : Stream) : Parsed → Prop where
  | empty : s.kind.closesBlock = true → StatementRead s (.noOp, s)
  | whole {r : Parsed} : Derived Statement s r → StatementRead s r
  | standing {r : Parsed} :
      Derived Standing s r → r.2.kind.closesBlock = true → StatementRead s r

inductive StatementsRead (s : Stream) : Parsed → Prop where
  | empty : s.kind.closesBlock = true → StatementsRead s (.compound [.noOp], s)
  | statements {ts : List Token} {nodes reached : List Node} {s' : Stream} :
      Reads s ts s' → Statements s'.kind ts nodes → Reached nodes reached →
      s'.kind.endsStatements = true → StatementsRead s (.compound reached, s')

theorem StatementRead.le {s : Stream} {r : Parsed} (hs : s.Proper) (h : StatementRead s r) :
    r.2.Proper ∧ r.2.length ≤ s.length := by
  cases h with
  | empty => exact ⟨hs, Nat.le_refl _⟩
  | whole h =>
    obtain ⟨ts, hr, -⟩ := h
    exact ⟨hr.proper hs, hr.length_le⟩
  | standing h =>
    obtain ⟨ts, hr, -⟩ := h
    exact ⟨hr.proper hs, hr.length_le⟩

theorem StatementRead.progress {s : Stream} {r : Parsed} (hs : s.Proper)
    (hk : s.kind.endsStatements = false) (h : StatementRead s r) :
    r.2.Proper ∧ r.2.length < s.length := by
  cases h with
  | empty h => rw [endsStatements_of_closesBlock h] at hk; cases hk
  | whole h =>
    obtain ⟨ts, hr, hd⟩ := h
    exact ⟨hr.proper hs, hr.length_lt hd.ne_nil⟩
  | standing h =>
    obtain ⟨ts, hr, hd⟩ := h
    exact ⟨hr.proper hs, hr.length_lt hd.ne_nil⟩

/-- Where a list of statements stops, and what it is made of. An expression without a semicolon is
the last of them, since the list ends where a block does. -/
theorem Run.statements {s s' : Stream} {nodes : List Node}
    (h : Run Kind.endsStatements StatementRead s nodes s') :
    s'.kind.endsStatements = true ∧
      ((nodes = [] ∧ s' = s) ∨ ∃ ts, Reads s ts s' ∧ Statements s'.kind ts nodes) := by
  induction h with
  | stop hk => exact ⟨hk, .inl ⟨rfl, rfl⟩⟩
  | step hk hitem hrest ih =>
    obtain ⟨hend, ih⟩ := ih
    refine ⟨hend, .inr ?_⟩
    cases hitem with
    | empty h => rw [endsStatements_of_closesBlock h] at hk; cases hk
    | whole h =>
      obtain ⟨ts, hr, hd⟩ := h
      rcases ih with ⟨rfl, rfl⟩ | ⟨us, hr', hd'⟩
      · exact ⟨ts, hr, .single hd⟩
      · exact ⟨ts ++ us, hr.append hr', .cons hd hd'⟩
    | standing h hc =>
      obtain ⟨ts, hr, hd⟩ := h
      cases hrest with
      | stop => exact ⟨ts, hr, .standing (closesBlock_iff.mp hc) hd⟩
      | step hk' => rw [endsStatements_of_closesBlock hc] at hk'; cases hk'

theorem StatementRead.list {s s₁ s₂ : Stream} {n : Node} {nodes : List Node}
    (h : StatementRead s (n, s₁)) (hrun : Run Kind.endsStatements StatementRead s₁ nodes s₂) :
    StatementsRead s (.compound (Node.throughReturn (n :: nodes)), s₂) := by
  cases h with
  | empty h =>
    cases hrun with
    | stop => exact .empty h
    | step hk => rw [endsStatements_of_closesBlock h] at hk; cases hk
  | whole h =>
    obtain ⟨ts, hr, hd⟩ := h
    obtain ⟨hend, ⟨rfl, rfl⟩ | ⟨us, hr', hd'⟩⟩ := hrun.statements
    · exact .statements hr (.single hd) (reached_throughReturn _) hend
    · exact .statements (hr.append hr') (.cons hd hd') (reached_throughReturn _) hend
  | standing h hc =>
    obtain ⟨ts, hr, hd⟩ := h
    cases hrun with
    | stop hend =>
      exact .statements hr (.standing (closesBlock_iff.mp hc) hd) (reached_throughReturn _) hend
    | step hk => rw [endsStatements_of_closesBlock hc] at hk; cases hk

/-! ### Simple statements -/

section

variable {depth : Nat} {s : Stream} {fails : Failure → Prop}

theorem meets_terminated {statement : Parsing Parsed} {Symbol : List Token → Node → Prop}
    (hf : Lenient fails) (hs : s.Proper) (h : Meets statement fails (Derived Symbol s)) :
    Meets (terminated statement) fails fun r =>
      ∃ ts t, Reads s (ts ++ [t]) r.2 ∧ Symbol ts r.1 ∧ t.kind = .semicolon := by
  unfold terminated
  refine h.bind fun r h₁ => ?_
  obtain ⟨ts, hr₁, hd⟩ := h₁
  refine (meets_eat (hr₁.proper hs) (by decide) hf.lexical hf.unexpected).bind fun s₂ h₂ => ?_
  obtain ⟨hk, hr₂⟩ := h₂
  exact meets_pure ⟨ts, r.2.token, hr₁.append hr₂, hd, hk⟩

/-- The contract of the rule for expressions, for a stream that is no longer than another one. -/
theorem meets_expression {n : Nat} (hs : s.Proper) (hn : s.length ≤ n) :
    Meets (expression .never depth s) (FailsBelow depth (8 * n + 7)) (Derived Expression s) :=
  ((soundAt depth).expression s hs).imp (fun _ he => he.le (by omega)) fun _ h => h

theorem meets_assignTo {type : Option Token} (hs : s.Proper) :
    Meets (assignTo .never depth type s) (FailsBelow depth (8 * s.length + 7)) fun r =>
      ∃ target op ts value, Reads s (target :: op :: ts) r.2 ∧ target.kind = .identifier ∧
        op.kind = .assign ∧ Expression ts value ∧ r.1 = .assign type target op value := by
  have hf := lenient_failsBelow depth (8 * s.length + 7)
  unfold assignTo
  refine (meets_eat hs (by decide) hf.lexical hf.unexpected).bind fun s₁ h₁ => ?_
  obtain ⟨htarget, hr₁⟩ := h₁
  have hp₁ := hr₁.proper hs
  refine (meets_eat hp₁ (by decide) hf.lexical hf.unexpected).bind fun s₂ h₂ => ?_
  obtain ⟨hop, hr₂⟩ := h₂
  refine (meets_expression (hr₂.proper hp₁) (hr₁.append hr₂).length_le).bind fun r h₃ => ?_
  obtain ⟨ts, hr₃, hd⟩ := h₃
  exact meets_pure ⟨s.token, s₁.token, ts, r.1, (hr₁.append hr₂).append hr₃, htarget, hop, hd, rfl⟩

theorem meets_assignment (hs : s.Proper) :
    Meets (assignment .never depth s) (FailsBelow depth (8 * s.length + 7))
      (Derived Assignment s) := by
  have hf := lenient_failsBelow depth (8 * s.length + 7)
  rw [assignment_eq]
  refine Meets.ite (fun hk => ?_) fun _ => ?_
  · have hend : s.kind ≠ .endOfInput := by
      intro he
      simp [he, Kind.isType] at hk
    refine (meets_advance hs hend hf.lexical).bind fun s₁ hr₁ => ?_
    have hle : s₁.length ≤ s.length := hr₁.length_le
    refine (meets_assignTo (hr₁.proper hs)).imp (fun _ he => he.le (by omega)) ?_
    rintro r ⟨target, op, ts, value, hr₂, htarget, hop, hd, hn⟩
    exact ⟨s.token :: target :: op :: ts, hr₁.append hr₂, hn ▸ .typed hk htarget hop hd⟩
  · refine (meets_assignTo hs).weaken ?_
    rintro r ⟨target, op, ts, value, hr, htarget, hop, hd, hn⟩
    exact ⟨target :: op :: ts, hr, hn ▸ .plain htarget hop hd⟩

theorem meets_ret (hs : s.Proper) :
    Meets (ret .never depth s) (FailsBelow depth (8 * s.length + 7)) fun r =>
      ∃ keyword ts value, Reads s (keyword :: ts) r.2 ∧ keyword.kind = .kwReturn ∧
        Expression ts value ∧ r.1 = .ret value := by
  have hf := lenient_failsBelow depth (8 * s.length + 7)
  unfold ret
  refine (meets_eat hs (by decide) hf.lexical hf.unexpected).bind fun s₁ h₁ => ?_
  obtain ⟨hk, hr₁⟩ := h₁
  refine (meets_expression (hr₁.proper hs) hr₁.length_le).bind fun r h₂ => ?_
  obtain ⟨ts, hr₂, hd⟩ := h₂
  exact meets_pure ⟨s.token, ts, r.1, hr₁.append hr₂, hk, hd, rfl⟩

theorem meets_expressionStatement (hs : s.Proper) (hk : s.kind.startsExpression = true) :
    Meets (expressionStatement .never depth s) (FailsBelow depth (8 * s.length + 7))
      (StatementRead s) := by
  have hf := lenient_failsBelow depth (8 * s.length + 7)
  unfold expressionStatement
  refine (meets_expression hs (Nat.le_refl _)).bind fun r h₁ => ?_
  obtain ⟨ts, hr₁, hd⟩ := h₁
  have hstand : Standing ts r.1 := by
    cases ts with
    | nil => exact absurd rfl hd.ne_nil
    | cons t ts => exact .mk (hr₁.token_eq ▸ startsExpression_iff.mp hk) hd
  refine Meets.ite (fun hc => meets_pure (.standing ⟨ts, hr₁, hstand⟩ hc)) fun _ => ?_
  refine (meets_eat (hr₁.proper hs) (by decide) hf.lexical hf.unexpected).bind fun s₂ h₂ => ?_
  obtain ⟨hsemi, hr₂⟩ := h₂
  exact meets_pure (.whole ⟨ts ++ [r.2.token], hr₁.append hr₂, .standing hstand hsemi⟩)

end

/-! ### Statements with blocks -/

structure SoundStatementsAt (depth : Nat) : Prop where
  block : ∀ s, s.Proper → Meets (Parsing.block .never depth s)
    (FailsBelow depth (8 * s.length + 3)) (Derived Block s)
  ifStatement : ∀ s, s.Proper → Meets (Parsing.ifStatement .never depth s)
    (FailsBelow depth (8 * s.length + 8)) (Derived Statement s)
  statement : ∀ s, s.Proper → Meets (Parsing.statement .never depth s)
    (FailsBelow depth (8 * s.length + 9)) (StatementRead s)
  statementList : ∀ s, s.Proper → Meets (Parsing.statementList .never depth s)
    (FailsBelow depth (8 * s.length + 10)) (StatementsRead s)

section

variable {depth : Nat} {s : Stream}

theorem SoundStatementsAt.block_succ (ih : SoundStatementsAt depth) (hs : s.Proper) :
    Meets (Parsing.block .never (depth + 1) s)
      (FailsBelow (depth + 1) (8 * s.length + 3)) (Derived Block s) := by
  have hf := lenient_failsBelow (depth + 1) (8 * s.length + 3)
  unfold Parsing.block
  refine (meets_eat hs (by decide) hf.lexical hf.unexpected).bind fun s₁ h₁ => ?_
  obtain ⟨hl, hr₁⟩ := h₁
  have hp₁ := hr₁.proper hs
  have hlt : s₁.length < s.length := hr₁.length_lt (by simp)
  refine ((ih.statementList s₁ hp₁).within (by omega)).bind fun r h₂ => ?_
  cases h₂ with
  | empty =>
    refine (meets_eat hp₁ (by decide) hf.lexical hf.unexpected).bind fun s₃ h₃ => ?_
    obtain ⟨hrb, hr₃⟩ := h₃
    exact meets_pure ⟨[s.token, s₁.token], hr₁.append hr₃, .empty hl hrb⟩
  | @statements ts nodes reached s₂ hr₂ hd hreach =>
    have hp₂ := hr₂.proper hp₁
    refine (meets_eat hp₂ (by decide) hf.lexical hf.unexpected).bind fun s₃ h₃ => ?_
    obtain ⟨hrb, hr₃⟩ := h₃
    rw [hrb] at hd
    exact meets_pure ⟨s.token :: ts ++ [s₂.token], (hr₁.append hr₂).append hr₃,
      .statements hl hd hreach hrb⟩

theorem SoundStatementsAt.ifStatement_succ (ih : SoundStatementsAt depth) (hs : s.Proper) :
    Meets (Parsing.ifStatement .never (depth + 1) s)
      (FailsBelow (depth + 1) (8 * s.length + 8)) (Derived Statement s) := by
  have hf := lenient_failsBelow (depth + 1) (8 * s.length + 8)
  rw [ifStatement_eq]
  refine (meets_eat hs (by decide) hf.lexical hf.unexpected).bind fun s₁ h₁ => ?_
  obtain ⟨hif, hr₁⟩ := h₁
  have hp₁ := hr₁.proper hs
  have hl₁ : s₁.length ≤ s.length := hr₁.length_le
  refine (((soundAt depth).boolExpr s₁ hp₁).within (by omega)).bind fun c h₂ => ?_
  obtain ⟨ts, hr₂, hcond⟩ := h₂
  have hp₂ := hr₂.proper hp₁
  have hl₂ : c.2.length ≤ s₁.length := hr₂.length_le
  refine ((ih.block c.2 hp₂).within (by omega)).bind fun t h₃ => ?_
  obtain ⟨us, hr₃, htrue⟩ := h₃
  have hp₃ := hr₃.proper hp₂
  have hl₃ : t.2.length ≤ c.2.length := hr₃.length_le
  have hr := (hr₁.append hr₂).append hr₃
  have halt : Meets (alternative (Parsing.block .never depth) t.2)
      (FailsBelow (depth + 1) (8 * s.length + 8)) fun r =>
        Derived Statement s (.branch (some s.token) c.1 t.1 r.1, r.2) := by
    unfold alternative
    refine Meets.ite (fun helse => ?_) fun _ =>
      meets_pure ⟨s.token :: ts ++ us, hr, .branch hif hcond htrue⟩
    refine (meets_advance hp₃ (by simp [helse]) hf.lexical).bind fun s₄ hr₄ => ?_
    have hl₄ : s₄.length ≤ t.2.length := hr₄.length_le
    refine ((ih.block s₄ (hr₄.proper hp₃)).within (by omega)).weaken ?_
    rintro r ⟨vs, hr₅, hfalse⟩
    exact ⟨s.token :: ts ++ us ++ t.2.token :: vs, hr.append (hr₄.append hr₅),
      .branches hif hcond htrue helse hfalse⟩
  exact halt.bind fun r h₄ => meets_pure h₄

theorem SoundStatementsAt.statement_succ (ih : SoundStatementsAt depth) (hs : s.Proper) :
    Meets (Parsing.statement .never (depth + 1) s)
      (FailsBelow (depth + 1) (8 * s.length + 9)) (StatementRead s) := by
  have hf := lenient_failsBelow (depth + 1) (8 * s.length + 9)
  have hassign : Meets (terminated (assignment .never depth s))
      (FailsBelow (depth + 1) (8 * s.length + 9)) (StatementRead s) := by
    refine (meets_terminated hf hs ((meets_assignment hs).within (by omega))).weaken ?_
    rintro r ⟨ts, t, hr, hd, ht⟩
    exact .whole ⟨ts ++ [t], hr, .assignment hd ht⟩
  rw [statement_eq]
  refine Meets.ite (fun hk => ?_) fun _ => Meets.ite (fun _ => hassign) fun _ =>
    Meets.ite (fun hk => ?_) fun _ => Meets.ite (fun hk => ?_) fun _ =>
    Meets.ite (fun hk => meets_pure (.empty hk)) fun _ =>
    Meets.ite (fun hk => ?_) fun _ => meets_throw (hf.unexpected _)
  · refine (meets_advance hs (by simp [hk]) hf.lexical).bind fun s₁ _ => ?_
    refine Meets.ite (fun _ => ?_) fun _ => hassign
    refine (meets_terminated hf hs (((soundAt depth).call s hs).within (by omega))).weaken ?_
    rintro r ⟨ts, t, hr, hd, ht⟩
    exact .whole ⟨ts ++ [t], hr, .call hd ht⟩
  · -- The keyword stands before the expression, so the tokens are put together by hand.
    unfold terminated
    refine ((meets_ret hs).within (by omega)).bind ?_
    rintro ⟨n, s₁⟩ ⟨keyword, ts, value, hr₁, hret, hd, rfl⟩
    refine (meets_eat (hr₁.proper hs) (by decide) hf.lexical hf.unexpected).bind fun s₂ h₂ => ?_
    obtain ⟨hsemi, hr₂⟩ := h₂
    exact meets_pure (.whole ⟨keyword :: ts ++ [s₁.token], hr₁.append hr₂, .ret hret hd hsemi⟩)
  · exact ((ih.ifStatement s hs).within (by omega)).weaken fun _ => .whole
  · exact (meets_expressionStatement hs hk).within (by omega)

theorem SoundStatementsAt.statementList_succ (ih : SoundStatementsAt depth) (hs : s.Proper) :
    Meets (Parsing.statementList .never (depth + 1) s)
      (FailsBelow (depth + 1) (8 * s.length + 10)) (StatementsRead s) := by
  unfold Parsing.statementList
  refine ((ih.statement s hs).within (by omega)).bind fun r h₁ => ?_
  obtain ⟨first, s₁⟩ := r
  obtain ⟨hp₁, hl₁⟩ := h₁.le hs
  have hrun : Meets
      (untilEnd Kind.endsStatements (Parsing.statement .never depth) s₁.length s₁)
      (FailsBelow (depth + 1) (8 * s.length + 10))
      fun r => Run Kind.endsStatements StatementRead s₁ r.1 r.2 :=
    meets_untilEnd (fun _ _ => StatementRead.progress) _ hp₁ (Nat.le_refl _) fun s' hp hl _ =>
      (ih.statement s' hp).within (by dsimp only at hl₁; omega)
  exact hrun.bind fun r h₂ => meets_pure (h₁.list h₂)

end

theorem soundStatementsAt (depth : Nat) : SoundStatementsAt depth := by
  induction depth with
  | zero =>
    exact ⟨fun _ _ => meets_tooDeep, fun _ _ => meets_tooDeep, fun _ _ => meets_tooDeep,
      fun _ _ => meets_tooDeep⟩
  | succ depth ih =>
    exact ⟨fun _ => ih.block_succ, fun _ => ih.ifStatement_succ, fun _ => ih.statement_succ,
      fun _ => ih.statementList_succ⟩

/-! ## Programs -/

section

variable {depth : Nat} {s : Stream} {fails : Failure → Prop}

theorem meets_parameter (hf : Lenient fails) (hs : s.Proper) :
    Meets (parameter s) fails (Derived ParameterOf s) := by
  unfold parameter typeName
  have htype : Meets (if s.kind.isType = true then (do return (s.token, ← advance s)) else refuse s)
      fails fun r => r.1 = s.token ∧ s.kind.isType = true ∧ Reads s [s.token] r.2 := by
    refine Meets.ite (fun hk => ?_) fun _ => meets_throw (hf.unexpected _)
    have hend : s.kind ≠ .endOfInput := by
      intro he
      simp [he, Kind.isType] at hk
    exact (meets_advance hs hend hf.lexical).bind fun s₁ hr => meets_pure ⟨rfl, hk, hr⟩
  refine htype.bind ?_
  rintro ⟨type, s₁⟩ ⟨rfl, hk, hr₁⟩
  refine (meets_eat (hr₁.proper hs) (by decide) hf.lexical hf.unexpected).bind fun s₂ h₂ => ?_
  obtain ⟨hname, hr₂⟩ := h₂
  exact meets_pure ⟨[s.token, s₁.token], hr₁.append hr₂, .mk hk hname⟩

theorem meets_parameters (hf : Lenient fails) (hs : s.Proper) :
    Meets (parameters s) fails (Derived (Listed ParameterOf) s) := by
  unfold parameters
  refine Meets.ite (fun _ => ?_) fun _ => meets_pure ⟨[], .nil s, .nil⟩
  exact (meets_commaList hf hs fun s' hp _ => meets_parameter hf hp).weaken
    fun _ h => h.imp fun _ _ => .items

theorem meets_functionDeclaration (hs : s.Proper) :
    Meets (functionDeclaration .never depth s) (FailsBelow depth (8 * s.length + 10))
      (Derived Declaration s) := by
  have hf := lenient_failsBelow depth (8 * s.length + 10)
  unfold functionDeclaration
  refine (meets_eat hs (by decide) hf.lexical hf.unexpected).bind fun s₁ h₁ => ?_
  obtain ⟨hfunc, hr₁⟩ := h₁
  have hp₁ := hr₁.proper hs
  refine (meets_eat hp₁ (by decide) hf.lexical hf.unexpected).bind fun s₂ h₂ => ?_
  obtain ⟨hname, hr₂⟩ := h₂
  have hp₂ := hr₂.proper hp₁
  refine (meets_eat hp₂ (by decide) hf.lexical hf.unexpected).bind fun s₃ h₃ => ?_
  obtain ⟨hl, hr₃⟩ := h₃
  have hp₃ := hr₃.proper hp₂
  refine (meets_parameters hf hp₃).bind fun r h₄ => ?_
  obtain ⟨ts, hr₄, hparams⟩ := h₄
  have hp₄ := hr₄.proper hp₃
  refine (meets_eat hp₄ (by decide) hf.lexical hf.unexpected).bind fun s₅ h₅ => ?_
  obtain ⟨hrt, hr₅⟩ := h₅
  have hr := ((hr₁.append hr₂).append hr₃).append (hr₄.append hr₅)
  have hle : s₅.length ≤ s.length := hr.length_le
  refine (((soundStatementsAt depth).block s₅ (hr₅.proper hp₄)).imp
    (fun _ he => he.le (by omega)) fun _ h => h).bind fun b h₆ => ?_
  obtain ⟨us, hr₆, hbody⟩ := h₆
  refine meets_pure ⟨s.token :: s₁.token :: s₂.token :: ts ++ r.2.token :: us, ?_,
    .mk hfunc hname hl hparams hrt hbody⟩
  simpa using hr.append hr₆

inductive PartRead (s : Stream) : Parsed → Prop where
  | function {r : Parsed} : s.kind = .kwFunc → Derived Declaration s r → PartRead s r
  | statements {ts : List Token} {nodes reached : List Node} {s' : Stream} :
      s.kind ≠ .rightBrace → Reads s ts s' → Statements s'.kind ts nodes →
      Reached nodes reached → s'.kind.endsStatements = true → PartRead s (.compound reached, s')

theorem PartRead.kind_ne {r : Parsed} (h : PartRead s r) : s.kind ≠ .rightBrace := by
  cases h with
  | function hk => simp [hk]
  | statements hk => exact hk

theorem PartRead.progress {r : Parsed} (hs : s.Proper) (h : PartRead s r) :
    r.2.Proper ∧ r.2.length < s.length := by
  cases h with
  | function _ h =>
    obtain ⟨ts, hr, hd⟩ := h
    exact ⟨hr.proper hs, hr.length_lt hd.ne_nil⟩
  | statements _ hr hd => exact ⟨hr.proper hs, hr.length_lt hd.ne_nil⟩

theorem meets_programPart (hs : s.Proper) (hk : s.kind ≠ .endOfInput) :
    Meets (programPart .never depth s) (FailsBelow depth (8 * s.length + 10)) (PartRead s) := by
  have hf := lenient_failsBelow depth (8 * s.length + 10)
  rw [programPart_eq]
  refine Meets.ite (fun hfunc => ?_) fun _ =>
    Meets.ite (fun _ => meets_throw (hf.unexpected _)) fun hb => ?_
  · exact (meets_functionDeclaration hs).weaken fun _ h => .function hfunc h
  · refine ((soundStatementsAt depth).statementList s hs).weaken fun r h => ?_
    cases h with
    | empty h =>
      rcases closesBlock_iff.mp h with h | h
      · exact absurd h hb
      · exact absurd h hk
    | statements hr hd hreach hend => exact .statements hb hr hd hreach hend

/-- The parts of a program and the end of the text after them. Statements end at a declaration or at
the end of the text: no part starts with a closing brace. -/
theorem Run.parts {s' : Stream} {nodes : List Node}
    (h : Run (· = .endOfInput) PartRead s nodes s') :
    s'.kind = .endOfInput ∧ ∃ ts, Reads s ts s' ∧ Parts (ts ++ [s'.token]) nodes := by
  induction h with
  | stop hk =>
    have hk := of_decide_eq_true hk
    exact ⟨hk, [], .nil _, .finish hk⟩
  | @step s s₁ s₂ n nodes hk hitem hrest ih =>
    obtain ⟨hend, us, hr', hparts⟩ := ih
    refine ⟨hend, ?_⟩
    cases hitem with
    | function _ h =>
      obtain ⟨ts, hr, hd⟩ := h
      exact ⟨ts ++ us, hr.append hr', by simpa using Parts.function hd hparts⟩
    | @statements ts _ reached _ _ hr hd hreach hends =>
      have hnext : s₁.kind = .kwFunc ∨ s₁.kind = .endOfInput := by
        have hb : s₁.kind ≠ .rightBrace := by
          cases hrest with
          | stop h => simp [of_decide_eq_true h]
          | step _ h => exact h.kind_ne
        generalize s₁.kind = k at hb hends
        cases k <;> simp_all [Kind.endsStatements]
      obtain ⟨vs, hvs⟩ : ∃ vs, us ++ [s₂.token] = s₁.token :: vs := by
        cases us with
        | nil => exact ⟨[], by simp [hr'.eq_of_nil]⟩
        | cons u us => exact ⟨us ++ [s₂.token], by simp [hr'.token_eq]⟩
      refine ⟨ts ++ us, hr.append hr', ?_⟩
      rw [hvs] at hparts
      rw [List.append_assoc, hvs]
      exact .statements hd hreach hnext hparts

theorem meets_program (hs : s.Proper) :
    Meets (program .never depth s) (FailsBelow depth (8 * s.length + 10)) fun tree =>
      ∃ ts last, Reads s ts (.finish last) ∧ Program (ts ++ [last.token]) tree := by
  unfold program
  have hrun : Meets (untilEnd (· = .endOfInput) (programPart .never depth) s.length s)
      (FailsBelow depth (8 * s.length + 10))
      fun r => Run (· = .endOfInput) PartRead s r.1 r.2 := by
    refine meets_untilEnd (fun _ _ hp _ h => h.progress hp) _ hs (Nat.le_refl _)
      fun s' hp hl hk => ?_
    exact (meets_programPart hp (of_decide_eq_false hk)).imp (fun _ he => he.le (by omega))
      fun _ h => h
  refine hrun.bind fun r h => ?_
  obtain ⟨hend, ts, hr, hparts⟩ := h.parts
  obtain ⟨last, hlast⟩ := (hr.proper hs).eq_finish hend
  rw [hlast] at hr hparts
  exact meets_pure ⟨ts, last, hr, .mk hparts⟩

end

end LittleLang.Parsing
