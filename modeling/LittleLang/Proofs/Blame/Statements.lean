import LittleLang.Proofs.Blame.Expressions

/-!
# The rules for statements and programs are vouched for

A list of statements may stop in front of a `}`, a function declaration or the end of the text, and
only in front of a `}` or the end may its last statement go without a semicolon. So what was read of
a list is kept apart by that (`Listing`), and what was read of a program is a beginning for any
parts that may come next (`Parted`). Which trees were built does not matter for what may come next.
-/

open LittleLang.Stream LittleLang.Grammar

namespace LittleLang

namespace Grammar

/-! ## Lists of statements -/

abbrev Derivable (Symbol : List Token → Node → Prop) (ts : List Token) (_ : Node) : Prop :=
  ∃ n, Symbol ts n

theorem Statements.closing {next next' : Kind} {ts : List Token} {nodes : List Node}
    (h : Statements next ts nodes) (hnext : next'.closesBlock = true) :
    Statements next' ts nodes := by
  induction nodes generalizing ts with
  | nil => cases h
  | cons n nodes ih =>
    cases h with
    | single h => exact .single h
    | standing _ h => exact .standing (Parsing.closesBlock_iff.mp hnext) h
    | cons h hrest => exact .cons h (ih hrest)

/-- In front of a function declaration every statement is whole, so others may come after. -/
theorem Statements.append {next : Kind} {ts us : List Token} {nodes nodes' : List Node}
    (h : Statements .kwFunc ts nodes) (h' : Statements next us nodes') :
    Statements next (ts ++ us) (nodes ++ nodes') := by
  induction nodes generalizing ts with
  | nil => cases h
  | cons n nodes ih =>
    cases h with
    | single h => exact .cons h h'
    | standing hk => simp at hk
    | cons h hrest =>
      rw [List.append_assoc]
      exact .cons h (ih hrest)

/-- Statements that may go on, or that stop in front of the end of a block or of the text. -/
inductive Listing (next : Kind) (ts : List Token) : Prop where
  | empty : ts = [] → Listing next ts
  | whole {nodes : List Node} : Statements .kwFunc ts nodes → Listing next ts
  | closed {nodes : List Node} : Statements .rightBrace ts nodes → next.closesBlock = true →
      Listing next ts

theorem Listing.block {next : Kind} {ts : List Token} {l r : Token} (h : Listing next ts)
    (hl : l.kind = .leftBrace) (hr : r.kind = .rightBrace) : ∃ n, Block (l :: ts ++ [r]) n := by
  cases h with
  | empty h =>
    subst h
    exact ⟨_, .empty hl hr⟩
  | whole h => exact ⟨_, .statements hl (h.closing rfl) (reached_throughReturn _) hr⟩
  | closed h => exact ⟨_, .statements hl h (reached_throughReturn _) hr⟩

theorem Listing.before {next k : Kind} {ts : List Token} (h : Listing next ts) (hts : ts ≠ [])
    (hk : k = .endOfInput ∨ next = .kwFunc ∧ k = .kwFunc) : ∃ nodes, Statements k ts nodes := by
  cases h with
  | empty h => exact absurd h hts
  | whole h =>
    rcases hk with rfl | ⟨-, rfl⟩
    · exact ⟨_, h.closing rfl⟩
    · exact ⟨_, h⟩
  | closed h hnext =>
    rcases hk with rfl | ⟨rfl, -⟩
    · exact ⟨_, h.closing rfl⟩
    · cases hnext

theorem Listing.append {next : Kind} {ts us : List Token} {nodes : List Node}
    (h' : Listing next us) (h : Statements .kwFunc ts nodes) : Listing next (ts ++ us) := by
  cases h' with
  | empty h' => exact .whole (by simpa [h'] using h)
  | whole h' => exact .whole (h.append h')
  | closed h' hnext => exact .closed (h.append h') hnext

end Grammar

theorem Hole.statement {α : Type} {Symbol : List Token → α → Prop} {before : List Token} {s : Stream}
    (hole : Hole (Statements .rightBrace) before s) (ks : List Kind) (hks : areSpelled ks = true)
    (h : ∀ ts a, Symbol ts a → ts.head? = some s.token → Derivable Statement (ts ++ samples ks) .noOp) :
    Hole Symbol before s :=
  hole.start ks hks fun ts a ha hts =>
    have ⟨n, hn⟩ := h ts a ha hts
    ⟨[n], .single hn⟩

namespace Parsing

variable {ι : Type} {whole s : Stream} {before : List Token} {depth : Nat}

/-! ## Simple statements -/

/-- What was read of a list of statements. Nothing is read only where a block or the text ends. -/
structure Taken (whole : Stream) (follow : Kind → Prop) (ts : List Token) (s : Stream) : Prop where
  atEnd : AtEnd whole s
  listing : Listing s.kind ts
  empty : ts = [] → s.kind.closesBlock = true
  follow : follow s.kind

def VouchesStatements (whole : Stream) (follow : Kind → Prop) (p : Stream → Parsing Parsed)
    (q : ι → Stream → Parsing Parsed) : Prop :=
  ∀ before s, Reads whole before s → AtEnd whole s → Hole (Statements .rightBrace) before s →
    Vouches whole before true (p s) (Decided q) fun ts _ s' => Taken whole follow ts s'

theorem Taken.of_statement {ts : List Token} {n : Node} (h : Statement ts n) (hs : AtEnd whole s) :
    Taken whole anything ts s :=
  ⟨hs, .whole (.single h), fun hts => absurd hts h.ne_nil, trivial⟩

theorem vouches_terminated {p : Parsing Parsed} {q : ι → Stream → Parsing Parsed} {firm : Bool}
    {Symbol : List Token → Node → Prop} {follow : Kind → Prop} (hw : whole.Proper)
    (hr : Reads whole before s) (hole : Hole (Statements .rightBrace) before s)
    (h : Vouches whole before firm p (Decided q) (ReadAs whole Symbol follow))
    (hne : ∀ ts n, Symbol ts n → ts ≠ [])
    (hsymbol : ∀ {ts : List Token} {n : Node} {t : Token}, Symbol ts n → t.kind = .semicolon →
      Derivable Statement (ts ++ [t]) .noOp) :
    Vouches whole before true (terminated p) (Decided fun i s => terminated (q i s))
      (ReadAs whole (Derivable Statement) anything) := by
  unfold terminated
  refine h.bind (fun ts n s₁ hr₁ hn => ?_) fun ts n s₁ _ hb => .inr (halts_eat ?_)
  · obtain ⟨m, hm⟩ := hsymbol hn.derived (show (Token.sample .semicolon).kind = .semicolon from rfl)
    have hviable : Viable (before ++ ts) := hole.viable_append ts [.semicolon]
      ((hr.after hr₁).head?_of_ne_nil (hne ts n hn.derived)) rfl (.single hm)
    refine Vouches.eat hw hr₁ hviable (by decide) fun s₂ hk hr₂ hr₂' => ?_
    exact vouches_pure hr₂' (decided_pure _ _)
      ⟨hsymbol hn.derived hk, hn.atEnd.within.next_end hr₂ (by simp [hk, Kind.expects]), trivial⟩
  · intro hk
    rw [hk] at hb
    cases hb

def Assigned (ts : List Token) (_ : Node) : Prop :=
  ∃ target op us value, ts = target :: op :: us ∧ target.kind = .identifier ∧ op.kind = .assign ∧
    Expression us value

theorem expression_sample :
    Expression (samples [.intLiteral]) (.intLiteral (.sample .intLiteral)) :=
  .number numExpr_sample

theorem assigned_sample : Assigned (samples [.identifier, .assign, .intLiteral]) .noOp :=
  ⟨_, _, _, _, rfl, rfl, rfl, expression_sample⟩

theorem vouches_assignTo (hw : whole.Proper) (h : VouchesAt whole depth) (type : Option Token) :
    VouchesRule whole false Assigned anything anywhere (assignTo .byOffset depth type)
      fun depth => assignTo .never depth type := by
  intro before s hr _ hole
  have hfixed : Vouches whole before false (assignTo .byOffset depth type s)
      (Decided fun depth s₁ => do
        let op ← eat .identifier s₁
        let r ← expression .never depth (← eat .assign op)
        return (.assign type s.token op.token r.1, r.2))
      (ReadAs whole Assigned anything) := by
    refine Vouches.eat hw hr hole.viable (by decide) fun s₁ hk hr₁ hr₁' => ?_
    have hop : Vouches whole (before ++ [s.token]) false (do
        let r ← expression .byOffset depth (← eat .assign s₁)
        return (.assign type s.token s₁.token r.1, r.2))
        (Decided fun depth s₂ => do
          let r ← expression .never depth (← eat .assign s₂)
          return (.assign type s.token s₁.token r.1, r.2))
        fun us => ReadAs whole Assigned anything (s.token :: us) := by
      have hviable : Viable (before ++ [s.token]) :=
        hole.viable_append [s.token] [.assign, .intLiteral] rfl rfl
          (show Assigned _ .noOp from ⟨_, _, _, _, rfl, hk, rfl, expression_sample⟩)
      refine Vouches.eat hw hr₁' hviable (by decide) fun s₂ hassign hr₂ hr₂' => ?_
      rw [List.append_assoc] at hr₂' ⊢
      have hvalue : Hole Expression (before ++ ([s.token] ++ [s₁.token])) s₂ :=
        hole.inner s₂ ([s.token] ++ [s₁.token]) [] [.intLiteral] rfl rfl rfl expression_sample
          fun ts n hn => ⟨n, s.token, s₁.token, ts, n, by simp [samples], hk, hassign, hn⟩
      have hs₁ : AtEnd whole s₁ := Within.next_end ⟨before, hr⟩ hr₁ (by simp [hk, Kind.expects])
      have hs₂ : AtOperand whole s₂ := hs₁.next_operand hr₂ (by rw [hassign]; rfl)
      refine (h.expression _ s₂ hr₂' hs₂ hvalue).bind (fun ts n s₃ hr₃ hn => ?_)
        fun ts n s₃ _ _ => .inr (.inr ⟨rfl, _, rfl⟩)
      refine vouches_pure hr₃ (decided_pure _ _) ⟨⟨s.token, s₁.token, ts, n, ?_⟩, hn.atEnd, trivial⟩
      exact ⟨by simp, hk, hassign, hn.derived⟩
    refine hop.congr hr₁' fun depth s₂ hs₂ => ?_
    rw [← hs₂]
  refine hfixed.congr hr fun depth s₁ hs₁ => ?_
  rw [← hs₁]
  rfl

theorem vouches_assignment (hw : whole.Proper) (h : VouchesAt whole depth) :
    VouchesRule whole false (Derivable Assignment) anything anywhere (assignment .byOffset depth)
      (assignment .never) := by
  intro before s hr _ hole
  rw [assignment_eq]
  have hplain : Hole Assigned before s := hole.start [] rfl fun ts n hn _ => by
    obtain ⟨target, op, us, value, rfl, htarget, hop, hvalue⟩ := hn
    have := Assignment.plain htarget hop hvalue
    exact ⟨.noOp, _, by simpa [samples] using this⟩
  by_cases hk : s.kind.isType = true
  · rw [if_pos hk]
    have hend : s.kind ≠ .endOfInput := by
      intro he
      simp [he, Kind.isType] at hk
    have hfixed : Vouches whole before false
        (advance s >>= assignTo .byOffset depth (some s.token))
        (Decided fun depth s₁ => advance s₁ >>= assignTo .never depth (some s.token))
        (ReadAs whole (Derivable Assignment) anything) := by
      refine Vouches.advance hw hr hend fun s₁ hr₁ hr₁' => ?_
      have hinner : Hole Assigned (before ++ [s.token]) s₁ :=
        hole.inner s₁ [s.token] [] [.identifier, .assign, .intLiteral] rfl rfl rfl assigned_sample
          fun ts n hn => by
            obtain ⟨target, op, us, value, rfl, htarget, hop, hvalue⟩ := hn
            have := Assignment.typed hk htarget hop hvalue
            exact ⟨.noOp, _, by simpa [samples] using this⟩
      refine (vouches_assignTo hw h _ _ s₁ hr₁' trivial hinner).weaken hr₁' fun ts n s' _ hn => ?_
      obtain ⟨target, op, us, value, rfl, htarget, hop, hvalue⟩ := hn.derived
      exact ⟨⟨_, .typed hk htarget hop hvalue⟩, hn.atEnd, trivial⟩
    refine hfixed.congr hr fun depth s₁ hs₁ => ?_
    have hk₁ : s₁.kind = s.kind := congrArg Token.kind hs₁
    rw [assignment_eq, if_pos (by rwa [hk₁]), hs₁]
  · rw [if_neg hk]
    refine ((vouches_assignTo hw h none before s hr trivial hplain).weaken hr
      fun ts n s' _ hn => ?_).congr hr fun depth s₁ hs₁ => ?_
    · obtain ⟨target, op, us, value, rfl, htarget, hop, hvalue⟩ := hn.derived
      exact ⟨⟨_, .plain htarget hop hvalue⟩, hn.atEnd, trivial⟩
    · have hk₁ : s₁.kind = s.kind := congrArg Token.kind hs₁
      rw [assignment_eq, if_neg (by rwa [hk₁])]

def Returned (ts : List Token) (_ : Node) : Prop :=
  ∃ keyword us value, ts = keyword :: us ∧ keyword.kind = .kwReturn ∧ Expression us value

theorem vouches_ret (hw : whole.Proper) (h : VouchesAt whole depth) :
    VouchesRule whole false Returned anything (AtEnd whole) (ret .byOffset depth) (ret .never) := by
  intro before s hr hs hole
  refine Vouches.eat hw hr hole.viable (by decide) fun s₁ hk hr₁ hr₁' => ?_
  have hvalue : Hole Expression (before ++ [s.token]) s₁ :=
    hole.inner s₁ [s.token] [] [.intLiteral] rfl rfl rfl expression_sample fun ts n hn =>
      ⟨n, s.token, ts, n, by simp [samples], hk, hn⟩
  have hs₁ : AtOperand whole s₁ := hs.next_operand hr₁ (by rw [hk]; rfl)
  refine (h.expression _ s₁ hr₁' hs₁ hvalue).bind (fun ts n s₂ hr₂ hn => ?_)
    fun ts n s₂ _ _ => .inr (.inr ⟨rfl, _, rfl⟩)
  refine vouches_pure hr₂ (decided_pure _ _) ⟨⟨s.token, ts, n, ?_⟩, hn.atEnd, trivial⟩
  exact ⟨by simp, hk, hn.derived⟩

theorem vouches_expressionStatement (hw : whole.Proper) (h : VouchesAt whole depth)
    (hr : Reads whole before s) (hs : AtEnd whole s) (hk : s.kind.startsExpression = true)
    (hole : Hole (Statements .rightBrace) before s) :
    Vouches whole before true (expressionStatement .byOffset depth s)
      (Decided (expressionStatement .never)) fun ts _ s' => Taken whole anything ts s' := by
  have hstanding {ts : List Token} {n : Node} (hn : Expression ts n)
      (hts : ts.head? = some s.token) : Standing ts n := by
    obtain ⟨t, ts, rfl⟩ := List.exists_cons_of_ne_nil hn.ne_nil
    obtain rfl : t = s.token := Option.some.inj hts
    exact .mk (startsExpression_iff.mp hk) hn
  have hexpr : Hole Expression before s := hole.statement [.semicolon] rfl fun ts n hn hts =>
    ⟨n, .standing (hstanding hn hts) rfl⟩
  refine (h.expression before s hr (hs.operand hk) hexpr).bind (fun ts n s₁ hr₁ hn => ?_)
    fun ts n s₁ _ hb => ?_
  · have hhead := (hr.after hr₁).head?_of_ne_nil hn.derived.ne_nil
    have hstand := hstanding hn.derived hhead
    refine Vouches.ite (fun k => k.closesBlock = true) hr₁ (fun hclose => ?_) fun _ => ?_
    · refine vouches_pure hr₁ (decided_pure _ _) ?_
      rw [List.append_nil]
      exact ⟨hn.atEnd, .closed (.standing (.inl rfl) hstand) hclose,
        fun hts => absurd hts hstand.ne_nil, trivial⟩
    · have hviable : Viable (before ++ ts) :=
        hole.viable_append ts [.semicolon] hhead rfl (.single (.standing hstand rfl))
      refine Vouches.eat hw hr₁ hviable (by decide) fun s₂ hsemi hr₂ hr₂' => ?_
      exact vouches_pure hr₂' (decided_pure _ _) (.of_statement (.standing hstand hsemi)
        (hn.atEnd.within.next_end hr₂ (by simp [hsemi, Kind.expects])))
  · have hne : s₁.kind.closesBlock = false ∧ s₁.kind ≠ .semicolon := by
      generalize s₁.kind = k at hb
      cases k <;> simp_all [Kind.ofBools, Kind.isTruth, Kind.isComparison, Kind.isConnective,
        Kind.closesBlock]
    dsimp only
    rw [if_neg (by simp [hne.1])]
    exact .inr (halts_eat hne.2)

/-! ## Statements with blocks -/

structure VouchesStatementsAt (whole : Stream) (depth : Nat) : Prop where
  block : VouchesRule whole true (Derivable Block) anything (AtEnd whole)
    (Parsing.block .byOffset depth) (Parsing.block .never)
  ifStatement : VouchesRule whole true (Derivable Statement) anything (AtEnd whole)
    (Parsing.ifStatement .byOffset depth) (Parsing.ifStatement .never)
  statement : VouchesStatements whole anything (Parsing.statement .byOffset depth)
    (Parsing.statement .never)
  statementList : VouchesStatements whole (fun k => k.endsStatements = true)
    (Parsing.statementList .byOffset depth) (Parsing.statementList .never)

theorem block_sample : Derivable Block (samples [.leftBrace, .rightBrace]) .noOp :=
  ⟨_, .empty rfl rfl⟩

theorem statements_sample :
    Statements .rightBrace (samples [.intLiteral]) [.intLiteral (.sample .intLiteral)] :=
  .standing (.inl rfl) (.mk (by simp [Token.sample]) expression_sample)

theorem VouchesStatementsAt.block_succ (hw : whole.Proper) (ih : VouchesStatementsAt whole depth) :
    VouchesRule whole true (Derivable Block) anything (AtEnd whole)
      (Parsing.block .byOffset (depth + 1)) (Parsing.block .never) := by
  intro before s hr hs hole
  refine Vouches.of_succ ?_ hr (fun _ => rfl) fun _ _ _ => rfl
  refine Vouches.eat hw hr hole.viable (by decide) fun s₁ hl hr₁ hr₁' => ?_
  have hs₁ : AtEnd whole s₁ := hs.within.next_end hr₁ (by simp [hl, Kind.expects])
  have hlist : Hole (Statements .rightBrace) (before ++ [s.token]) s₁ :=
    hole.inner s₁ [s.token] [.rightBrace] [.intLiteral] rfl rfl rfl statements_sample
      fun ts nodes h => ⟨.noOp, _, .statements hl h (reached_throughReturn _) rfl⟩
  refine (ih.statementList _ s₁ hr₁' hs₁ hlist).bind_firm fun ts n s₂ hr₂ htaken => ?_
  have hviable : Viable (before ++ ([s.token] ++ ts)) :=
    hole.viable_append ([s.token] ++ ts) [.rightBrace] rfl rfl
      (show Derivable Block _ .noOp from htaken.listing.block hl rfl)
  rw [← List.append_assoc] at hviable
  refine Vouches.eat hw hr₂ hviable (by decide) fun s₃ hrb hr₃ hr₃' => ?_
  exact vouches_pure hr₃' (decided_pure _ _) ⟨htaken.listing.block hl hrb,
    htaken.atEnd.within.next_end hr₃ (by simp [hrb, Kind.expects]), trivial⟩

theorem VouchesStatementsAt.vouches_alternative (hw : whole.Proper)
    (ih : VouchesStatementsAt whole depth) {before ts : List Token} {s s₁ : Stream}
    (hole : Hole (Derivable Statement) before s) (hhead : ts.head? = some s.token)
    (hr : Reads whole (before ++ ts) s₁) (hs : AtEnd whole s₁) (halone : Derivable Statement ts .noOp)
    (hboth : ∀ us n, s₁.kind = .kwElse → Derivable Block us n →
      Derivable Statement (ts ++ [s₁.token] ++ us) .noOp) :
    Vouches whole (before ++ ts) true (Parsing.alternative (Parsing.block .byOffset depth) s₁)
      (Decided fun depth => Parsing.alternative (Parsing.block .never depth)) fun us _ s' =>
        Derivable Statement (ts ++ us) .noOp ∧ AtEnd whole s' := by
  unfold Parsing.alternative
  refine Vouches.ite (· = .kwElse) hr (fun helse => ?_) fun _ => ?_
  · refine Vouches.advance hw hr (by simp [helse]) fun s₂ hr₂ hr₂' => ?_
    have hs₂ : AtEnd whole s₂ := hs.within.next_end hr₂ (by simp [helse, Kind.expects])
    have hfalse : Hole (Derivable Block) (before ++ (ts ++ [s₁.token])) s₂ :=
      hole.inner s₂ (ts ++ [s₁.token]) [] [.leftBrace, .rightBrace] (by simp [hhead]) rfl rfl
        block_sample fun us n hblock => ⟨.noOp, by simpa [samples] using hboth us n helse hblock⟩
    rw [← List.append_assoc] at hfalse
    refine (ih.block _ s₂ hr₂' hs₂ hfalse).weaken hr₂' fun us n s' _ hn => ⟨?_, hn.atEnd⟩
    simpa using hboth us n helse hn.derived
  · refine vouches_pure hr (decided_pure _ _) ⟨?_, hs⟩
    rwa [List.append_nil]

theorem VouchesStatementsAt.ifStatement_succ (hw : whole.Proper) (ho : whole.Ordered)
    (ih : VouchesStatementsAt whole depth) :
    VouchesRule whole true (Derivable Statement) anything (AtEnd whole)
      (Parsing.ifStatement .byOffset (depth + 1)) (Parsing.ifStatement .never) := by
  intro before s hr hs hole
  have hfixed : Vouches whole before true (do
      let condition ← boolExpr .byOffset depth (← eat .kwIf s)
      let whenTrue ← Parsing.block .byOffset depth condition.2
      let whenFalse ← alternative (Parsing.block .byOffset depth) whenTrue.2
      return (.branch (some s.token) condition.1 whenTrue.1 whenFalse.1, whenFalse.2))
      (Decided fun depth s₁ => do
        let condition ← boolExpr .never depth (← eat .kwIf s₁)
        let whenTrue ← Parsing.block .never depth condition.2
        let whenFalse ← alternative (Parsing.block .never depth) whenTrue.2
        return (.branch (some s.token) condition.1 whenTrue.1 whenFalse.1, whenFalse.2))
      (ReadAs whole (Derivable Statement) anything) := by
    refine Vouches.eat hw hr hole.viable (by decide) fun s₁ hif hr₁ hr₁' => ?_
    have hs₁ : AtOperand whole s₁ := hs.next_operand hr₁ (by rw [hif]; rfl)
    have hcond : Hole BoolExpr (before ++ [s.token]) s₁ :=
      hole.inner s₁ [s.token] [.leftBrace, .rightBrace] [.identifier] rfl rfl rfl
        (.single boolTerm_sample) fun ts n hn => ⟨.noOp, _, .branch hif hn (.empty rfl rfl)⟩
    refine ((vouchesAt hw ho depth).boolExpr _ s₁ hr₁' hs₁ hcond).bind_firm
      fun ts condition s₂ hr₂ hn => ?_
    have hcond := hn.derived
    rw [List.append_assoc] at hr₂ ⊢
    have htrue : Hole (Derivable Block) (before ++ ([s.token] ++ ts)) s₂ :=
      hole.inner s₂ ([s.token] ++ ts) [] [.leftBrace, .rightBrace] rfl rfl rfl block_sample
        fun us n hblock => by
          obtain ⟨m, hm⟩ := hblock
          have := Statement.branch hif hcond hm
          exact ⟨.noOp, _, by simpa [samples] using this⟩
    dsimp only
    refine (ih.block _ s₂ hr₂ hn.atEnd htrue).bind_firm fun us whenTrue s₃ hr₃ hn => ?_
    obtain ⟨m, htrue⟩ := hn.derived
    rw [List.append_assoc] at hr₃ ⊢
    have halone : Derivable Statement ([s.token] ++ ts ++ us) .noOp :=
      ⟨_, by simpa using Statement.branch hif hcond htrue⟩
    have hboth (vs : List Token) (n : Node) (helse : s₃.kind = .kwElse)
        (hblock : Derivable Block vs n) :
        Derivable Statement ([s.token] ++ ts ++ us ++ [s₃.token] ++ vs) .noOp := by
      obtain ⟨m', hfalse⟩ := hblock
      exact ⟨_, by simpa using Statement.branches hif hcond htrue helse hfalse⟩
    have halt := ih.vouches_alternative hw hole rfl hr₃ hn.atEnd halone hboth
    dsimp only
    refine halt.bind_firm fun vs n s₄ hr₄ hn => vouches_pure hr₄ (decided_pure _ _) ?_
    exact ⟨by simpa using hn.1, hn.2, trivial⟩
  rw [ifStatement_eq]
  refine hfixed.of_succ hr (fun _ => rfl) fun depth s₁ hs₁ => ?_
  rw [ifStatement_eq, hs₁]

theorem VouchesStatementsAt.statement_succ (hw : whole.Proper) (ho : whole.Ordered)
    (ih : VouchesStatementsAt whole depth) :
    VouchesStatements whole anything (Parsing.statement .byOffset (depth + 1))
      (Parsing.statement .never) := by
  intro before s hr hs hole
  have hexpr := vouchesAt hw ho depth
  have hwhole {p : Parsing Parsed} {q : Nat → Stream → Parsing Parsed}
      (h : Vouches whole before true p (Decided q) (ReadAs whole (Derivable Statement) anything)) :
      Vouches whole before true p (Decided q) fun ts _ s' => Taken whole anything ts s' :=
    h.weaken hr fun ts n s' _ hn =>
      have ⟨m, hm⟩ := hn.derived
      .of_statement hm hn.atEnd
  have hassignment : Hole (Derivable Assignment) before s :=
    hole.statement [.semicolon] rfl fun ts n ⟨m, hm⟩ _ => ⟨m, .assignment hm rfl⟩
  have hassign := vouches_terminated hw hr hole
    (vouches_assignment hw hexpr before s hr trivial hassignment)
    (fun ts n ⟨m, hm⟩ => by cases hm <;> simp) fun ⟨m, hm⟩ hk => ⟨m, .assignment hm hk⟩
  rw [statement_eq]
  refine Vouches.of_succ ?_ hr (fun _ => rfl) fun depth s _ => statement_eq .never depth s
  refine Vouches.ite (· = .identifier) hr (fun hk => ?_) fun _ =>
    Vouches.ite (fun k => k.isType = true) hr (fun _ => hwhole hassign) fun _ =>
    Vouches.ite (· = .kwReturn) hr (fun hk => ?_) fun _ =>
    Vouches.ite (· = .kwIf) hr (fun hk => ?_) fun _ =>
    Vouches.ite (fun k => k.closesBlock = true) hr (fun hk => ?_) fun _ =>
    Vouches.ite (fun k => k.startsExpression = true) hr (fun hk => ?_) fun _ => ?_
  · have hcall : Hole Call before s :=
      hole.statement [.semicolon] rfl fun ts n hn _ => ⟨n, .call hn rfl⟩
    have hcall := vouches_terminated hw hr hole (hexpr.call before s hr trivial hcall)
      (fun ts n hn => (Factor.call hn).ne_nil) fun hn hk => ⟨_, .call hn hk⟩
    refine hwhole (Vouches.peek hw hr (by simp [hk]) hcall hassign (fun ts n s' hn => ?_)
      (not_decided_of_samples [.leftParen, .rightParen, .semicolon] hk (by decide)
        fun _ _ _ => ⟨_, _, rfl⟩)
      (not_decided_of_samples [.assign, .intLiteral, .semicolon] hk (by decide)
        fun _ _ _ => ⟨_, _, rfl⟩))
    obtain ⟨m, hm⟩ := hn.derived
    exact hm.ne_nil
  · have hreturned {ts : List Token} {n : Node} {t : Token} (hn : Returned ts n)
        (ht : t.kind = .semicolon) : Derivable Statement (ts ++ [t]) .noOp := by
      obtain ⟨keyword, us, value, rfl, hkeyword, hvalue⟩ := hn
      exact ⟨_, .ret hkeyword hvalue ht⟩
    have hret : Hole Returned before s :=
      hole.statement [.semicolon] rfl fun ts n hn _ => hreturned hn rfl
    refine hwhole (vouches_terminated hw hr hole (vouches_ret hw hexpr before s hr hs hret)
      (fun ts n hn => ?_) hreturned)
    obtain ⟨keyword, us, value, rfl, -⟩ := hn
    simp
  · have hif : Hole (Derivable Statement) before s := hole.statement [] rfl fun ts n hn _ => by
      simpa [samples] using hn
    exact hwhole (ih.ifStatement before s hr hs hif)
  · exact vouches_pure hr (decided_pure _ _) ⟨hs, .empty rfl, fun _ => hk, trivial⟩
  · exact vouches_expressionStatement hw hexpr hr hs hk hole
  · exact vouches_refuse hr hole.viable fun _ => decided_refuse _

theorem VouchesStatementsAt.statementList_succ (ih : VouchesStatementsAt whole depth) :
    VouchesStatements whole (fun k => k.endsStatements = true)
      (Parsing.statementList .byOffset (depth + 1)) (Parsing.statementList .never) := by
  intro before s hr hs hole
  refine Vouches.of_succ ?_ hr (fun _ => rfl) fun _ _ _ => rfl
  refine (ih.statement before s hr hs hole).bind_firm fun ts first s₁ hr₁ htaken => ?_
  -- Where the loop goes on, all statements so far are whole.
  have hstep (before' : List Token) (s' : Stream) (hr' : Reads whole before' s')
      (hgood : ∃ us, before' = before ++ us ∧ Taken whole anything us s')
      (hk : s'.kind.endsStatements = false) :
      Vouches whole before' true (Parsing.statement .byOffset depth s')
        (Decided (Parsing.statement .never)) fun vs _ s'' =>
          vs ≠ [] ∧ ∃ us, before' ++ vs = before ++ us ∧ Taken whole anything us s'' := by
    obtain ⟨us, rfl, htaken⟩ := hgood
    have hclose : s'.kind.closesBlock = false := by
      by_contra hclose
      rw [endsStatements_of_closesBlock (by simpa using hclose)] at hk
      cases hk
    obtain ⟨nodes, hnodes⟩ : ∃ nodes, Statements .kwFunc us nodes := by
      cases htaken.listing with
      | empty h => simp [htaken.empty h] at hclose
      | whole h => exact ⟨_, h⟩
      | closed _ h => simp [h] at hclose
    have hhead : us.head? = some s.token := (hr.after hr').head?_of_ne_nil hnodes.ne_nil
    have hnext : Hole (Statements .rightBrace) (before ++ us) s' :=
      hole.inner s' us [] [.intLiteral] hhead rfl rfl statements_sample fun vs nodes' h =>
        ⟨_, by simpa [samples] using hnodes.append h⟩
    refine (ih.statement _ s' hr' htaken.atEnd hnext).weaken hr' fun vs n s'' hvs hv => ⟨?_, ?_⟩
    · rintro rfl
      obtain rfl := hvs.eq_of_nil
      simp [hv.empty rfl] at hclose
    · refine ⟨us ++ vs, by simp, hv.atEnd, hv.listing.append hnodes, fun h => ?_, trivial⟩
      exact absurd (List.append_eq_nil_iff.mp h).1 hnodes.ne_nil
  have hloop := vouches_untilEnd hstep s₁.length hr₁ ⟨ts, rfl, htaken⟩ (Nat.le_refl _)
  have hloop : Vouches whole (before ++ ts) true _ (Decided fun depth s =>
      untilEnd Kind.endsStatements (Parsing.statement .never depth) s.length s) _ :=
    hloop.imp hr₁ (fun _ _ _ _ hd => hd.decided) fun _ _ _ _ hn hd =>
      ⟨fun hsure => (hd hsure).decided, hn⟩
  refine hloop.bind_firm fun us rest s₂ hr₂ hn => vouches_pure hr₂ (decided_pure _ _) ?_
  obtain ⟨⟨vs, heq, hv⟩, hend⟩ := hn
  obtain rfl : ts ++ us = vs := by simpa using heq
  rw [List.append_nil]
  exact ⟨hv.atEnd, hv.listing, hv.empty, hend⟩

theorem vouchesStatementsAt (hw : whole.Proper) (ho : whole.Ordered) (depth : Nat) :
    VouchesStatementsAt whole depth := by
  induction depth with
  | zero =>
    exact ⟨fun _ _ _ _ _ => vouches_tooDeep, fun _ _ _ _ _ => vouches_tooDeep,
      fun _ _ _ _ _ => vouches_tooDeep, fun _ _ _ _ _ => vouches_tooDeep⟩
  | succ depth ih =>
    exact ⟨ih.block_succ hw, ih.ifStatement_succ hw ho, ih.statement_succ hw ho,
      ih.statementList_succ⟩

end Parsing

end LittleLang
