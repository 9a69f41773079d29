import LittleLang.Proofs.Blame.Repetition
import LittleLang.Proofs.Memo.Rules

/-!
# The rules for expressions are vouched for
-/

open LittleLang.Stream LittleLang.Grammar

namespace LittleLang.Parsing

variable {ι α : Type} {whole s : Stream} {before : List Token}

/-! ## Samples -/

theorem factor_sample : Factor (samples [.intLiteral]) (.intLiteral (.sample .intLiteral)) :=
  .int rfl

theorem numExpr_sample : NumExpr (samples [.intLiteral]) (.intLiteral (.sample .intLiteral)) :=
  .single (.single factor_sample)

theorem boolTerm_sample : BoolTerm (samples [.identifier]) (.var (.sample .identifier)) :=
  .var (.single (.single (.var rfl)))

/-! ## Combinators -/

abbrev anything (_ : Kind) : Prop := True

abbrev anywhere (_ : Stream) : Prop := True

section

variable {q : ι → Stream → Parsing Parsed} {ks : List Kind} {n₀ : Node}

theorem vouches_parenthesized {inner : Stream → Parsing Parsed} {follow : Kind → Prop}
    {Symbol Inner : List Token → Node → Prop} (hw : whole.Proper)
    (h : VouchesRule whole true Inner follow (AtOperand whole) inner q)
    (hparen : ∀ {l r : Token} {ts : List Token} {n : Node}, l.kind = .leftParen → Inner ts n →
      r.kind = .rightParen → Symbol (l :: ts ++ [r]) n)
    (hks : areSpelled ks = true) (hsample : Inner (samples ks) n₀) :
    VouchesRule whole true Symbol anything anywhere (parenthesized inner)
      fun i => parenthesized (q i) := by
  intro before s hr _ hole
  unfold parenthesized
  refine Vouches.eat hw hr hole.viable (by decide) fun s₁ hl hr₁ hr₁' => ?_
  have hinner : Hole Inner (before ++ [s.token]) s₁ :=
    hole.inner s₁ [s.token] [.rightParen] ks rfl rfl hks hsample fun ts n hn =>
      ⟨n, hparen hl hn rfl⟩
  have hs₁ : AtOperand whole s₁ :=
    Within.next_operand ⟨before, hr⟩ hr₁ (by simp [hl, Kind.expects])
  refine (h _ s₁ hr₁' hs₁ hinner).bind_firm fun ts n s₂ hr₂ hn => ?_
  have hviable : Viable (before ++ (s.token :: ts)) :=
    hole.viable_append (s.token :: ts) [.rightParen] rfl rfl (hparen hl hn.derived rfl)
  refine Vouches.eat hw hr₂ (by simpa using hviable) (by decide) fun s₃ hrt hr₃ hr₃' => ?_
  refine vouches_pure hr₃' (decided_pure _ _) ⟨?_, ?_, trivial⟩
  · simpa using hparen hl hn.derived hrt
  · exact hn.atEnd.within.next_end hr₃ (by simp [hrt, Kind.expects])

theorem vouches_comparison {number : Stream → Parsing Parsed} (hw : whole.Proper)
    (h : VouchesRule whole true NumExpr (fun k => k.isArithmetic = false) (AtOperand whole) number
      q) :
    VouchesRule whole true BoolTerm anything (AtOperand whole) (comparison number)
      fun i => comparison (q i) := by
  intro before s hr hs hole
  unfold comparison
  have hcompare {ts : List Token} {n : Node} (hn : NumExpr ts n) {op : Token}
      (hop : op.kind.isComparison = true) :
      BoolTerm (ts ++ op :: samples [.intLiteral]) (.binary op n _) :=
    .comparison hn hop numExpr_sample
  have hleft : Hole NumExpr before s := hole.start [.less, .intLiteral] rfl fun ts n hn _ =>
    ⟨_, hcompare hn rfl⟩
  refine (h before s hr hs hleft).bind_firm fun ts left s₁ hr₁ hn => ?_
  have hread := hr.after hr₁
  refine Vouches.ite (fun k => k.isComparison = true) hr₁ (fun hop => ?_) fun _ => ?_
  · have hk : s₁.kind.expects false = true ∧ s₁.kind ≠ .endOfInput := by
      generalize s₁.kind = k at hop
      cases k <;> simp_all [Kind.isComparison, Kind.expects]
    have hfixed : Vouches whole (before ++ ts) true
        (advance s₁ >>= fun rest => number rest >>= fun r => pure (.binary s₁.token left r.1, r.2))
        (Decided fun i s => advance s >>= fun rest => q i rest >>= fun r =>
          pure (.binary s₁.token left r.1, r.2))
        fun us => ReadAs whole BoolTerm anything (ts ++ us) := by
      refine Vouches.advance hw hr₁ hk.2 fun s₂ hr₂ hr₂' => ?_
      have hright : Hole NumExpr (before ++ (ts ++ [s₁.token])) s₂ :=
        hole.inner s₂ (ts ++ [s₁.token]) [] [.intLiteral] (hread.head?_eq rfl) rfl rfl
          numExpr_sample fun us m hm => by
            have := BoolTerm.comparison hn.derived hop hm
            exact ⟨_, by simpa [samples] using this⟩
      rw [← List.append_assoc] at hright
      have hs₂ := hn.atEnd.next_operand hr₂ hk.1
      refine (h _ s₂ hr₂' hs₂ hright).bind_firm fun us m s₃ hr₃ hm => ?_
      refine vouches_pure hr₃ (decided_pure _ _) ⟨?_, hm.atEnd, trivial⟩
      rw [List.append_nil]
      exact .comparison hn.derived hop hm.derived
    refine hfixed.congr hr₁ fun i s₂ hs₂ => ?_
    rw [← hs₂]
  · have hviable : Viable (before ++ ts) := hole.viable_append ts [.less, .intLiteral]
      (hread.head?_of_ne_nil hn.derived.ne_nil) rfl (hcompare hn.derived rfl)
    by_cases href : left.isReference = true
    · simp only [if_pos href]
      refine vouches_pure hr₁ (decided_pure _ _) ?_
      rw [List.append_nil]
      exact ⟨.of_reference hn.derived href, hn.atEnd, trivial⟩
    · simp only [if_neg href]
      exact vouches_refuse hr₁ hviable fun _ => decided_refuse _

theorem vouches_token {Symbol : List Token → Node → Prop} (mk : Token → Node) (hw : whole.Proper)
    (hr : Reads whole before s) (hk : s.kind ≠ .endOfInput)
    (hend : ∀ b, s.kind.expects b = false) (h : Symbol [s.token] (mk s.token)) :
    Vouches whole before true (advance s >>= fun rest => pure (mk s.token, rest))
      (Decided fun (_ : ι) s => advance s >>= fun rest => pure (mk s.token, rest))
      (ReadAs whole Symbol anything) := by
  have hfixed : Vouches whole before true (advance s >>= fun rest => pure (mk s.token, rest))
      (Decided fun (_ : ι) s₁ => advance s₁ >>= fun rest => pure (mk s.token, rest))
      (ReadAs whole Symbol anything) := by
    refine Vouches.advance hw hr hk fun s' hs' hr' => ?_
    exact vouches_pure hr' (decided_pure _ _) ⟨h, Within.next_end ⟨before, hr⟩ hs' hend, trivial⟩
  exact hfixed.congr hr fun i s₁ hs₁ => by rw [hs₁]

theorem vouches_unary {Symbol : List Token → Node → Prop} {follow : Kind → Prop}
    {pre : Stream → Prop} {operand : Stream → Parsing Parsed} (hw : whole.Proper)
    (h : VouchesRule whole true Symbol follow pre operand q) (hr : Reads whole before s)
    (hk : s.kind ≠ .endOfInput) (hpre : ∀ s', Reads s [s.token] s' → pre s')
    (hunary : ∀ {ts : List Token} {n : Node}, Symbol ts n → Symbol (s.token :: ts) (.unary s.token n))
    (hks : areSpelled ks = true) (hsample : Symbol (samples ks) n₀) (hole : Hole Symbol before s) :
    Vouches whole before true (advance s >>= operand >>= fun r => pure (.unary s.token r.1, r.2))
      (Decided fun i s => advance s >>= q i >>= fun r => pure (.unary s.token r.1, r.2))
      (ReadAs whole Symbol anything) := by
  have hfixed : Vouches whole before true
      (advance s >>= fun rest => operand rest >>= fun r => pure (.unary s.token r.1, r.2))
      (Decided fun i s₁ => advance s₁ >>= fun rest => q i rest >>= fun r =>
        pure (.unary s.token r.1, r.2)) (ReadAs whole Symbol anything) := by
    refine Vouches.advance hw hr hk fun s₁ hr₁ hr₁' => ?_
    have hinner : Hole Symbol (before ++ [s.token]) s₁ :=
      hole.inner s₁ [s.token] [] ks rfl rfl hks hsample fun ts n hn => by
        have := hunary hn
        exact ⟨_, by simpa [samples] using this⟩
    refine (h _ s₁ hr₁' (hpre s₁ hr₁) hinner).bind_firm fun ts n s₂ hr₂ hn => ?_
    refine vouches_pure hr₂ (decided_pure _ _) ⟨?_, hn.atEnd, trivial⟩
    rw [List.append_nil]
    exact hunary hn.derived
  rw [bind_assoc]
  exact hfixed.congr hr fun i s₁ hs₁ => by rw [bind_assoc, hs₁]

theorem vouches_var (hw : whole.Proper) :
    VouchesRule whole true Factor anything anywhere var fun (_ : ι) => var := by
  intro before s hr _ hole
  have hfixed : Vouches whole before true
      (eat .identifier s >>= fun rest => pure (.var s.token, rest))
      (Decided fun (_ : ι) s₁ => eat .identifier s₁ >>= fun rest => pure (.var s.token, rest))
      (ReadAs whole Factor anything) := by
    refine Vouches.eat hw hr hole.viable (by decide) fun s' hk hs' hr' => ?_
    exact vouches_pure hr' (decided_pure _ _)
      ⟨.var hk, Within.next_end ⟨before, hr⟩ hs' (by simp [hk, Kind.expects]), trivial⟩
  refine hfixed.congr hr fun i s₁ hs₁ => ?_
  rw [← hs₁]
  rfl

end

/-! ## Rules -/

/-- All rules for expressions are vouched for. An expression is sure of its end unless a token comes
there that only bools have. -/
structure VouchesAt (whole : Stream) (depth : Nat) : Prop where
  call : VouchesRule whole true Call anything anywhere (Parsing.call .byOffset depth)
    (Parsing.call .never)
  factor : VouchesRule whole true Factor anything anywhere (Parsing.factor .byOffset depth)
    (Parsing.factor .never)
  numTerm : VouchesRule whole true NumTerm (fun k => k.isMultiplicative = false) anywhere
    (Parsing.numTerm .byOffset depth) (Parsing.numTerm .never)
  numExpr : VouchesRule whole true NumExpr (fun k => k.isArithmetic = false) (AtOperand whole)
    (Parsing.numExpr .byOffset depth) (Parsing.numExpr .never)
  boolTerm : VouchesRule whole true BoolTerm anything (AtOperand whole)
    (Parsing.boolTerm .byOffset depth) (Parsing.boolTerm .never)
  boolExpr : VouchesRule whole true BoolExpr anything (AtOperand whole)
    (Parsing.boolExpr .byOffset depth) (Parsing.boolExpr .never)
  expression : VouchesRule whole false Expression anything (AtOperand whole)
    (Parsing.expression .byOffset depth) (Parsing.expression .never)

section

variable {depth : Nat}

theorem VouchesAt.numTerm_succ (hw : whole.Proper) (ih : VouchesAt whole depth) :
    VouchesRule whole true NumTerm (fun k => k.isMultiplicative = false) anywhere
      (Parsing.numTerm .byOffset (depth + 1)) (Parsing.numTerm .never) := by
  intro before s hr hs hole
  refine ((vouches_chain hw rfl (fun _ _ => Factor.ne_nil) (fun _ _ _ _ _ => trivial) ih.factor rfl
    factor_sample before s hr hs hole).weaken hr ?_).of_succ hr (fun _ => rfl) fun _ _ _ => rfl
  exact fun ts n s' _ hn => ⟨hn.derived, hn.atEnd, hn.follow.2⟩

theorem VouchesAt.numExpr_succ (hw : whole.Proper) (ho : whole.Ordered)
    (ih : VouchesAt whole depth) :
    VouchesRule whole true NumExpr (fun k => k.isArithmetic = false) (AtOperand whole)
      (Parsing.numExpr .byOffset (depth + 1)) (Parsing.numExpr .never) := by
  intro before s hr hs hole
  rw [Parsing.numExpr]
  refine Vouches.byOffset hw ho hr hs ?_
  refine ((vouches_chain hw rfl (fun _ _ => NumTerm.ne_nil) (fun _ _ _ _ _ => trivial) ih.numTerm
    rfl (.single factor_sample) before s hr trivial hole).weaken hr ?_).of_succ hr (fun _ => rfl)
    fun depth s _ => numExpr_never_succ depth s
  refine fun ts n s' _ hn => ⟨hn.derived, hn.atEnd, ?_⟩
  simp [Kind.isArithmetic, hn.follow.1, hn.follow.2]

theorem VouchesAt.boolExpr_succ (hw : whole.Proper) (ih : VouchesAt whole depth) :
    VouchesRule whole true BoolExpr anything (AtOperand whole)
      (Parsing.boolExpr .byOffset (depth + 1)) (Parsing.boolExpr .never) := by
  intro before s hr hs hole
  have hnext (s s' : Stream) (hs : AtEnd whole s) (hop : s.kind.isConnective = true)
      (hr : Reads s [s.token] s') : AtOperand whole s' := by
    refine hs.next_operand hr ?_
    generalize s.kind = k at hop
    cases k <;> simp_all [Kind.isConnective, Kind.expects]
  refine ((vouches_chain hw rfl (fun _ _ => BoolTerm.ne_nil) hnext ih.boolTerm rfl boolTerm_sample
    before s hr hs hole).weaken hr ?_).of_succ hr (fun _ => rfl) fun _ _ _ => rfl
  exact fun ts n s' _ hn => ⟨hn.derived, hn.atEnd, trivial⟩

theorem VouchesAt.factor_succ (hw : whole.Proper) (ih : VouchesAt whole depth) :
    VouchesRule whole true Factor anything anywhere (Parsing.factor .byOffset (depth + 1))
      (Parsing.factor .never) := by
  intro before s hr hs hole
  rw [factor_eq]
  refine Vouches.of_succ ?_ hr (fun _ => rfl) fun depth s _ => factor_eq .never depth s
  have hliteral {k : Kind} (hk : s.kind = k) (hend : k ≠ .endOfInput)
      (hexpects : ∀ b, k.expects b = false) (mk : Token → Node) (h : Factor [s.token] (mk s.token)) :
      Vouches whole before true (advance s >>= fun rest => pure (mk s.token, rest))
        (Decided fun (_ : Nat) s => advance s >>= fun rest => pure (mk s.token, rest))
        (ReadAs whole Factor anything) :=
    vouches_token mk hw hr (hk ▸ hend) (hk ▸ hexpects) h
  refine Vouches.ite (· = .leftParen) hr (fun hk => ?_) fun _ =>
    Vouches.ite (fun k => k = .plus ∨ k = .minus) hr (fun hk => ?_) fun _ =>
    Vouches.ite (· = .floatLiteral) hr (fun hk => ?_) fun _ =>
    Vouches.ite (· = .intLiteral) hr (fun hk => ?_) fun _ =>
    Vouches.ite (· = .identifier) hr (fun hk => ?_) fun _ => vouches_var hw before s hr trivial hole
  · exact vouches_parenthesized hw ih.numExpr (fun hl hn hrt => .paren hl hn hrt) rfl numExpr_sample
      before s hr trivial hole
  · have hend : s.kind ≠ .endOfInput := by
      rcases hk with hk | hk <;> simp [hk]
    exact vouches_unary hw ih.factor hr hend (fun _ _ => trivial) (fun hn => .sign hk hn) rfl
      factor_sample hole
  · exact hliteral hk (by decide) (by simp [Kind.expects]) .floatLiteral (.float hk)
  · exact hliteral hk (by decide) (by simp [Kind.expects]) .intLiteral (.int hk)
  · have hcall : Hole Call before s := hole.start [] rfl fun ts n hn _ => by
      have := Factor.call hn
      exact ⟨n, by simpa [samples] using this⟩
    have hcall := (ih.call before s hr trivial hcall).weaken hr fun ts n s' _ hn =>
      show ReadAs whole Factor anything ts n s' from ⟨.call hn.derived, hn.atEnd, trivial⟩
    exact Vouches.peek hw hr (by simp [hk]) hcall (vouches_var hw before s hr trivial hole)
      (fun _ _ _ hn => hn.derived.ne_nil)
      (not_decided_of_samples [.leftParen, .rightParen] hk (by decide) fun _ _ _ => ⟨_, _, rfl⟩)
      (not_decided_of_samples [] hk (by decide) fun _ _ _ => ⟨_, _, rfl⟩)

theorem VouchesAt.boolTerm_succ (hw : whole.Proper) (ih : VouchesAt whole depth) :
    VouchesRule whole true BoolTerm anything (AtOperand whole)
      (Parsing.boolTerm .byOffset (depth + 1)) (Parsing.boolTerm .never) := by
  intro before s hr hs hole
  have hcomp := vouches_comparison hw ih.numExpr before s hr hs hole
  rw [boolTerm_eq]
  by_cases hparen : s.kind = .leftParen
  · rw [if_pos hparen]
    refine Vouches.prefer hr (vouches_parenthesized hw ih.boolExpr (fun hl hn hrt => .paren hl hn hrt)
      rfl (.single boolTerm_sample) before s hr trivial hole) hcomp ?_ ?_ ?_
    · refine fun ts n s' hts hn hrefused hd => ⟨?_, hn⟩
      have hfirst : Decided (fun depth s => prefer
          (parenthesized (Parsing.boolExpr .never depth) s)
          (fun kind => kind.isArithmetic || kind.isComparison)
          (comparison (Parsing.numExpr .never depth) s)) ts s'.token (some n) :=
        hd.prefer _ hrefused
      refine Decided.of_succ (hfirst.congr fun depth s₁ hs₁ => ?_) fun _ => rfl
      have hk : s₁.kind = .leftParen := by
        rw [hts.head?_eq rfl] at hs₁
        rw [Stream.kind, ← Option.some.inj hs₁]
        exact hparen
      rw [boolTerm_eq, if_pos hk]
    · exact fun ts t hk hd => hd.boolTerm fun _ => hk
    · exact fun ts n s' hn hd => ⟨fun hs => (hd hs).boolTerm (by simp), hn⟩
  · rw [if_neg hparen]
    by_cases hbang : s.kind = .bang
    · rw [if_pos hbang]
      refine (vouches_unary hw ih.boolTerm hr (by simp [hbang]) (fun s' hs' => ?_)
        (fun hn => .not hbang hn) rfl boolTerm_sample hole).of_succ hr (fun _ => rfl) ?_
      · exact Within.next_operand ⟨before, hr⟩ hs' (by simp [hbang, Kind.expects])
      · intro depth s₁ hs₁
        have hk : s₁.kind = .bang := by rwa [Stream.kind, hs₁]
        rw [boolTerm_eq, if_neg (by simp [hk]), if_pos hk]
    · rw [if_neg hbang]
      by_cases htruth : s.kind = .kwTrue ∨ s.kind = .kwFalse
      · rw [if_pos htruth]
        have hend : s.kind ≠ .endOfInput := by
          rcases htruth with hk | hk <;> simp [hk]
        refine (vouches_token .boolLiteral hw hr hend (fun b => ?_) (.truth htruth)).of_succ hr
          (fun _ => rfl) ?_
        · rcases htruth with hk | hk <;> simp [hk, Kind.expects]
        · intro depth s₁ hs₁
          have hk : s₁.kind = s.kind := congrArg Token.kind hs₁
          rw [boolTerm_eq, if_neg (by rwa [hk]), if_neg (by rwa [hk]), if_pos (by rwa [hk])]
      · rw [if_neg htruth]
        exact hcomp.imp hr (fun ts s' _ hk hd => hd.boolTerm fun _ => hk) fun ts n s' _ hn hd =>
          ⟨fun hs => (hd hs).boolTerm (by simp), hn⟩

theorem VouchesAt.expression_succ (ih : VouchesAt whole depth) :
    VouchesRule whole false Expression anything (AtOperand whole)
      (Parsing.expression .byOffset (depth + 1)) (Parsing.expression .never) := by
  intro before s hr hs hole
  have hbool : Hole BoolExpr before s := hole.start [] rfl fun ts n hn _ => by
    have := Expression.bool hn
    exact ⟨n, by simpa [samples] using this⟩
  have hnum : Hole NumExpr before s := hole.start [] rfl fun ts n hn _ => by
    have := Expression.number hn
    exact ⟨n, by simpa [samples] using this⟩
  unfold Parsing.expression
  refine Vouches.prefer hr (ih.boolExpr before s hr hs hbool) (ih.numExpr before s hr hs hnum)
    ?_ ?_ ?_
  · refine fun ts n s' _ hn hrefused hd => ⟨?_, .bool hn.derived, hn.atEnd, trivial⟩
    exact Decided.of_succ (hd.prefer _ hrefused) fun _ => rfl
  · exact fun ts t hk hd => hd.expression hk fun n h => by cases h
  · refine fun ts n s' hn hd => ⟨fun hsure => ?_, .number hn.derived, hn.atEnd, trivial⟩
    exact (hd (.inl rfl)).expression (hsure.resolve_left (by simp)) fun _ _ => hn.follow

theorem vouches_argumentList {expression : Stream → Parsing Parsed}
    {q : ι → Stream → Parsing Parsed} (hw : whole.Proper)
    (h : VouchesRule whole false Expression anything (AtOperand whole) expression q) :
    ∀ before s, Reads whole before s → AtOperand whole s → Hole (Listed Expression) before s →
      Vouches whole before false (argumentList expression s) (Decided fun i => argumentList (q i))
        fun ts as s' => Listed Expression ts as ∧ Within whole s' := by
  intro before s hr hs hole
  unfold argumentList
  refine Vouches.ite (· = .rightParen) hr (fun _ => ?_) fun _ => ?_
  · exact vouches_pure hr (decided_pure _ _) ⟨.nil, before, hr⟩
  · have hlist : Hole (Separated Expression) before s := hole.start [] rfl fun ts as has _ => by
      have := Listed.items has
      exact ⟨as, by simpa [samples] using this⟩
    refine (vouches_commaList hw (fun _ _ => Expression.ne_nil) atOperand_comma h rfl
      (.bool (.single boolTerm_sample)) before s hr hs hlist).weaken hr ?_
    exact fun ts as s' _ has => ⟨.items has.derived, has.atEnd.within⟩

theorem VouchesAt.call_succ (hw : whole.Proper) (ih : VouchesAt whole depth) :
    VouchesRule whole true Call anything anywhere (Parsing.call .byOffset (depth + 1))
      (Parsing.call .never) := by
  intro before s hr _ hole
  have hfixed : Vouches whole before true (do
      let rest ← eat .leftParen (← eat .identifier s)
      let r ← argumentList (Parsing.expression .byOffset depth) rest
      return (.call s.token r.1, ← eat .rightParen r.2))
      (Decided fun depth s₁ => do
        let rest ← eat .leftParen (← eat .identifier s₁)
        let r ← argumentList (Parsing.expression .never depth) rest
        return (.call s.token r.1, ← eat .rightParen r.2))
      (ReadAs whole Call anything) := by
    refine Vouches.eat hw hr hole.viable (by decide) fun s₁ hk hr₁ hr₁' => ?_
    have hviable₁ : Viable (before ++ [s.token]) :=
      hole.viable_append [s.token] [.leftParen, .rightParen] rfl rfl (.mk hk rfl .nil rfl)
    refine Vouches.eat hw hr₁' hviable₁ (by decide) fun s₂ hl hr₂ hr₂' => ?_
    have hread := hr₁.append hr₂
    rw [List.append_assoc] at hr₂' ⊢
    have hs₂ : AtOperand whole s₂ :=
      Within.next_operand ⟨_, hr₁'⟩ hr₂ (by simp [hl, Kind.expects])
    have hargs : Hole (Listed Expression) (before ++ ([s.token] ++ [s₁.token])) s₂ :=
      hole.inner s₂ ([s.token] ++ [s₁.token]) [.rightParen] [] rfl rfl rfl .nil fun ts as has => by
        have := Call.mk hk hl has (show (Token.sample .rightParen).kind = .rightParen from rfl)
        exact ⟨_, by simpa [samples] using this⟩
    refine (vouches_argumentList hw ih.expression _ s₂ hr₂' hs₂ hargs).bind
      (fun ts as s₃ hr₃ has => ?_) fun ts as s₃ _ hb => .inr (halts_eat ?_)
    · obtain ⟨has, hs₃⟩ := has
      have hviable : Viable (before ++ ([s.token] ++ [s₁.token] ++ ts)) :=
        hole.viable_append _ [.rightParen] rfl rfl (.mk hk hl has rfl)
      rw [← List.append_assoc] at hviable
      dsimp only
      refine Vouches.eat hw hr₃ hviable (by decide) fun s₄ hrt hr₄ hr₄' => ?_
      refine vouches_pure hr₄' (decided_pure _ _) ⟨?_, ?_, trivial⟩
      · simpa using Call.mk hk hl has hrt
      · exact hs₃.next_end hr₄ (by simp [hrt, Kind.expects])
    · intro hk
      rw [hk] at hb
      cases hb
  rw [call_eq]
  refine hfixed.of_succ hr (fun _ => rfl) fun depth s₁ hs₁ => ?_
  rw [call_eq, hs₁]

end

theorem vouchesAt (hw : whole.Proper) (ho : whole.Ordered) (depth : Nat) :
    VouchesAt whole depth := by
  induction depth with
  | zero =>
    exact ⟨fun _ _ _ _ _ => vouches_tooDeep, fun _ _ _ _ _ => vouches_tooDeep,
      fun _ _ _ _ _ => vouches_tooDeep, fun _ _ _ _ _ => vouches_tooDeep,
      fun _ _ _ _ _ => vouches_tooDeep, fun _ _ _ _ _ => vouches_tooDeep,
      fun _ _ _ _ _ => vouches_tooDeep⟩
  | succ depth ih =>
    exact ⟨ih.call_succ hw, ih.factor_succ hw, ih.numTerm_succ hw, ih.numExpr_succ hw ho,
      ih.boolTerm_succ hw, ih.boolExpr_succ hw, ih.expression_succ⟩

end LittleLang.Parsing
