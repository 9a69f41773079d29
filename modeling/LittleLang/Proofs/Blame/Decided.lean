import LittleLang.Proofs.Memo.Following
import LittleLang.Proofs.Completeness.Expressions

/-!
# Tokens that decide

Without a memo, what a rule does is often settled by the tokens it reads and the one after them,
whatever else the text holds: `Decided` says that they are read and what is built from them, or that
the token after them is blamed.

Where both readings of an expression are tried, the first may look further than the second. But a
bool reading that goes on behind a token which the numeric reading blames needs that token to be one
of those that only bools have (`Kind.ofBools`). So if the numeric reading is decided by other
tokens, both together are (`Decided.boolTerm`, `Decided.expression`). -/

open LittleLang.Stream LittleLang.Grammar

namespace LittleLang

/-- The tokens that only bools have. -/
def Kind.ofBools (k : Kind) : Bool :=
  k.isTruth || k = .bang || k.isComparison || k.isConnective

theorem Kind.extendsNumber_of_ofBools {k : Kind} (h : k.ofBools = true) :
    k.extendsNumber = false := by
  cases k <;> first | rfl | cases h

theorem Kind.ofBools_eq_false {k : Kind} (h : k.ofBools = false) :
    k.isComparison = false ∧ k.isConnective = false := by
  simp only [Kind.ofBools, Bool.or_eq_false_iff] at h
  exact ⟨h.1.2, h.2⟩

/-- The first token ahead is that of the tokens that are read, or else the one after them. -/
theorem Stream.Reads.head?_eq {s s' : Stream} {ts : List Token} {next : Token}
    (hr : Reads s ts s') (hs' : s'.token = next) : (ts ++ [next]).head? = some s.token := by
  cases hr with
  | nil => exact congrArg some hs'.symm
  | cons => rfl

theorem Stream.Reads.head?_of_ne_nil {s s' : Stream} {ts : List Token} (hr : Reads s ts s')
    (hts : ts ≠ []) : ts.head? = some s.token := by
  cases hr with
  | nil => exact absurd rfl hts
  | cons => rfl

namespace Parsing

variable {ι α β : Type}

/-! ## Contracts side by side -/

theorem Meets.both {p : Parsing α} {fails fails' : Failure → Prop} {post post' : α → Prop}
    (h : Meets p fails post) (h' : Meets p fails' post') :
    Meets p (fun e => fails e ∧ fails' e) fun a => post a ∧ post' a := by
  intro memo
  have h := h memo
  have h' := h' memo
  split at h
  · next hp =>
    rw [hp] at h'
    exact ⟨h, h'⟩
  · next hp =>
    rw [hp] at h'
    exact ⟨h, h'⟩

theorem Meets.false {p : Parsing α} (h : Meets p (fun _ => False) fun _ => False) : False := by
  have h := h []
  split at h <;> exact h

/-! ## Decisions -/

/-- A failure on a token is one on this token, and it is what the decision says. -/
def Faults (next : Token) (v : Option α) (e : Failure) : Prop :=
  ∀ t, e = .unexpected t → v = none ∧ t = next

/-- The tokens, and the one after them, decide what the rule does: it reads them and gives a result,
or it blames the token after them. -/
def Decided (q : ι → Stream → Parsing (α × Stream)) (ts : List Token) (next : Token)
    (v : Option α) : Prop :=
  ∀ i s s', s.Proper → Reads s ts s' → s'.token = next →
    Meets (q i s) (Faults next v) fun r => v = some r.1 ∧ r.2 = s'

section

variable {q q' : ι → Stream → Parsing (α × Stream)} {ts us : List Token} {t next : Token}
  {v : Option α} {a : α}

theorem faults_tooDeep : Faults next v .tooDeep :=
  fun _ h => nomatch h

theorem decided_pure (a : α) (next : Token) :
    Decided (fun (_ : ι) s => pure (a, s)) [] next (some a) := by
  intro i s s' _ hr _
  obtain rfl := hr.eq_of_nil
  exact meets_pure ⟨rfl, rfl⟩

theorem meets_refuse {s : Stream} {post : α → Prop} :
    Meets (refuse s) (Faults s.token (none : Option β)) post := by
  refine meets_throw fun t ht => ⟨rfl, ?_⟩
  cases ht
  rfl

theorem decided_refuse (t : Token) :
    Decided (fun (_ : ι) s => (refuse s : Parsing (α × Stream))) [] t none := by
  intro i s s' _ hr ht
  obtain rfl := hr.eq_of_nil
  obtain rfl := ht
  exact meets_refuse

theorem Decided.congr (h : Decided q ts next v)
    (hq : ∀ i s, (ts ++ [next]).head? = some s.token → q' i s = q i s) : Decided q' ts next v := by
  intro i s s' hp hr ht
  rw [hq i s (hr.head?_eq ht)]
  exact h i s s' hp hr ht

theorem Decided.of_succ {q : Nat → Stream → Parsing (α × Stream)}
    (h : Decided (fun depth => q (depth + 1)) ts next v) (h0 : ∀ s, q 0 s = throw .tooDeep) :
    Decided q ts next v := by
  intro depth s s' hp hr ht
  cases depth with
  | zero =>
    rw [h0]
    exact meets_throw faults_tooDeep
  | succ depth => exact h depth s s' hp hr ht

theorem Decided.bind {g : ι → α × Stream → Parsing (β × Stream)} {w : Option β}
    (h : Decided q ts t (some a)) (h' : Decided (fun i s => g i (a, s)) us next w)
    (ht : (us ++ [next]).head? = some t) :
    Decided (fun i s => q i s >>= g i) (ts ++ us) next w := by
  intro i s s' hp hr hnext
  obtain ⟨s₁, hr₁, hr₂⟩ := hr.split
  have ht₁ : s₁.token = t := Option.some.inj ((hr₂.head?_eq hnext).symm.trans ht)
  refine ((h i s s₁ hp hr₁ ht₁).imp (fun e he => ?_) fun _ h => h).bind fun r h₁ => ?_
  · exact fun u hu => nomatch (he u hu).1
  · obtain ⟨b, s₂⟩ := r
    obtain ⟨hb, rfl⟩ := h₁
    cases hb
    exact h' i s₂ s' (hr₁.proper hp) hr₂ hnext

theorem Decided.bind_none {g : ι → α × Stream → Parsing (β × Stream)}
    (h : Decided q ts t none) : Decided (fun i s => q i s >>= g i) ts t none := by
  intro i s s' hp hr ht
  refine ((h i s s' hp hr ht).imp (fun e he u hu => ⟨rfl, (he u hu).2⟩) fun r hr => ?_).bind_of_false
  exact nomatch hr.1

theorem Decided.map (h : Decided q ts next v) (f : α → β) :
    Decided (fun i s => q i s >>= fun r => pure (f r.1, r.2)) ts next (v.map f) := by
  cases v with
  | none => exact h.bind_none
  | some a =>
    rw [← List.append_nil ts]
    exact h.bind (decided_pure (f a) next) rfl

theorem Decided.advance (h : Decided q us next v) :
    Decided (fun i s => advance s >>= q i) (t :: us) next v := by
  intro i s s' hp hr hnext
  obtain ⟨head, s₁, rfl, rfl, hr₁⟩ := hr.uncons
  exact h i s₁ s' hp.2 hr₁ hnext

theorem Decided.peek {kind : Kind} {q₁ q₂ : ι → Stream → Parsing (α × Stream)} {u : Token}
    (h : Decided (if u.kind = kind then q₁ else q₂) ts next v) (hts : ts ≠ [])
    (hu : (ts.tail ++ [next]).head? = some u) :
    Decided (fun i s => Parsing.advance s >>= fun rest =>
      if rest.kind = kind then q₁ i s else q₂ i s) ts next v := by
  obtain ⟨t, ts, rfl⟩ := List.exists_cons_of_ne_nil hts
  intro i s s' hp hr ht
  obtain ⟨head, s₁, rfl, rfl, hr₁⟩ := hr.uncons
  obtain rfl : s₁.token = u := Option.some.inj ((hr₁.head?_eq ht).symm.trans hu)
  change Meets (if s₁.kind = kind then q₁ i (.more head s₁) else q₂ i (.more head s₁)) _ _
  by_cases hk : s₁.kind = kind
  · rw [if_pos (show s₁.token.kind = kind from hk)] at h
    rw [if_pos hk]
    exact h i _ s' hp hr ht
  · rw [if_neg (show s₁.token.kind ≠ kind from hk)] at h
    rw [if_neg hk]
    exact h i _ s' hp hr ht

theorem decided_eat_none {kind : Kind} (ht : t.kind ≠ kind) :
    Decided (fun i s => Parsing.eat kind s >>= q i) [] t none := by
  refine (decided_refuse t).congr fun i s hs => ?_
  obtain rfl : t = s.token := Option.some.inj hs
  rw [Parsing.eat, if_neg (show s.kind ≠ kind from ht)]
  rfl

theorem Decided.prefer {refused : Kind → Bool} (q' : ι → Stream → Parsing Parsed)
    {q : ι → Stream → Parsing Parsed} {n : Node} (h : Decided q ts next (some n))
    (hnext : refused next.kind = false) :
    Decided (fun i s => prefer (q i s) refused (q' i s)) ts next (some n) := by
  intro i s s' hp hr ht
  unfold Parsing.prefer
  have hfirst : Meets (attempt (q i s)) (Faults next (some n)) (· = some (n, s')) := by
    refine (h i s s' hp hr ht).attempt ?_ (fun t ht => nomatch (ht t rfl).1) fun e he _ => he
    rintro ⟨m, s₁⟩ ⟨hm, rfl⟩
    cases hm
    rfl
  refine hfirst.bind fun r hr => ?_
  subst hr
  dsimp only
  rw [if_neg (by rw [Stream.kind, ht, hnext]; simp)]
  exact meets_pure ⟨rfl, rfl⟩

theorem Decided.chain {isOperator : Kind → Bool} {q : ι → Stream → Parsing Parsed} {v : Option Node}
    (h : Decided q ts next v) (hnext : isOperator next.kind = false) :
    Decided (fun i => chain isOperator (q i)) ts next v := by
  unfold Parsing.chain
  cases v with
  | none => exact h.bind_none
  | some n =>
    rw [← List.append_nil ts]
    refine h.bind ((decided_pure n next).congr fun i s hs => ?_) rfl
    obtain rfl : next = s.token := Option.some.inj hs
    exact if_neg (show ¬isOperator s.token.kind = true by simp [hnext])

end

/-! ## Bools that are no numbers -/

def Refuses (p : Parsing α) (t : Token) : Prop :=
  Meets p (fun e => e = .tooDeep ∨ e = .unexpected t) fun _ => False

section

variable {s s' : Stream} {ts us : List Token} {n : Node}

theorem returns_chain_single {isOperator : Kind → Bool} {operand : Stream → Parsing Parsed}
    (h : Returns (operand s) (n, s')) (hs' : isOperator s'.kind = false) :
    Returns (chain isOperator operand s) (n, s') := by
  unfold chain
  refine h.bind ?_
  dsimp only
  rw [if_neg (by simpa using hs')]
  exact returns_pure _

theorem factor_paren {l : Placed} (hl : l.token.kind = .leftParen) (depth : Nat) :
    factor .never (depth + 1) (.more l s) = parenthesized (numExpr .never depth) (.more l s) := by
  rw [factor_eq, if_pos (show (Stream.more l s).kind = .leftParen from hl)]

/-- A number in parentheses is one, whatever follows it that is no operator. -/
theorem returns_numExpr_paren {l : Placed} {r : Token} (hl : l.token.kind = .leftParen)
    (h : NumExpr ts n) (hrt : r.kind = .rightParen) (hr : Reads s (ts ++ [r]) s')
    (hs' : s'.kind.isArithmetic = false) (depth : Nat) :
    Returns (numExpr .never depth (.more l s)) (n, s') := by
  obtain ⟨hadd, hmul⟩ := Bool.or_eq_false_iff.mp hs'
  match depth with
  | 0 => exact returns_tooDeep _
  | 1 => exact returns_tooDeep _
  | 2 => exact returns_tooDeep _
  | depth + 3 =>
    refine returns_chain_single (returns_chain_single ?_ hmul) hadd
    rw [factor_paren hl]
    refine returns_parenthesized hl hrt hr fun s₁ hr₁ hk => ?_
    exact (completeBelow (ts.length + 1)).numExpr ts n (Nat.lt_succ_self _) h depth s s₁ hr₁
      (by rw [hk]; rfl)

theorem refuses_numExpr_paren {l : Placed} {u : Token} (hl : l.token.kind = .leftParen)
    (h : ∀ depth, Refuses (parenthesized (numExpr .never depth) (.more l s)) u) :
    Blames (.more l s) u := by
  refine blames_of_factor fun depth => ?_
  cases depth with
  | zero => exact meets_throw (.inl rfl)
  | succ depth =>
    rw [factor_paren hl]
    exact h depth

/-- A parenthesis that holds no number is blamed for what comes first of a bool in it. -/
def Strays (s : Stream) : Prop :=
  ∃ u, u.kind.ofBools = true ∧ ∀ l : Placed, l.token.kind = .leftParen →
    ∀ depth, Refuses (parenthesized (numExpr .never depth) (.more l s)) u

theorem strays_of_blames {u : Token} (h : Blames s u) (hu : u.kind.ofBools = true) : Strays s :=
  ⟨u, hu, fun _ hl depth => (returns_eat hl).meets_bind (.inl rfl) (h depth).bind_of_false⟩

theorem strays_of_number (h : NumExpr ts n) (hr : Reads s ts s')
    (hs' : s'.kind.ofBools = true) : Strays s := by
  refine ⟨s'.token, hs', fun l hl depth => ?_⟩
  have hnumber := (completeBelow (ts.length + 1)).numExpr ts n (Nat.lt_succ_self _) h depth s s' hr
    (Kind.extendsNumber_of_ofBools hs')
  refine (returns_eat hl).meets_bind (.inl rfl) (hnumber.meets_bind (.inl rfl) ?_)
  have hne : s'.kind ≠ .rightParen := by
    intro hk
    rw [hk] at hs'
    cases hs'
  dsimp only
  rw [eat, if_neg hne]
  exact meets_throw (.inr rfl)

theorem ofBools_of_isConnective {k : Kind} (h : k.isConnective = true) : k.ofBools = true := by
  simp [Kind.ofBools, h]

theorem number_or_strays {m : Node} {tail : List Token} (h : NumExpr us m)
    (hm : m.isReference = true) (hr : Reads s (us ++ tail) s')
    (htail : (tail = [] ∧ n = m) ∨ ∃ op rest, tail = op :: rest ∧ op.kind.isConnective = true ∧
      n.isReference = false) :
    (NumExpr (us ++ tail) n ∧ n.isReference = true) ∨ Strays s := by
  rcases htail with ⟨rfl, rfl⟩ | ⟨op, rest, rfl, hop, -⟩
  · exact .inl ⟨by rwa [List.append_nil], hm⟩
  · obtain ⟨s₁, hr₁, hr₂⟩ := hr.split
    refine .inr (strays_of_number h hr₁ (ofBools_of_isConnective ?_))
    rwa [hr₂.kind_eq]

/-- What stands in a parenthesis as a bool is a variable or a call, or it strays from being a number
at a token that only bools have. -/
theorem number_or_strays_of_boolExpr (bound : Nat) : ∀ {ts : List Token} {n : Node} {s s' : Stream},
    ts.length < bound → BoolExpr ts n → Reads s ts s' →
    (NumExpr ts n ∧ n.isReference = true) ∨ Strays s := by
  induction bound with
  | zero => exact fun hb => absurd hb (Nat.not_lt_zero _)
  | succ bound ih =>
    intro ts n s s' hb h hr
    obtain ⟨us, m, tail, rfl, hterm, htail⟩ := Chain.first h
    obtain ⟨s₁, hr₁, hr₂⟩ := hr.split
    cases hterm with
    | var hm => exact number_or_strays hm rfl hr htail
    | call hm => exact number_or_strays hm rfl hr htail
    | truth hk =>
      obtain ⟨t, s₂, rfl, rfl, -⟩ := hr₁.uncons
      refine .inr (strays_of_blames (blames_self ?_) ?_)
      · show t.token.kind.startsNumber = false
        rcases hk with hk | hk <;> rw [hk] <;> rfl
      · show t.token.kind.ofBools = true
        rcases hk with hk | hk <;> rw [hk] <;> rfl
    | not hk =>
      obtain ⟨t, s₂, rfl, rfl, -⟩ := hr₁.uncons
      refine .inr (strays_of_blames (blames_self ?_) ?_)
      · show t.token.kind.startsNumber = false
        rw [hk]
        rfl
      · show t.token.kind.ofBools = true
        rw [hk]
        rfl
    | @comparison vs ws op left right hleft hop hright =>
      obtain ⟨s₂, hr₃, hr₄⟩ := hr₁.split
      refine .inr (strays_of_number hleft hr₃ ?_)
      rw [hr₄.kind_eq]
      simp [Kind.ofBools, hop]
    | @paren l r vs m hl hm hrt =>
      obtain ⟨l, s₂, rfl, rfl, hr₃⟩ := hr₁.uncons
      obtain ⟨s₃, hr₄, -⟩ := hr₃.split
      simp only [List.length_append, List.length_cons] at hb
      rcases ih (by omega) hm hr₄ with ⟨hnum, href⟩ | ⟨u, hu, hrefuse⟩
      · exact number_or_strays (.single (.single (.paren hl hnum hrt))) href hr htail
      · exact .inr (strays_of_blames (refuses_numExpr_paren hl (hrefuse l hl)) hu)

end

/-! ## Both readings -/

section

variable {s : Stream} {ts : List Token} {next : Token}

theorem comparison_settles (hs : s.Proper) :
    ∃ depth, Meets (comparison (numExpr .never depth) s) (· ≠ .tooDeep) fun _ => True := by
  refine ⟨8 * s.length + 4, ?_⟩
  refine (meets_comparison (lenient_failsBelow (8 * s.length + 4) (8 * s.length + 4)) hs
    fun s' hp hl => ?_).imp (fun e he => ?_) fun _ _ => trivial
  · exact ((soundAt _).numExpr s' hp).imp (fun _ he => he.le (by omega)) fun _ h => h
  · rintro rfl
    cases he with
    | tooDeep h => exact absurd h (Nat.lt_irrefl _)

theorem Decided.of_blames {v : Option Node} {s' : Stream} {u : Token}
    (h : Decided (fun depth => comparison (numExpr .never depth)) ts next v) (hp : s.Proper)
    (hr : Reads s ts s') (hs' : s'.token = next) (hu : Blames s u) : v = none ∧ u = next := by
  obtain ⟨depth, hsettles⟩ := comparison_settles hp
  have hrefuses : Refuses (comparison (numExpr .never depth) s) u := (hu depth).bind_of_false
  have hboth := (hsettles.both hrefuses).both (h depth s s' hp hr hs')
  refine Classical.byContradiction fun hv => (hboth.imp (fun e he => ?_) fun r hr => hr.1.2).false
  obtain ⟨⟨hne, rfl | rfl⟩, hfault⟩ := he
  · exact hne rfl
  · exact hv (hfault u rfl)

theorem Decided.of_returns {v : Option Node} {s' s₁ : Stream} {n : Node}
    (h : Decided (fun depth => comparison (numExpr .never depth)) ts next v) (hp : s.Proper)
    (hr : Reads s ts s') (hs' : s'.token = next)
    (hn : ∀ depth, Returns (comparison (numExpr .never depth) s) (n, s₁)) :
    v = some n ∧ s₁ = s' := by
  obtain ⟨depth, hsettles⟩ := comparison_settles hp
  have hboth := (hsettles.both (hn depth)).both (h depth s s' hp hr hs')
  refine Classical.byContradiction fun hv => (hboth.imp (fun e he => he.1.1 he.1.2) fun r hr => ?_).false
  obtain ⟨⟨-, rfl⟩, hpost⟩ := hr
  exact hv hpost

/-- Where the numeric reading is decided, by tokens that are not only for bools, the bool reading of
what stands in a parenthesis makes no difference. -/
theorem Decided.boolTerm {v : Option Node}
    (h : Decided (fun depth => comparison (numExpr .never depth)) ts next v)
    (hv : v = none → next.kind.ofBools = false) : Decided (boolTerm .never) ts next v := by
  refine Decided.of_succ (fun depth s s' hp hr ht => ?_) fun _ => rfl
  have hcomp := h depth s s' hp hr ht
  -- A number does not start with a token that only bools have.
  have hstart (hk : s.kind.startsNumber = false) (hb : s.kind.ofBools = true) : False := by
    obtain ⟨hnone, rfl⟩ := h.of_blames hp hr ht (blames_self hk)
    have := hv hnone
    rw [← Stream.kind, hb] at this
    cases this
  show Meets (Parsing.boolTerm .never (depth + 1) s) _ _
  rw [boolTerm_eq]
  refine Meets.ite (fun hk => ?_) fun _ => Meets.ite (fun hk => ?_) fun _ =>
    Meets.ite (fun hk => ?_) fun _ => hcomp
  · unfold Parsing.prefer
    have hfirst : Meets (parenthesized (boolExpr .never depth) s)
        (FailsBelow depth (8 * s.length + 6)) fun r => ∃ l ts rt, Reads s (l :: ts ++ [rt]) r.2 ∧
          l.kind = .leftParen ∧ BoolExpr ts r.1 ∧ rt.kind = .rightParen :=
      meets_parenthesized (lenient_failsBelow _ _) hp fun s₁ hp₁ hlt =>
        ((soundAt depth).boolExpr s₁ hp₁).imp (fun _ he => he.le (by omega)) fun _ h => h
    have hattempt : Meets (attempt (parenthesized (boolExpr .never depth) s)) (Faults next v)
        fun r => ∀ a, r = some a → ∃ l ts rt, Reads s (l :: ts ++ [rt]) a.2 ∧
          l.kind = .leftParen ∧ BoolExpr ts a.1 ∧ rt.kind = .rightParen :=
      hfirst.attempt (by rintro a ha _ ⟨⟩; exact ha) (by simp) fun e _ hne t ht =>
        absurd ht (hne t)
    refine hattempt.bind fun r hr₁ => ?_
    cases r with
    | none => exact hcomp
    | some a =>
      obtain ⟨n, s₁⟩ := a
      refine Meets.ite (fun _ => hcomp) fun hrefused => ?_
      obtain ⟨l, us, rt, hr₁, hl, hbool, hrt⟩ := hr₁ _ rfl
      obtain ⟨l, s₂, rfl, rfl, hr₂⟩ := hr₁.uncons
      obtain ⟨s₃, hr₃, -⟩ := hr₂.split
      simp only [Bool.or_eq_true, not_or, Bool.not_eq_true] at hrefused
      rcases number_or_strays_of_boolExpr _ (Nat.lt_succ_self _) hbool hr₃ with
        ⟨hnum, href⟩ | ⟨u, hu, hrefuse⟩
      · have hreturns depth : Returns (comparison (numExpr .never depth) (.more l s₂)) (n, s₁) := by
          refine meets_comparison_single
            (returns_numExpr_paren hl hnum hrt hr₂ hrefused.1 depth) hrefused.2 rfl ?_
          rw [if_pos href]
          exact returns_pure _
        obtain ⟨rfl, rfl⟩ := h.of_returns hp hr ht hreturns
        exact meets_pure ⟨rfl, rfl⟩
      · obtain ⟨hnone, rfl⟩ := h.of_blames hp hr ht (refuses_numExpr_paren hl (hrefuse l hl))
        rw [hv hnone] at hu
        cases hu
  · exact (hstart (by rw [hk]; rfl) (by rw [hk]; rfl)).elim
  · exact (hstart (by rcases hk with hk | hk <;> rw [hk] <;> rfl)
      (by rcases hk with hk | hk <;> rw [hk] <;> rfl)).elim

theorem Decided.comparison {v : Option Node} (h : Decided (numExpr .never) ts next v)
    (hnext : next.kind.isComparison = false) :
    Decided (fun depth => comparison (numExpr .never depth)) ts next
      (v.filter Node.isReference) := by
  unfold Parsing.comparison
  cases v with
  | none => exact h.bind_none
  | some n =>
    rw [← List.append_nil ts]
    refine h.bind ?_ rfl
    have hstop (depth : Nat) (s : Stream) (hs : ([] ++ [next]).head? = some s.token) :
        ¬s.kind.isComparison = true := by
      obtain rfl : next = s.token := Option.some.inj hs
      exact Bool.eq_false_iff.mp hnext
    by_cases hn : n.isReference = true
    · rw [Option.filter_some_pos hn]
      refine (decided_pure n next).congr fun depth s hs => ?_
      exact (if_neg (hstop depth s hs)).trans (if_pos hn)
    · rw [Option.filter_some_neg (by simpa using hn)]
      refine (decided_refuse next).congr fun depth s hs => ?_
      exact (if_neg (hstop depth s hs)).trans (if_neg hn)

theorem Decided.expression {v : Option Node} (h : Decided (numExpr .never) ts next v)
    (hb : next.kind.ofBools = false) (ha : ∀ n, v = some n → next.kind.isArithmetic = false) :
    Decided (expression .never) ts next v := by
  obtain ⟨hcmp, hcon⟩ := Kind.ofBools_eq_false hb
  have hterm := (h.comparison hcmp).boolTerm fun _ => hb
  have hbool : Decided (boolExpr .never) ts next (v.filter Node.isReference) :=
    Decided.of_succ (hterm.chain hcon) fun _ => rfl
  refine Decided.of_succ ?_ fun _ => rfl
  by_cases hv : ∃ n, v.filter Node.isReference = some n
  · obtain ⟨n, hn⟩ := hv
    rw [hn] at hbool
    obtain ⟨rfl, -⟩ := Option.filter_eq_some_iff.mp hn
    exact hbool.prefer _ (ha n rfl)
  · obtain hnone : v.filter Node.isReference = none := by simpa using hv
    rw [hnone] at hbool
    intro depth s s' hp hr ht
    show Meets (Parsing.prefer _ _ _) _ _
    unfold Parsing.prefer
    have hfirst : Meets (attempt (boolExpr .never depth s)) (Faults next v) (· = none) := by
      refine (hbool depth s s' hp hr ht).attempt (fun r hr => nomatch hr.1) (fun _ _ => rfl) ?_
      exact fun e _ hne t ht => absurd ht (hne t)
    refine hfirst.bind fun r hr₁ => ?_
    subst hr₁
    exact h depth s s' hp hr ht

end

end Parsing

end LittleLang
