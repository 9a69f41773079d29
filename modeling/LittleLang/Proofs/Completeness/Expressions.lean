import LittleLang.Proofs.Grammar
import LittleLang.Proofs.Steps

/-!
# Derivable expressions are parsed

Where the grammar derives an expression from the tokens ahead, and the token after them cannot go on
with it, the rules of the parser read exactly these tokens and give the tree of the derivation
(`Returns`), unless the depth is too small.

The parser never goes wrong by trying the bool reading first: on a number it fails, or it stops
before an operator and is taken back. A parenthesis is where this needs care, since what stands
inside may fit both readings; the induction is on the number of tokens, so that the inside is
settled before. -/

open LittleLang.Stream LittleLang.Grammar

namespace LittleLang

/-! ## What can go on with an expression -/

/-- A number goes on with an arithmetic operator, and an identifier at its end with the parenthesis
of a call. -/
def Kind.extendsNumber (k : Kind) : Bool :=
  k = .leftParen || k.isArithmetic

/-- An operand of `&&` and `||` goes on like a number, or with a comparison. -/
def Kind.extendsTerm (k : Kind) : Bool :=
  k.extendsNumber || k.isComparison

/-- An expression goes on like an operand of `&&` and `||`, or with one of these. -/
def Kind.extendsBool (k : Kind) : Bool :=
  k.extendsTerm || k.isConnective

namespace Parsing

variable {α β : Type}

/-! ## Steps with a known end -/

def Returns (p : Parsing α) (a : α) : Prop :=
  Meets p (· = .tooDeep) (· = a)

def Fails (p : Parsing α) : Prop :=
  Meets p (fun e => e = .tooDeep ∨ ∃ t, e = .unexpected t) fun _ => False

theorem returns_pure (a : α) : Returns (pure a) a :=
  meets_pure rfl

theorem returns_tooDeep (a : α) : Returns (throw .tooDeep) a :=
  meets_throw rfl

theorem fails_tooDeep : Fails (throw .tooDeep : Parsing α) :=
  meets_throw (.inl rfl)

theorem Returns.meets_bind {p : Parsing α} {f : α → Parsing β} {a : α} {fails : Failure → Prop}
    {post : β → Prop} (h : Returns p a) (hdeep : fails .tooDeep) (hf : Meets (f a) fails post) :
    Meets (p >>= f) fails post := by
  refine Meets.bind (h.imp ?_ fun _ h => h) ?_
  · rintro e rfl
    exact hdeep
  · rintro b rfl
    exact hf

theorem Returns.bind {p : Parsing α} {f : α → Parsing β} {a : α} {b : β} (h : Returns p a)
    (hf : Returns (f a) b) : Returns (p >>= f) b :=
  h.meets_bind rfl hf

theorem Fails.bind {p : Parsing α} {f : α → Parsing β} (h : Fails p) : Fails (p >>= f) :=
  Meets.bind_of_false h

theorem returns_advance (head : Placed) (tail : Stream) :
    Returns (advance (.more head tail)) tail :=
  returns_pure tail

theorem returns_eat {kind : Kind} {head : Placed} {tail : Stream} (h : head.token.kind = kind) :
    Returns (eat kind (.more head tail)) tail := by
  unfold eat
  rw [if_pos (show (Stream.more head tail).kind = kind from h)]
  exact returns_advance head tail

section

variable {first second : Parsing Parsed} {refused : Kind → Bool} {node : Node} {s : Stream}

theorem returns_prefer_first (h : Returns first (node, s)) (hs : refused s.kind = false) :
    Returns (prefer first refused second) (node, s) := by
  unfold prefer
  have ha : Returns (attempt first) (some (node, s)) :=
    Meets.attempt h (by rintro a rfl; rfl) (by simp) fun e he _ => he
  refine ha.bind ?_
  simp only [hs, Bool.false_eq_true, if_false]
  exact returns_pure _

theorem meets_prefer_refused {fails : Failure → Prop} {post : Parsed → Prop}
    (h : Returns first (node, s)) (hs : refused s.kind = true) (hdeep : fails .tooDeep)
    (h₂ : Meets second fails post) : Meets (prefer first refused second) fails post := by
  unfold prefer
  have ha : Returns (attempt first) (some (node, s)) :=
    Meets.attempt h (by rintro a rfl; rfl) (by simp) fun e he _ => he
  refine ha.meets_bind hdeep ?_
  simp only [hs, if_true]
  exact h₂

theorem meets_prefer_failed {fails : Failure → Prop} {post : Parsed → Prop} (h : Fails first)
    (hdeep : fails .tooDeep) (h₂ : Meets second fails post) :
    Meets (prefer first refused second) fails post := by
  unfold prefer
  have ha : Returns (attempt first) none := by
    refine Meets.attempt h (fun _ h => h.elim) (fun _ _ => rfl) fun e he hne => ?_
    rcases he with he | ⟨t, he⟩
    · exact he
    · exact absurd he (hne t)
  exact ha.meets_bind hdeep h₂

end

theorem returns_parenthesized {inner : Stream → Parsing Parsed} {ts : List Token} {n : Node}
    {l : Placed} {r : Token} {s s' : Stream} (hl : l.token.kind = .leftParen)
    (hrt : r.kind = .rightParen) (hr : Reads s (ts ++ [r]) s')
    (h : ∀ s₁, Reads s ts s₁ → s₁.kind = .rightParen → Returns (inner s) (n, s₁)) :
    Returns (parenthesized inner (.more l s)) (n, s') := by
  obtain ⟨s₁, hr₁, h₁⟩ := hr.split
  obtain ⟨rt, s₂, rfl, rfl, h₂⟩ := h₁.uncons
  obtain rfl := h₂.eq_of_nil
  unfold parenthesized
  refine (returns_eat hl).bind ((h _ hr₁ hrt).bind ?_)
  exact (returns_eat hrt).bind (returns_pure _)

theorem fails_parenthesized {inner : Stream → Parsing Parsed} {l : Placed} {s : Stream}
    (hl : l.token.kind = .leftParen) (h : Fails (inner s)) :
    Fails (parenthesized inner (.more l s)) :=
  (returns_eat hl).meets_bind (.inl rfl) h.bind

/-! ## Repetition -/

section

variable {isOperator : Kind → Bool} {operand : Stream → Parsing Parsed}
  {Operand : List Token → Node → Prop} (follow : Kind → Prop)

/-- A chain of operands is read up to its last one, and then the loop is there. The rounds that are
left are enough for the tokens that are left. -/
theorem returns_chain_of_chainFrom {bound : Nat}
    (hop : ∀ us m, us.length ≤ bound → Operand us m → ∀ s s', Reads s us s' → follow s'.kind →
      Returns (operand s) (m, s'))
    (hfollow : ∀ k, isOperator k = true → follow k) {ts : List Token} {n : Node}
    (h : Chain isOperator Operand ts n) (hb : ts.length ≤ bound) {s s' : Stream}
    (hr : Reads s ts s') (hs' : follow s'.kind) {r : Parsed}
    (hrest : ∀ rounds, s'.length ≤ rounds →
      Returns (chainFrom isOperator operand rounds n s') r) :
    Returns (chain isOperator operand s) r := by
  induction h generalizing s' r with
  | single h =>
    unfold chain
    refine (hop _ _ hb h s s' hr hs').bind ?_
    have hloop := hrest s'.length (Nat.le_refl _)
    dsimp only
    by_cases hk : isOperator s'.kind = true
    · rwa [if_pos hk]
    · rw [if_neg hk]
      obtain ⟨rounds, hl⟩ := Nat.exists_eq_succ_of_ne_zero (Nat.ne_of_gt s'.length_pos)
      rwa [hl, chainFrom, if_neg hk] at hloop
  | @snoc ts us op left right _ hk hright ih =>
    simp only [List.length_append, List.length_cons] at hb
    obtain ⟨s₁, hr₁, h₂⟩ := hr.split
    obtain ⟨head, s₂, rfl, rfl, hr₂⟩ := h₂.uncons
    refine ih (by omega) hr₁ (hfollow _ hk) fun rounds hrounds => ?_
    simp only [Stream.length] at hrounds
    obtain ⟨rounds, rfl⟩ := Nat.exists_eq_succ_of_ne_zero (show rounds ≠ 0 by omega)
    rw [chainFrom, if_pos (show isOperator (Stream.more head s₂).kind = true from hk)]
    refine (returns_advance head s₂).bind ((hop us right (by omega) hright s₂ s' hr₂ hs').bind ?_)
    have := hr₂.length
    exact hrest rounds (by omega)

theorem returns_chain {ts : List Token} {n : Node}
    (hop : ∀ us m, us.length ≤ ts.length → Operand us m → ∀ s s', Reads s us s' →
      follow s'.kind → Returns (operand s) (m, s'))
    (hfollow : ∀ k, isOperator k = true → follow k) (h : Chain isOperator Operand ts n)
    {s s' : Stream} (hr : Reads s ts s') (hs' : follow s'.kind)
    (hend : isOperator s'.kind = false) : Returns (chain isOperator operand s) (n, s') := by
  refine returns_chain_of_chainFrom follow hop hfollow h (Nat.le_refl _) hr hs' fun rounds _ => ?_
  cases rounds with
  | zero => exact returns_pure _
  | succ rounds =>
    rw [chainFrom, if_neg (by simp [hend])]
    exact returns_pure _

end

theorem fails_chain {isOperator : Kind → Bool} {operand : Stream → Parsing Parsed} {s : Stream}
    (h : Fails (operand s)) : Fails (chain isOperator operand s) :=
  h.bind

section

variable {item : Stream → Parsing (α × Stream)} {Item : List Token → α → Prop}
  (follow : Kind → Prop)

theorem returns_afterCommas {bound : Nat}
    (hitem : ∀ us a, us.length ≤ bound → Item us a → ∀ s s', Reads s us s' → follow s'.kind →
      Returns (item s) (a, s'))
    (hcomma : follow .comma) {ts : List Token} {as : List α} (h : Separated Item ts as)
    (hb : ts.length ≤ bound) {head : Placed} {s s' : Stream} (hhead : head.token.kind = .comma)
    (hr : Reads s ts s') (hs' : follow s'.kind) (hend : s'.kind ≠ .comma) (rounds : Nat)
    (hrounds : s.length < rounds) :
    Returns (afterCommas item rounds (.more head s)) (as, s') := by
  induction h generalizing head s rounds with
  | @single ts a h =>
    obtain ⟨rounds, rfl⟩ := Nat.exists_eq_succ_of_ne_zero (show rounds ≠ 0 by omega)
    rw [afterCommas, if_pos (show (Stream.more head s).kind = .comma from hhead)]
    refine (returns_advance head s).bind ((hitem ts a hb h s s' hr hs').bind ?_)
    have hrest : Returns (afterCommas item rounds s') ([], s') := by
      cases rounds with
      | zero => exact returns_pure _
      | succ rounds =>
        rw [afterCommas, if_neg hend]
        exact returns_pure _
    exact hrest.bind (returns_pure _)
  | @cons ts us comma a as h hc _ ih =>
    simp only [List.length_append, List.length_cons] at hb
    obtain ⟨s₁, hr₁, h₂⟩ := hr.split
    obtain ⟨head₂, s₂, rfl, rfl, hr₂⟩ := h₂.uncons
    obtain ⟨rounds, rfl⟩ := Nat.exists_eq_succ_of_ne_zero (show rounds ≠ 0 by omega)
    rw [afterCommas, if_pos (show (Stream.more head s).kind = .comma from hhead)]
    have hnext : follow (Stream.more head₂ s₂).kind := by
      rw [show (Stream.more head₂ s₂).kind = .comma from hc]
      exact hcomma
    refine (returns_advance head s).bind ((hitem ts a (by omega) h s _ hr₁ hnext).bind ?_)
    have hlen := hr₁.length
    simp only [Stream.length] at hlen
    exact (ih (by omega) hc hr₂ rounds (by omega)).bind (returns_pure _)

theorem returns_commaList {ts : List Token} {as : List α}
    (hitem : ∀ us a, us.length ≤ ts.length → Item us a → ∀ s s', Reads s us s' → follow s'.kind →
      Returns (item s) (a, s'))
    (hcomma : follow .comma) (h : Separated Item ts as) {s s' : Stream} (hr : Reads s ts s')
    (hs' : follow s'.kind) (hend : s'.kind ≠ .comma) : Returns (commaList item s) (as, s') := by
  unfold commaList
  cases h with
  | single h =>
    refine (hitem _ _ (Nat.le_refl _) h s s' hr hs').bind ?_
    obtain ⟨rounds, hl⟩ := Nat.exists_eq_succ_of_ne_zero (Nat.ne_of_gt s'.length_pos)
    have hrest : Returns (afterCommas item s'.length s') ([], s') := by
      rw [hl, afterCommas, if_neg hend]
      exact returns_pure _
    exact hrest.bind (returns_pure _)
  | @cons ts us comma a as h hc hrest =>
    obtain ⟨s₁, hr₁, h₂⟩ := hr.split
    obtain ⟨head, s₂, rfl, rfl, hr₂⟩ := h₂.uncons
    have hnext : follow (Stream.more head s₂).kind := by
      rw [show (Stream.more head s₂).kind = .comma from hc]
      exact hcomma
    refine (hitem ts a (by simp) h s _ hr₁ hnext).bind ?_
    refine (returns_afterCommas follow hitem hcomma hrest (by simp; omega) hc hr₂ hs' hend _ ?_).bind
      (returns_pure _)
    simp only [Stream.length]
    omega

end

/-! ## Expressions -/

/-- The rule reads every derivation of fewer tokens than the bound, up to a token that may follow.
-/
def AcceptsBelow (bound : Nat) (rule : Nat → Stream → Parsing Parsed)
    (Symbol : List Token → Node → Prop) (follow : Kind → Prop) : Prop :=
  ∀ ts n, ts.length < bound → Symbol ts n → ∀ depth s s', Reads s ts s' → follow s'.kind →
    Returns (rule depth s) (n, s')

/-- All rules for expressions read the derivations below a bound. A number that is neither a
variable nor a call is not read as a bool. -/
structure CompleteBelow (bound : Nat) : Prop where
  call : AcceptsBelow bound (Parsing.call .never) Call fun _ => True
  factor : AcceptsBelow bound (Parsing.factor .never) Factor (· ≠ .leftParen)
  numExpr : AcceptsBelow bound (Parsing.numExpr .never) NumExpr fun k => k.extendsNumber = false
  boolTerm : AcceptsBelow bound (Parsing.boolTerm .never) BoolTerm fun k => k.extendsTerm = false
  refuses : ∀ ts n, ts.length < bound → NumExpr ts n → n.isReference = false →
    ∀ depth s s', Reads s ts s' → s'.kind.extendsTerm = false →
      Fails (Parsing.boolTerm .never depth s)
  boolExpr : AcceptsBelow bound (Parsing.boolExpr .never) BoolExpr fun k => k.extendsBool = false
  expression : AcceptsBelow bound (Parsing.expression .never) Expression
    fun k => k.extendsBool = false

section

variable {bound : Nat}

theorem CompleteBelow.call_succ (ih : CompleteBelow bound) :
    AcceptsBelow (bound + 1) (Parsing.call .never) Call fun _ => True := by
  rintro _ _ hb ⟨hname, hl, hargs, hrt⟩ depth s s' hr -
  cases depth with
  | zero => exact returns_tooDeep _
  | succ depth =>
    simp only [List.cons_append] at hr
    obtain ⟨name, s₁, rfl, rfl, h₁⟩ := hr.uncons
    obtain ⟨l, s₂, rfl, rfl, h₂⟩ := h₁.uncons
    obtain ⟨s₃, hr₃, h₃⟩ := h₂.split
    obtain ⟨rt, s₄, rfl, rfl, h₄⟩ := h₃.uncons
    obtain rfl := h₄.eq_of_nil
    rw [call_eq]
    refine (returns_eat hname).bind ((returns_eat hl).bind ?_)
    refine Returns.bind (a := (_, Stream.more rt s')) ?_ ((returns_eat hrt).bind (returns_pure _))
    unfold argumentList
    cases hargs with
    | nil =>
      obtain rfl := hr₃.eq_of_nil
      rw [if_pos (show (Stream.more rt s').kind = .rightParen from hrt)]
      exact returns_pure _
    | items h =>
      have hk : s₂.kind ≠ .rightParen := by
        obtain ⟨t, vs, rfl, ht⟩ := Separated.first_token (fun _ _ => Expression.first_token) h
        intro hk
        rw [hr₃.kind_eq] at hk
        rw [hk] at ht
        cases ht
      rw [if_neg hk]
      have hclose : (Stream.more rt s').kind = .rightParen := hrt
      simp only [List.length_append, List.length_cons] at hb
      refine returns_commaList (fun k => k.extendsBool = false) ?_ rfl h hr₃ ?_ ?_
      · exact fun us a hus ha => ih.expression us a (by omega) ha depth
      · rw [hclose]
        rfl
      · simp [hclose]

theorem CompleteBelow.factor_succ (ih : CompleteBelow bound)
    (hcall : AcceptsBelow (bound + 1) (Parsing.call .never) Call fun _ => True) :
    AcceptsBelow (bound + 1) (Parsing.factor .never) Factor (· ≠ .leftParen) := by
  intro ts n hb h depth s s' hr hs'
  cases depth with
  | zero => exact returns_tooDeep _
  | succ depth =>
    rw [factor_eq]
    cases h with
    | paren hl hn hrt =>
      obtain ⟨l, s₁, rfl, rfl, h₁⟩ := hr.uncons
      rw [if_pos (show (Stream.more l s₁).kind = .leftParen from hl)]
      simp only [List.length_append, List.length_cons] at hb
      exact returns_parenthesized hl hrt h₁ fun s₂ hr₂ hk =>
        ih.numExpr _ _ (by omega) hn depth _ _ hr₂ (by rw [hk]; rfl)
    | @sign op ts n hk hn =>
      obtain ⟨op, s₁, rfl, rfl, h₁⟩ := hr.uncons
      have hkind : (Stream.more op s₁).kind = op.token.kind := rfl
      simp only [List.length_cons] at hb
      rw [if_neg (by rw [hkind]; rcases hk with hk | hk <;> simp [hk]),
        if_pos (by rwa [hkind]), bind_assoc]
      refine (returns_advance op s₁).bind ?_
      exact (ih.factor ts n (by omega) hn depth s₁ s' h₁ hs').bind (returns_pure _)
    | float hk =>
      obtain ⟨t, s₁, rfl, rfl, h₁⟩ := hr.uncons
      obtain rfl := h₁.eq_of_nil
      have hkind : (Stream.more t s').kind = .floatLiteral := hk
      simp only [hkind, reduceCtorEq, or_self, if_false, if_true]
      exact (returns_advance t s').bind (returns_pure _)
    | int hk =>
      obtain ⟨t, s₁, rfl, rfl, h₁⟩ := hr.uncons
      obtain rfl := h₁.eq_of_nil
      have hkind : (Stream.more t s').kind = .intLiteral := hk
      simp only [hkind, reduceCtorEq, or_self, if_false, if_true]
      exact (returns_advance t s').bind (returns_pure _)
    | call h =>
      have hcall := hcall ts n hb h depth s s' hr trivial
      cases h with
      | mk hname hl =>
        simp only [List.cons_append] at hr
        obtain ⟨name, s₁, rfl, rfl, h₁⟩ := hr.uncons
        obtain ⟨l, s₂, rfl, rfl, h₂⟩ := h₁.uncons
        have hkind : (Stream.more name (.more l s₂)).kind = .identifier := hname
        simp only [hkind, reduceCtorEq, or_self, if_false, if_true]
        refine (returns_advance name _).bind ?_
        rwa [if_pos (show (Stream.more l s₂).kind = .leftParen from hl)]
    | var hk =>
      obtain ⟨t, s₁, rfl, rfl, h₁⟩ := hr.uncons
      obtain rfl := h₁.eq_of_nil
      have hkind : (Stream.more t s').kind = .identifier := hk
      simp only [hkind, reduceCtorEq, or_self, if_false, if_true]
      refine (returns_advance t s').bind ?_
      rw [if_neg hs']
      exact (returns_eat hk).bind (returns_pure _)

theorem CompleteBelow.numExpr_succ
    (hfactor : AcceptsBelow (bound + 1) (Parsing.factor .never) Factor (· ≠ .leftParen)) :
    AcceptsBelow (bound + 1) (Parsing.numExpr .never) NumExpr fun k => k.extendsNumber = false := by
  have hterm : AcceptsBelow (bound + 1) (Parsing.numTerm .never) NumTerm
      fun k => k ≠ .leftParen ∧ k.isMultiplicative = false := by
    intro ts n hb h depth s s' hr hs'
    cases depth with
    | zero => exact returns_tooDeep _
    | succ depth =>
      refine returns_chain (· ≠ .leftParen) (fun us m hus hm => ?_) ?_ h hr hs'.1 hs'.2
      · exact hfactor us m (by omega) hm depth
      · rintro k hk rfl
        cases hk
  intro ts n hb h depth s s' hr hs'
  cases depth with
  | zero => exact returns_tooDeep _
  | succ depth =>
    have hk : s'.kind ≠ .leftParen ∧ s'.kind.isAdditive = false ∧
        s'.kind.isMultiplicative = false := by
      simpa [Kind.extendsNumber, Kind.isArithmetic] using hs'
    refine returns_chain (fun k => k ≠ .leftParen ∧ k.isMultiplicative = false)
      (fun us m hus hm => ?_) ?_ h hr ⟨hk.1, hk.2.2⟩ hk.2.1
    · exact hterm us m (by omega) hm depth
    · intro k hk
      cases k <;> simp_all [Kind.isAdditive, Kind.isMultiplicative]

/-- Where a number stands, an operand of `&&` and `||` is read as a comparison, or as the number if
it is a variable or a call and no comparison follows. What stands in a parenthesis is either refused
as a bool, or it is such a number and the parenthesis stops before an operator or ends the number.
-/
theorem CompleteBelow.meets_boolTerm (ih : CompleteBelow bound) {ts : List Token} {n : Node}
    (hb : ts.length ≤ bound) (h : NumExpr ts n) {s s' : Stream} (hr : Reads s ts s')
    (hs' : s'.kind.extendsNumber = false) {depth : Nat} {fails : Failure → Prop}
    {post : Parsed → Prop} (hdeep : fails .tooDeep)
    (hcomp : Meets (comparison (Parsing.numExpr .never depth) s) fails post)
    (href : n.isReference = true → s'.kind.isComparison = false → post (n, s')) :
    Meets (Parsing.boolTerm .never (depth + 1) s) fails post := by
  rw [boolTerm_eq]
  obtain ⟨us, m, tail, rfl, hfactor, htail⟩ := NumExpr.first h
  obtain ⟨s₁, hr₁, hr₂⟩ := hr.split
  obtain ⟨t, vs, rfl, ht⟩ := Factor.first_token hfactor
  have hk : s.kind = t.kind := hr₁.kind_eq
  by_cases hparen : s.kind = .leftParen
  · rw [if_pos hparen]
    rw [hk] at hparen
    cases hfactor with
    | paren hl hm hrt =>
      obtain ⟨l, s₀, rfl, rfl, h₀⟩ := hr₁.uncons
      simp only [List.length_append, List.append_eq, List.length_cons] at hb
      by_cases hmref : m.isReference = true
      · have hinner : Returns (parenthesized (Parsing.boolExpr .never depth) (.more l s₀))
            (m, s₁) := returns_parenthesized hl hrt h₀ fun s₂ hr₂ hk₂ =>
          ih.boolExpr _ m (by omega) (.single (BoolTerm.of_reference hm hmref)) depth _ _ hr₂
            (by rw [hk₂]; rfl)
        rcases htail with ⟨rfl, rfl⟩ | ⟨op, rest, rfl, hop, -⟩
        · obtain rfl := hr₂.eq_of_nil
          by_cases hc : s'.kind.isComparison = true
          · exact meets_prefer_refused hinner (by simp [hc]) hdeep hcomp
          · have hc : s'.kind.isComparison = false := by simpa using hc
            have harith : s'.kind.isArithmetic = false := by
              simp only [Kind.extendsNumber, Bool.or_eq_false_iff] at hs'
              exact hs'.2
            refine (returns_prefer_first hinner (by simp [hc, harith])).imp ?_ ?_
            · rintro e rfl
              exact hdeep
            · rintro r rfl
              exact href hmref hc
        · have hk₁ : s₁.kind = op.kind := hr₂.kind_eq
          exact meets_prefer_refused hinner (by simp [hk₁, hop]) hdeep hcomp
      · have hmref : m.isReference = false := by simpa using hmref
        obtain ⟨s₂, hr₂', h₂⟩ := h₀.split
        obtain ⟨rt, s₃, rfl, rfl, h₃⟩ := h₂.uncons
        have hinner : Fails (Parsing.boolExpr .never depth s₀) := by
          cases depth with
          | zero => exact fails_tooDeep
          | succ depth =>
            refine fails_chain (ih.refuses _ m (by omega) hm hmref depth s₀ _ hr₂' ?_)
            rw [show (Stream.more rt s₃).kind = .rightParen from hrt]
            rfl
        exact meets_prefer_failed (fails_parenthesized hl hinner) hdeep hcomp
    | sign hop => rcases hop with hop | hop <;> simp [hop] at hparen
    | float hlit => simp [hlit] at hparen
    | int hlit => simp [hlit] at hparen
    | call hcall =>
      cases hcall with
      | mk hname => simp [hname] at hparen
    | var hname => simp [hname] at hparen
  · rw [if_neg hparen, if_neg, if_neg]
    · exact hcomp
    · rw [hk]
      rintro (h | h) <;> simp [h, Kind.startsNumber] at ht
    · rw [hk]
      intro h
      simp [h, Kind.startsNumber] at ht

theorem extendsNumber_of_extendsTerm {k : Kind} (h : k.extendsTerm = false) :
    k.extendsNumber = false ∧ k.isComparison = false := by
  simpa only [Kind.extendsTerm, Bool.or_eq_false_iff] using h

theorem meets_comparison_single {number : Stream → Parsing Parsed} {n : Node} {s s' : Stream}
    (h : Returns (number s) (n, s')) (hk : s'.kind.isComparison = false)
    {fails : Failure → Prop} {post : Parsed → Prop} (hdeep : fails .tooDeep)
    (hrest : Meets (if n.isReference = true then pure (n, s') else refuse s') fails post) :
    Meets (comparison number s) fails post := by
  unfold comparison
  refine h.meets_bind hdeep ?_
  simp only [hk, Bool.false_eq_true, if_false]
  exact hrest

theorem CompleteBelow.refuses_succ (ih : CompleteBelow bound)
    (hnum : AcceptsBelow (bound + 1) (Parsing.numExpr .never) NumExpr
      fun k => k.extendsNumber = false) :
    ∀ ts n, ts.length < bound + 1 → NumExpr ts n → n.isReference = false →
      ∀ depth s s', Reads s ts s' → s'.kind.extendsTerm = false →
        Fails (Parsing.boolTerm .never depth s) := by
  intro ts n hb h hn depth s s' hr hs'
  obtain ⟨hext, hcmp⟩ := extendsNumber_of_extendsTerm hs'
  cases depth with
  | zero => exact fails_tooDeep
  | succ depth =>
    refine ih.meets_boolTerm (by omega) h hr hext (.inl rfl) ?_ (by simp [hn])
    refine meets_comparison_single (hnum ts n hb h depth s s' hr hext) hcmp (.inl rfl) ?_
    rw [if_neg (by simp [hn])]
    exact meets_throw (.inr ⟨_, rfl⟩)

theorem CompleteBelow.boolTerm_succ (ih : CompleteBelow bound)
    (hnum : AcceptsBelow (bound + 1) (Parsing.numExpr .never) NumExpr
      fun k => k.extendsNumber = false) :
    AcceptsBelow (bound + 1) (Parsing.boolTerm .never) BoolTerm
      fun k => k.extendsTerm = false := by
  have hsingle : ∀ ts n, ts.length < bound + 1 → NumExpr ts n → n.isReference = true →
      ∀ depth s s', Reads s ts s' → s'.kind.extendsTerm = false →
        Returns (Parsing.boolTerm .never (depth + 1) s) (n, s') := by
    intro ts n hb h hn depth s s' hr hs'
    obtain ⟨hext, hcmp⟩ := extendsNumber_of_extendsTerm hs'
    refine ih.meets_boolTerm (by omega) h hr hext rfl ?_ fun _ _ => rfl
    refine meets_comparison_single (hnum ts n hb h depth s s' hr hext) hcmp rfl ?_
    rw [if_pos hn]
    exact returns_pure _
  intro ts n hb h depth s s' hr hs'
  cases depth with
  | zero => exact returns_tooDeep _
  | succ depth =>
    cases h with
    | paren hl hn hrt =>
      obtain ⟨l, s₁, rfl, rfl, h₁⟩ := hr.uncons
      obtain ⟨hext, hcmp⟩ := extendsNumber_of_extendsTerm hs'
      simp only [Kind.extendsNumber, Bool.or_eq_false_iff] at hext
      simp only [List.length_append, List.length_cons] at hb
      rw [boolTerm_eq, if_pos (show (Stream.more l s₁).kind = .leftParen from hl)]
      refine returns_prefer_first ?_ (by simp [hext.2, hcmp])
      exact returns_parenthesized hl hrt h₁ fun s₂ hr₂ hk =>
        ih.boolExpr _ _ (by omega) hn depth _ _ hr₂ (by rw [hk]; rfl)
    | @not op ts n hk hn =>
      obtain ⟨op, s₁, rfl, rfl, h₁⟩ := hr.uncons
      have hkind : (Stream.more op s₁).kind = .bang := hk
      simp only [List.length_cons] at hb
      rw [boolTerm_eq, if_neg (by simp [hkind]), if_pos hkind, bind_assoc]
      refine (returns_advance op s₁).bind ?_
      exact (ih.boolTerm ts n (by omega) hn depth s₁ s' h₁ hs').bind (returns_pure _)
    | truth hk =>
      obtain ⟨t, s₁, rfl, rfl, h₁⟩ := hr.uncons
      obtain rfl := h₁.eq_of_nil
      have hkind : (Stream.more t s').kind = t.token.kind := rfl
      rw [boolTerm_eq, if_neg (by rw [hkind]; rcases hk with hk | hk <;> simp [hk]),
        if_neg (by rw [hkind]; rcases hk with hk | hk <;> simp [hk]), if_pos (by rwa [hkind])]
      exact (returns_advance t s').bind (returns_pure _)
    | @comparison ts us op left right hleft hop hright =>
      obtain ⟨s₁, hr₁, h₁⟩ := hr.split
      obtain ⟨op, s₂, rfl, rfl, h₂⟩ := h₁.uncons
      have hkind : (Stream.more op s₂).kind = op.token.kind := rfl
      have hext : (Stream.more op s₂).kind.extendsNumber = false := by
        rw [hkind]
        generalize op.token.kind = k at hop
        cases k <;> simp_all [Kind.isComparison, Kind.extendsNumber, Kind.isArithmetic,
          Kind.isAdditive, Kind.isMultiplicative]
      simp only [List.length_append, List.length_cons] at hb
      refine ih.meets_boolTerm (by omega) hleft hr₁ hext rfl ?_ (by simp [hkind, hop])
      unfold comparison
      refine (hnum ts left (by omega) hleft depth s _ hr₁ hext).bind ?_
      simp only [hkind, hop, if_true]
      refine (returns_advance op s₂).bind ?_
      exact (hnum us right (by omega) hright depth s₂ s' h₂
        (extendsNumber_of_extendsTerm hs').1).bind (returns_pure _)
    | var h => exact hsingle ts _ hb h rfl depth s s' hr hs'
    | call h => exact hsingle ts _ hb h rfl depth s s' hr hs'

theorem extendsTerm_of_extendsBool {k : Kind} (h : k.extendsBool = false) :
    k.extendsTerm = false ∧ k.isConnective = false := by
  simpa only [Kind.extendsBool, Bool.or_eq_false_iff] using h

theorem CompleteBelow.boolExpr_succ
    (hterm : AcceptsBelow (bound + 1) (Parsing.boolTerm .never) BoolTerm
      fun k => k.extendsTerm = false) :
    AcceptsBelow (bound + 1) (Parsing.boolExpr .never) BoolExpr
      fun k => k.extendsBool = false := by
  intro ts n hb h depth s s' hr hs'
  cases depth with
  | zero => exact returns_tooDeep _
  | succ depth =>
    obtain ⟨hext, hcon⟩ := extendsTerm_of_extendsBool hs'
    refine returns_chain (fun k => k.extendsTerm = false) (fun us m hus hm => ?_) ?_ h hr hext hcon
    · exact hterm us m (by omega) hm depth
    · intro k hk
      cases k <;> simp_all [Kind.isConnective, Kind.extendsTerm, Kind.extendsNumber,
        Kind.isArithmetic, Kind.isAdditive, Kind.isMultiplicative, Kind.isComparison]

theorem CompleteBelow.expression_succ
    (hnum : AcceptsBelow (bound + 1) (Parsing.numExpr .never) NumExpr
      fun k => k.extendsNumber = false)
    (hrefuse : ∀ ts n, ts.length < bound + 1 → NumExpr ts n → n.isReference = false →
      ∀ depth s s', Reads s ts s' → s'.kind.extendsTerm = false →
        Fails (Parsing.boolTerm .never depth s))
    (hbool : AcceptsBelow (bound + 1) (Parsing.boolExpr .never) BoolExpr
      fun k => k.extendsBool = false) :
    AcceptsBelow (bound + 1) (Parsing.expression .never) Expression
      fun k => k.extendsBool = false := by
  intro ts n hb h depth s s' hr hs'
  cases depth with
  | zero => exact returns_tooDeep _
  | succ depth =>
    obtain ⟨hterm, -⟩ := extendsTerm_of_extendsBool hs'
    obtain ⟨hext, -⟩ := extendsNumber_of_extendsTerm hterm
    have harith : s'.kind.isArithmetic = false := by
      simp only [Kind.extendsNumber, Bool.or_eq_false_iff] at hext
      exact hext.2
    unfold Parsing.expression
    cases h with
    | bool h => exact returns_prefer_first (hbool ts n hb h depth s s' hr hs') harith
    | number h =>
      by_cases hn : n.isReference = true
      · have h : BoolExpr ts n := .single (BoolTerm.of_reference h hn)
        exact returns_prefer_first (hbool ts n hb h depth s s' hr hs') harith
      · have hn : n.isReference = false := by simpa using hn
        refine meets_prefer_failed ?_ rfl (hnum ts n hb h depth s s' hr hext)
        cases depth with
        | zero => exact fails_tooDeep
        | succ depth => exact fails_chain (hrefuse ts n hb h hn depth s s' hr hterm)

end

theorem completeBelow (bound : Nat) : CompleteBelow bound := by
  induction bound with
  | zero =>
    have h {rule : Nat → Stream → Parsing Parsed} {Symbol : List Token → Node → Prop}
        {follow : Kind → Prop} : AcceptsBelow 0 rule Symbol follow := fun ts _ hb => by omega
    exact ⟨h, h, h, h, fun ts _ hb => by omega, h, h⟩
  | succ bound ih =>
    have hfactor := ih.factor_succ ih.call_succ
    have hnum := CompleteBelow.numExpr_succ hfactor
    have hterm := ih.boolTerm_succ hnum
    have hrefuse := ih.refuses_succ hnum
    have hbool := CompleteBelow.boolExpr_succ hterm
    exact ⟨ih.call_succ, hfactor, hnum, hterm, hrefuse, hbool,
      CompleteBelow.expression_succ hnum hrefuse hbool⟩

end Parsing

end LittleLang
