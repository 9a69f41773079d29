import LittleLang.Node

/-!
# The grammar

The syntax of the language as a grammar over tokens, apart from any way to parse it. `Expression ts
n` says that the tokens `ts` are an expression with the tree `n`, and so on for the other symbols; a
`Program` includes the end-of-input token. Operators of one level group to the left (`Chain`).

Three rules look beyond their own tokens. An expression on its own needs no semicolon before the end
of a block or of the text, so a list of statements is given the kind of the token after it. The
statements between two function declarations are one list. What follows a return in a list must be
derivable, but is no part of the tree (`Reached`).
-/

namespace LittleLang

/-! ## What can start a part of a program -/

def Kind.startsNumber : Kind → Bool
  | .leftParen | .plus | .minus | .floatLiteral | .intLiteral | .identifier => true
  | _ => false

def Kind.startsOperand (k : Kind) : Bool :=
  k.startsNumber || k.isTruth || k = .bang

def Kind.startsStatement (k : Kind) : Bool :=
  k = .identifier || k.isType || k = .kwReturn || k = .kwIf || k.startsExpression

namespace Grammar

/-! ## Repetition -/

/-- Operands with operators between them, grouped to the left. -/
inductive Chain (isOperator : Kind → Bool) (Operand : List Token → Node → Prop) :
    List Token → Node → Prop where
  | single {ts : List Token} {n : Node} : Operand ts n → Chain isOperator Operand ts n
  | snoc {ts us : List Token} {op : Token} {left right : Node} :
      Chain isOperator Operand ts left → isOperator op.kind = true → Operand us right →
      Chain isOperator Operand (ts ++ op :: us) (.binary op left right)

/-- One item or more, with commas between them. -/
inductive Separated {α : Type} (Item : List Token → α → Prop) : List Token → List α → Prop where
  | single {ts : List Token} {a : α} : Item ts a → Separated Item ts [a]
  | cons {ts us : List Token} {comma : Token} {a : α} {as : List α} :
      Item ts a → comma.kind = .comma → Separated Item us as →
      Separated Item (ts ++ comma :: us) (a :: as)

inductive Listed {α : Type} (Item : List Token → α → Prop) : List Token → List α → Prop where
  | nil : Listed Item [] []
  | items {ts : List Token} {as : List α} : Separated Item ts as → Listed Item ts as

/-! ## Expressions -/

mutual

/-- An expression: of bools or of numbers. -/
inductive Expression : List Token → Node → Prop where
  | bool {ts : List Token} {n : Node} : Chain Kind.isConnective BoolTerm ts n → Expression ts n
  | number {ts : List Token} {n : Node} :
      Chain Kind.isAdditive (Chain Kind.isMultiplicative Factor) ts n → Expression ts n

/-- An operand of `&&` and `||`. A number on its own is none, unless it is a variable or a call. -/
inductive BoolTerm : List Token → Node → Prop where
  | paren {l r : Token} {ts : List Token} {n : Node} :
      l.kind = .leftParen → Chain Kind.isConnective BoolTerm ts n → r.kind = .rightParen →
      BoolTerm (l :: ts ++ [r]) n
  | not {op : Token} {ts : List Token} {n : Node} :
      op.kind = .bang → BoolTerm ts n → BoolTerm (op :: ts) (.unary op n)
  | truth {t : Token} : t.kind = .kwTrue ∨ t.kind = .kwFalse → BoolTerm [t] (.boolLiteral t)
  | comparison {ts us : List Token} {op : Token} {left right : Node} :
      Chain Kind.isAdditive (Chain Kind.isMultiplicative Factor) ts left →
      op.kind.isComparison = true →
      Chain Kind.isAdditive (Chain Kind.isMultiplicative Factor) us right →
      BoolTerm (ts ++ op :: us) (.binary op left right)
  | var {ts : List Token} {name : Token} :
      Chain Kind.isAdditive (Chain Kind.isMultiplicative Factor) ts (.var name) →
      BoolTerm ts (.var name)
  | call {ts : List Token} {name : Token} {arguments : List Node} :
      Chain Kind.isAdditive (Chain Kind.isMultiplicative Factor) ts (.call name arguments) →
      BoolTerm ts (.call name arguments)

/-- An operand of `*` and `/`. -/
inductive Factor : List Token → Node → Prop where
  | paren {l r : Token} {ts : List Token} {n : Node} :
      l.kind = .leftParen → Chain Kind.isAdditive (Chain Kind.isMultiplicative Factor) ts n →
      r.kind = .rightParen → Factor (l :: ts ++ [r]) n
  | sign {op : Token} {ts : List Token} {n : Node} :
      op.kind = .plus ∨ op.kind = .minus → Factor ts n → Factor (op :: ts) (.unary op n)
  | float {t : Token} : t.kind = .floatLiteral → Factor [t] (.floatLiteral t)
  | int {t : Token} : t.kind = .intLiteral → Factor [t] (.intLiteral t)
  | call {ts : List Token} {n : Node} : Call ts n → Factor ts n
  | var {name : Token} : name.kind = .identifier → Factor [name] (.var name)

inductive Call : List Token → Node → Prop where
  | mk {name l r : Token} {ts : List Token} {arguments : List Node} :
      name.kind = .identifier → l.kind = .leftParen → Listed Expression ts arguments →
      r.kind = .rightParen → Call (name :: l :: ts ++ [r]) (.call name arguments)

end

abbrev BoolExpr : List Token → Node → Prop := Chain Kind.isConnective BoolTerm

/-- An operand of `+` and `-`. -/
abbrev NumTerm : List Token → Node → Prop := Chain Kind.isMultiplicative Factor

abbrev NumExpr : List Token → Node → Prop := Chain Kind.isAdditive NumTerm

theorem Chain.ne_nil {isOperator : Kind → Bool} {Operand : List Token → Node → Prop}
    {ts : List Token} {n : Node} (hop : ∀ us m, Operand us m → us ≠ [])
    (h : Chain isOperator Operand ts n) : ts ≠ [] := by
  cases h with
  | single h => exact hop _ _ h
  | snoc => simp

theorem Factor.ne_nil {ts : List Token} {n : Node} (h : Factor ts n) : ts ≠ [] := by
  cases h with
  | call h => cases h; simp
  | _ => simp

theorem NumTerm.ne_nil {ts : List Token} {n : Node} (h : NumTerm ts n) : ts ≠ [] :=
  Chain.ne_nil (fun _ _ => Factor.ne_nil) h

theorem NumExpr.ne_nil {ts : List Token} {n : Node} (h : NumExpr ts n) : ts ≠ [] :=
  Chain.ne_nil (fun _ _ => NumTerm.ne_nil) h

theorem BoolTerm.ne_nil {ts : List Token} {n : Node} (h : BoolTerm ts n) : ts ≠ [] := by
  cases h with
  | var h => exact NumExpr.ne_nil h
  | call h => exact NumExpr.ne_nil h
  | _ => simp

theorem BoolExpr.ne_nil {ts : List Token} {n : Node} (h : BoolExpr ts n) : ts ≠ [] :=
  Chain.ne_nil (fun _ _ => BoolTerm.ne_nil) h

theorem Expression.ne_nil {ts : List Token} {n : Node} (h : Expression ts n) : ts ≠ [] := by
  cases h with
  | bool h => exact BoolExpr.ne_nil h
  | number h => exact NumExpr.ne_nil h

/-! ## Statements -/

/-- An assignment, with or without a type, without its semicolon. -/
inductive Assignment : List Token → Node → Prop where
  | plain {target op : Token} {ts : List Token} {value : Node} :
      target.kind = .identifier → op.kind = .assign → Expression ts value →
      Assignment (target :: op :: ts) (.assign none target op value)
  | typed {type target op : Token} {ts : List Token} {value : Node} :
      type.kind.isType = true → target.kind = .identifier → op.kind = .assign →
      Expression ts value →
      Assignment (type :: target :: op :: ts) (.assign (some type) target op value)

/-- An expression that stands as a statement, without its semicolon: it starts with a literal, a
parenthesis, a sign or `!`. -/
inductive Standing : List Token → Node → Prop where
  | mk {first : Token} {ts : List Token} {n : Node} :
      first.kind ∈ [.intLiteral, .floatLiteral, .kwTrue, .kwFalse, .leftParen, .plus, .minus,
        .bang] →
      Expression (first :: ts) n → Standing (first :: ts) n

theorem Standing.ne_nil {ts : List Token} {n : Node} (h : Standing ts n) : ts ≠ [] := by
  cases h
  simp

/-- What a list of statements leaves in the tree: all of them if none is a return, and otherwise
those up to the first return. -/
inductive Reached : List Node → List Node → Prop where
  | all {nodes : List Node} : (∀ n ∈ nodes, ∀ v, n ≠ .ret v) → Reached nodes nodes
  | upTo {before after : List Node} {value : Node} :
      (∀ n ∈ before, ∀ v, n ≠ .ret v) →
      Reached (before ++ .ret value :: after) (before ++ [.ret value])

theorem isReturn_eq_false {n : Node} (h : ∀ v, n ≠ .ret v) : n.isReturn = false := by
  cases n with
  | ret v => exact absurd rfl (h v)
  | _ => rfl

/-- Before the first return nothing is left out. -/
theorem throughReturn_append {before : List Node} (h : ∀ n ∈ before, ∀ v, n ≠ .ret v)
    (after : List Node) :
    Node.throughReturn (before ++ after) = before ++ Node.throughReturn after := by
  induction before with
  | nil => rfl
  | cons n before ih =>
    have hn := isReturn_eq_false (h n (by simp))
    simp [Node.throughReturn, hn, ih fun m hm => h m (by simp [hm])]

theorem Reached.eq_throughReturn {nodes reached : List Node} (h : Reached nodes reached) :
    reached = Node.throughReturn nodes := by
  cases h with
  | all h => simpa [Node.throughReturn] using (throughReturn_append h []).symm
  | upTo h => simp [throughReturn_append h, Node.throughReturn, Node.isReturn]

theorem reached_throughReturn (nodes : List Node) : Reached nodes (Node.throughReturn nodes) := by
  -- The nodes are split at the first return, if there is one.
  have h : (∀ n ∈ nodes, ∀ v, n ≠ .ret v) ∨ ∃ before value after,
      nodes = before ++ .ret value :: after ∧ ∀ n ∈ before, ∀ v, n ≠ .ret v := by
    induction nodes with
    | nil => exact .inl (by simp)
    | cons n nodes ih =>
      by_cases hn : ∃ v, n = .ret v
      · obtain ⟨v, rfl⟩ := hn
        exact .inr ⟨[], v, nodes, rfl, by simp⟩
      · have hn : ∀ v, n ≠ .ret v := fun v h => hn ⟨v, h⟩
        rcases ih with h | ⟨before, value, after, rfl, h⟩
        · exact .inl (by simpa [hn] using h)
        · exact .inr ⟨n :: before, value, after, rfl, by simpa [hn] using h⟩
  rcases h with h | ⟨before, value, after, rfl, h⟩
  · have := Reached.all h
    rwa [← this.eq_throughReturn]
  · have : Reached (before ++ .ret value :: after) _ := .upTo h
    rwa [← this.eq_throughReturn]

mutual

inductive Statement : List Token → Node → Prop where
  | assignment {ts : List Token} {semicolon : Token} {n : Node} :
      Assignment ts n → semicolon.kind = .semicolon → Statement (ts ++ [semicolon]) n
  | call {ts : List Token} {semicolon : Token} {n : Node} :
      Call ts n → semicolon.kind = .semicolon → Statement (ts ++ [semicolon]) n
  | ret {keyword semicolon : Token} {ts : List Token} {value : Node} :
      keyword.kind = .kwReturn → Expression ts value → semicolon.kind = .semicolon →
      Statement (keyword :: ts ++ [semicolon]) (.ret value)
  | standing {ts : List Token} {semicolon : Token} {n : Node} :
      Standing ts n → semicolon.kind = .semicolon → Statement (ts ++ [semicolon]) n
  | branch {keyword : Token} {ts us : List Token} {condition whenTrue : Node} :
      keyword.kind = .kwIf → BoolExpr ts condition → Block us whenTrue →
      Statement (keyword :: ts ++ us) (.branch (some keyword) condition whenTrue .noOp)
  | branches {keyword other : Token} {ts us vs : List Token}
      {condition whenTrue whenFalse : Node} :
      keyword.kind = .kwIf → BoolExpr ts condition → Block us whenTrue → other.kind = .kwElse →
      Block vs whenFalse →
      Statement (keyword :: ts ++ us ++ other :: vs)
        (.branch (some keyword) condition whenTrue whenFalse)

/-- Statements between braces. The empty statement is the content of an empty block. -/
inductive Block : List Token → Node → Prop where
  | empty {l r : Token} :
      l.kind = .leftBrace → r.kind = .rightBrace → Block [l, r] (.compound [.noOp])
  | statements {l r : Token} {ts : List Token} {nodes reached : List Node} :
      l.kind = .leftBrace → Statements .rightBrace ts nodes → Reached nodes reached →
      r.kind = .rightBrace → Block (l :: ts ++ [r]) (.compound reached)

/-- One statement or more before a token of the given kind. -/
inductive Statements : Kind → List Token → List Node → Prop where
  | single {next : Kind} {ts : List Token} {n : Node} :
      Statement ts n → Statements next ts [n]
  | standing {next : Kind} {ts : List Token} {n : Node} :
      next = .rightBrace ∨ next = .endOfInput → Standing ts n → Statements next ts [n]
  | cons {next : Kind} {ts us : List Token} {n : Node} {nodes : List Node} :
      Statement ts n → Statements next us nodes → Statements next (ts ++ us) (n :: nodes)

end

theorem Statement.ne_nil {ts : List Token} {n : Node} (h : Statement ts n) : ts ≠ [] := by
  cases h <;> simp

theorem Statements.ne_nil {next : Kind} {ts : List Token} {nodes : List Node}
    (h : Statements next ts nodes) : ts ≠ [] := by
  cases h with
  | single h => exact h.ne_nil
  | standing _ h => exact h.ne_nil
  | cons h _ => simp [h.ne_nil]

/-! ## Programs -/

inductive ParameterOf : List Token → Parameter → Prop where
  | mk {type name : Token} :
      type.kind.isType = true → name.kind = .identifier → ParameterOf [type, name] ⟨type, name⟩

inductive Declaration : List Token → Node → Prop where
  | mk {keyword name l r : Token} {ts us : List Token} {parameters : List Parameter}
      {body : Node} :
      keyword.kind = .kwFunc → name.kind = .identifier → l.kind = .leftParen →
      Listed ParameterOf ts parameters → r.kind = .rightParen → Block us body →
      Declaration (keyword :: name :: l :: ts ++ r :: us) (.function name parameters body)

theorem Declaration.ne_nil {ts : List Token} {n : Node} (h : Declaration ts n) : ts ≠ [] := by
  cases h
  simp

/-- The parts of a program up to the end of the text. A list of statements goes on to the next
function declaration or to the end. -/
inductive Parts : List Token → List Node → Prop where
  | finish {last : Token} : last.kind = .endOfInput → Parts [last] []
  | function {ts us : List Token} {n : Node} {nodes : List Node} :
      Declaration ts n → Parts us nodes → Parts (ts ++ us) (n :: nodes)
  | statements {ts us : List Token} {next : Token} {nodes reached parts : List Node} :
      Statements next.kind ts nodes → Reached nodes reached →
      next.kind = .kwFunc ∨ next.kind = .endOfInput → Parts (next :: us) parts →
      Parts (ts ++ next :: us) (.compound reached :: parts)

theorem Parts.ne_nil {ts : List Token} {nodes : List Node} (h : Parts ts nodes) : ts ≠ [] := by
  cases h with
  | finish => simp
  | function h => simp [h.ne_nil]
  | statements => simp

inductive Program : List Token → Node → Prop where
  | mk {ts : List Token} {parts : List Node} :
      Parts ts parts → Program ts (.program "main" (.compound parts))

/-! ## The first operand and the first token -/

/-- A chain starts with an operand, and is that operand alone or a binary node. -/
theorem Chain.first {isOperator : Kind → Bool} {Operand : List Token → Node → Prop}
    {ts : List Token} {n : Node} (h : Chain isOperator Operand ts n) :
    ∃ us m tail, ts = us ++ tail ∧ Operand us m ∧ ((tail = [] ∧ n = m) ∨
      ∃ op rest, tail = op :: rest ∧ isOperator op.kind = true ∧ n.isReference = false) := by
  induction h with
  | @single ts n h => exact ⟨ts, n, [], by simp, h, .inl ⟨rfl, rfl⟩⟩
  | @snoc ts us op left right _ hk _ ih =>
    obtain ⟨vs, m, tail, rfl, h, htail⟩ := ih
    refine ⟨vs, m, tail ++ op :: us, by simp, h, .inr ?_⟩
    rcases htail with ⟨rfl, -⟩ | ⟨op', rest, rfl, hk', -⟩
    · exact ⟨op, us, rfl, hk, rfl⟩
    · exact ⟨op', rest ++ op :: us, rfl, hk', rfl⟩

theorem NumExpr.first {ts : List Token} {n : Node} (h : NumExpr ts n) :
    ∃ us m tail, ts = us ++ tail ∧ Factor us m ∧ ((tail = [] ∧ n = m) ∨
      ∃ op rest, tail = op :: rest ∧ op.kind.isArithmetic = true ∧ n.isReference = false) := by
  obtain ⟨us, m, tail, rfl, hterm, htail⟩ := Chain.first h
  obtain ⟨vs, m', tail', rfl, hfactor, htail'⟩ := Chain.first hterm
  refine ⟨vs, m', tail' ++ tail, by simp, hfactor, ?_⟩
  rcases htail with ⟨rfl, rfl⟩ | ⟨op, rest, rfl, hk, hn⟩
  · rcases htail' with ⟨rfl, rfl⟩ | ⟨op, rest, rfl, hk, hn⟩
    · exact .inl ⟨rfl, rfl⟩
    · exact .inr ⟨op, rest, by simp, by simp [Kind.isArithmetic, hk], hn⟩
  · rcases htail' with ⟨rfl, -⟩ | ⟨op', rest', rfl, hk', -⟩
    · exact .inr ⟨op, rest, by simp, by simp [Kind.isArithmetic, hk], hn⟩
    · exact .inr ⟨op', rest' ++ op :: rest, rfl, by simp [Kind.isArithmetic, hk'], hn⟩

theorem Chain.first_token {isOperator : Kind → Bool} {Operand : List Token → Node → Prop}
    {P : Token → Prop} (hop : ∀ us m, Operand us m → ∃ t vs, us = t :: vs ∧ P t)
    {ts : List Token} {n : Node} (h : Chain isOperator Operand ts n) :
    ∃ t vs, ts = t :: vs ∧ P t := by
  obtain ⟨us, m, tail, rfl, hus, -⟩ := Chain.first h
  obtain ⟨t, vs, rfl, ht⟩ := hop us m hus
  exact ⟨t, vs ++ tail, rfl, ht⟩

theorem Factor.first_token {ts : List Token} {n : Node} (h : Factor ts n) :
    ∃ t vs, ts = t :: vs ∧ t.kind.startsNumber = true := by
  cases h with
  | paren h => exact ⟨_, _, rfl, by simp [h, Kind.startsNumber]⟩
  | sign h => exact ⟨_, _, rfl, by rcases h with h | h <;> simp [h, Kind.startsNumber]⟩
  | float h => exact ⟨_, _, rfl, by simp [h, Kind.startsNumber]⟩
  | int h => exact ⟨_, _, rfl, by simp [h, Kind.startsNumber]⟩
  | call h =>
    cases h with
    | mk h => exact ⟨_, _, rfl, by simp [h, Kind.startsNumber]⟩
  | var h => exact ⟨_, _, rfl, by simp [h, Kind.startsNumber]⟩

theorem NumExpr.first_token {ts : List Token} {n : Node} (h : NumExpr ts n) :
    ∃ t vs, ts = t :: vs ∧ t.kind.startsNumber = true :=
  Chain.first_token (P := fun t => t.kind.startsNumber = true)
    (fun _ _ h => Chain.first_token (fun _ _ => Factor.first_token) h) h

theorem NumExpr.first_operand {ts : List Token} {n : Node} (h : NumExpr ts n) :
    ∃ t vs, ts = t :: vs ∧ t.kind.startsOperand = true := by
  obtain ⟨t, vs, rfl, ht⟩ := NumExpr.first_token h
  exact ⟨t, vs, rfl, by simp [Kind.startsOperand, ht]⟩

theorem BoolTerm.first_token {ts : List Token} {n : Node} (h : BoolTerm ts n) :
    ∃ t vs, ts = t :: vs ∧ t.kind.startsOperand = true := by
  cases h with
  | paren h => exact ⟨_, _, rfl, by simp [h, Kind.startsOperand, Kind.startsNumber]⟩
  | not h => exact ⟨_, _, rfl, by simp [h, Kind.startsOperand]⟩
  | truth h =>
    exact ⟨_, _, rfl, by rcases h with h | h <;> simp [h, Kind.startsOperand, Kind.isTruth]⟩
  | comparison h =>
    obtain ⟨t, vs, rfl, ht⟩ := NumExpr.first_operand h
    exact ⟨t, _, rfl, ht⟩
  | var h => exact NumExpr.first_operand h
  | call h => exact NumExpr.first_operand h

theorem Expression.first_token {ts : List Token} {n : Node} (h : Expression ts n) :
    ∃ t vs, ts = t :: vs ∧ t.kind.startsOperand = true := by
  cases h with
  | bool h => exact Chain.first_token (fun _ _ => BoolTerm.first_token) h
  | number h => exact NumExpr.first_operand h

theorem Separated.first_token {α : Type} {Item : List Token → α → Prop} {P : Token → Prop}
    (hitem : ∀ us a, Item us a → ∃ t vs, us = t :: vs ∧ P t) {ts : List Token} {as : List α}
    (h : Separated Item ts as) : ∃ t vs, ts = t :: vs ∧ P t := by
  cases h with
  | single h => exact hitem _ _ h
  | cons h =>
    obtain ⟨t, vs, rfl, ht⟩ := hitem _ _ h
    exact ⟨t, _, rfl, ht⟩

/-- A variable or a call is an operand of `&&` and `||`. -/
theorem BoolTerm.of_reference {ts : List Token} {n : Node} (h : NumExpr ts n)
    (hn : n.isReference = true) : BoolTerm ts n := by
  cases n with
  | var => exact .var h
  | call => exact .call h
  | _ => cases hn

theorem Standing.first_kind {ts : List Token} {n : Node} (h : Standing ts n) :
    ∃ t vs, ts = t :: vs ∧ t.kind.startsExpression = true := by
  cases h with
  | @mk first ts n hk =>
    refine ⟨first, ts, rfl, ?_⟩
    generalize first.kind = k at hk
    cases k <;> simp_all [Kind.startsExpression]

theorem Statement.first_token {ts : List Token} {n : Node} (h : Statement ts n) :
    ∃ t vs, ts = t :: vs ∧ t.kind.startsStatement = true := by
  cases h with
  | assignment h =>
    cases h with
    | plain h => exact ⟨_, _, rfl, by simp [Kind.startsStatement, h]⟩
    | typed h => exact ⟨_, _, rfl, by simp [Kind.startsStatement, h]⟩
  | call h =>
    cases h with
    | mk h => exact ⟨_, _, rfl, by simp [Kind.startsStatement, h]⟩
  | ret h => exact ⟨_, _, rfl, by simp [Kind.startsStatement, h]⟩
  | standing h =>
    obtain ⟨t, vs, rfl, ht⟩ := Standing.first_kind h
    exact ⟨t, _, rfl, by simp [Kind.startsStatement, ht]⟩
  | branch h => exact ⟨_, _, rfl, by simp [Kind.startsStatement, h]⟩
  | branches h => exact ⟨_, _, rfl, by simp [Kind.startsStatement, h]⟩

theorem Statements.first_token {next : Kind} {ts : List Token} {nodes : List Node}
    (h : Statements next ts nodes) : ∃ t vs, ts = t :: vs ∧ t.kind.startsStatement = true := by
  cases h with
  | single h => exact Statement.first_token h
  | standing _ h =>
    obtain ⟨t, vs, rfl, ht⟩ := Standing.first_kind h
    exact ⟨t, vs, rfl, by simp [Kind.startsStatement, ht]⟩
  | cons h =>
    obtain ⟨t, vs, rfl, ht⟩ := Statement.first_token h
    exact ⟨t, _, rfl, ht⟩

end Grammar

end LittleLang
