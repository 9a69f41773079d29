import LittleLang.Proofs.Grammar

/-!
# The forms of derivable trees

`IsExpression`, `IsStatement` and `IsPart` say what the trees of the grammar look like without a
look at the tokens that they were derived from: which forms stand where, and of which kinds their
tokens are. They are told of tokens with a property. With membership in the derived tokens for it,
they say that a tree holds no token from elsewhere (`isPart_of_parts`); with how the tokens of a
text are spelled, that its literals can be read.

A statement declares no function: declarations are parts of the program.
-/

open LittleLang.Grammar

namespace LittleLang

namespace Kind

def isUnary (k : Kind) : Bool :=
  k.isAdditive || k = bang

def isBinary (k : Kind) : Bool :=
  k.isArithmetic || k.isComparison || k.isConnective

end Kind

namespace Node

/-- An expression, whose tokens have a property. -/
inductive IsExpression (P : Token → Prop) : Node → Prop where
  | int {t : Token} : P t → t.kind = .intLiteral → IsExpression P (.intLiteral t)
  | float {t : Token} : P t → t.kind = .floatLiteral → IsExpression P (.floatLiteral t)
  | bool {t : Token} : P t → t.kind = .kwTrue ∨ t.kind = .kwFalse → IsExpression P (.boolLiteral t)
  | var {name : Token} : P name → IsExpression P (.var name)
  | unary {op : Token} {operand : Node} : P op → op.kind.isUnary = true →
      IsExpression P operand → IsExpression P (.unary op operand)
  | binary {op : Token} {left right : Node} : P op → op.kind.isBinary = true →
      IsExpression P left → IsExpression P right → IsExpression P (.binary op left right)
  | call {name : Token} {arguments : List Node} : P name →
      (∀ a ∈ arguments, IsExpression P a) → IsExpression P (.call name arguments)

inductive IsStatement (P : Token → Prop) : Node → Prop where
  | compound {children : List Node} :
      (∀ n ∈ children, IsStatement P n) → IsStatement P (.compound children)
  | noOp : IsStatement P .noOp
  | assign {type : Option Token} {target op : Token} {value : Node} :
      (∀ t ∈ type, P t ∧ t.kind.isType = true) → P target → P op → IsExpression P value →
      IsStatement P (.assign type target op value)
  | branch {keyword : Token} {condition whenTrue whenFalse : Node} : P keyword →
      IsExpression P condition → IsStatement P whenTrue → IsStatement P whenFalse →
      IsStatement P (.branch (some keyword) condition whenTrue whenFalse)
  | ret {value : Node} : IsExpression P value → IsStatement P (.ret value)
  | expression {n : Node} : IsExpression P n → IsStatement P n

/-- A part of a program, whose tokens have a property: a declaration, or statements. -/
inductive IsPart (P : Token → Prop) : Node → Prop where
  | function {name : Token} {parameters : List Parameter} {body : Node} : P name →
      (∀ p ∈ parameters, P p.type ∧ p.type.kind.isType = true ∧ P p.name) → IsStatement P body →
      IsPart P (.function name parameters body)
  | statements {n : Node} : IsStatement P n → IsPart P n

mutual

/-- All nodes of a tree, each before what it is made of. -/
def nodes : Node → List Node
  | program name block => program name block :: block.nodes
  | compound children => compound children :: nodesOf children
  | unary op operand => unary op operand :: operand.nodes
  | binary op left right => binary op left right :: (left.nodes ++ right.nodes)
  | assign type target op value => assign type target op value :: value.nodes
  | branch keyword condition whenTrue whenFalse =>
    branch keyword condition whenTrue whenFalse ::
      (condition.nodes ++ (whenTrue.nodes ++ whenFalse.nodes))
  | ret value => ret value :: value.nodes
  | function name parameters body => function name parameters body :: body.nodes
  | call name arguments => call name arguments :: nodesOf arguments
  | node => [node]

def nodesOf : List Node → List Node
  | [] => []
  | node :: rest => node.nodes ++ nodesOf rest

end

variable {P Q : Token → Prop} {n : Node}

theorem mem_nodesOf {ns : List Node} : n ∈ nodesOf ns ↔ ∃ m ∈ ns, n ∈ m.nodes := by
  induction ns with
  | nil => simp [nodesOf]
  | cons m ns ih => simp [nodesOf, ih]

/-- The first node is one that the second is directly made of. -/
inductive Child : Node → Node → Prop where
  | block {name : String} {block : Node} : Child block (.program name block)
  | statement {children : List Node} {n : Node} : n ∈ children → Child n (.compound children)
  | operand {op : Token} {operand : Node} : Child operand (.unary op operand)
  | left {op : Token} {left right : Node} : Child left (.binary op left right)
  | right {op : Token} {left right : Node} : Child right (.binary op left right)
  | assigned {type : Option Token} {target op : Token} {value : Node} :
      Child value (.assign type target op value)
  | condition {keyword : Option Token} {condition whenTrue whenFalse : Node} :
      Child condition (.branch keyword condition whenTrue whenFalse)
  | whenTrue {keyword : Option Token} {condition whenTrue whenFalse : Node} :
      Child whenTrue (.branch keyword condition whenTrue whenFalse)
  | whenFalse {keyword : Option Token} {condition whenTrue whenFalse : Node} :
      Child whenFalse (.branch keyword condition whenTrue whenFalse)
  | returned {value : Node} : Child value (.ret value)
  | body {name : Token} {parameters : List Parameter} {body : Node} :
      Child body (.function name parameters body)
  | argument {name : Token} {arguments : List Node} {n : Node} : n ∈ arguments →
      Child n (.call name arguments)

theorem Child.mem_nodes {m k : Node} (h : Child n m) (hk : k ∈ n.nodes) : k ∈ m.nodes := by
  cases h with
  | block => exact List.mem_cons_of_mem _ hk
  | statement hn => exact List.mem_cons_of_mem _ (mem_nodesOf.mpr ⟨n, hn, hk⟩)
  | operand => exact List.mem_cons_of_mem _ hk
  | left => exact List.mem_cons_of_mem _ (List.mem_append_left _ hk)
  | right => exact List.mem_cons_of_mem _ (List.mem_append_right _ hk)
  | assigned => exact List.mem_cons_of_mem _ hk
  | condition => exact List.mem_cons_of_mem _ (List.mem_append_left _ hk)
  | whenTrue =>
    exact List.mem_cons_of_mem _ (List.mem_append_right _ (List.mem_append_left _ hk))
  | whenFalse =>
    exact List.mem_cons_of_mem _ (List.mem_append_right _ (List.mem_append_right _ hk))
  | returned => exact List.mem_cons_of_mem _ hk
  | body => exact List.mem_cons_of_mem _ hk
  | argument hn => exact List.mem_cons_of_mem _ (mem_nodesOf.mpr ⟨n, hn, hk⟩)

theorem IsExpression.imp (h : IsExpression P n) (hpq : ∀ t, P t → Q t) : IsExpression Q n := by
  induction h with
  | int ht hk => exact .int (hpq _ ht) hk
  | float ht hk => exact .float (hpq _ ht) hk
  | bool ht hk => exact .bool (hpq _ ht) hk
  | var ht => exact .var (hpq _ ht)
  | unary ht hk _ ih => exact .unary (hpq _ ht) hk ih
  | binary ht hk _ _ ihl ihr => exact .binary (hpq _ ht) hk ihl ihr
  | call ht _ ih => exact .call (hpq _ ht) ih

theorem IsStatement.imp (h : IsStatement P n) (hpq : ∀ t, P t → Q t) : IsStatement Q n := by
  induction h with
  | compound _ ih => exact .compound ih
  | noOp => exact .noOp
  | assign hty ht hop hv =>
    exact .assign (fun t h => (hty t h).imp (hpq t) id) (hpq _ ht) (hpq _ hop) (hv.imp hpq)
  | branch ht hc _ _ iht ihf => exact .branch (hpq _ ht) (hc.imp hpq) iht ihf
  | ret hv => exact .ret (hv.imp hpq)
  | expression h => exact .expression (h.imp hpq)

theorem IsPart.imp (h : IsPart P n) (hpq : ∀ t, P t → Q t) : IsPart Q n := by
  cases h with
  | function ht hps hb =>
    refine .function (hpq _ ht) (fun p hp => ?_) (hb.imp hpq)
    obtain ⟨hty, hk, hname⟩ := hps p hp
    exact ⟨hpq _ hty, hk, hpq _ hname⟩
  | statements h => exact .statements (h.imp hpq)

theorem IsExpression.of_mem (h : IsExpression P n) {m : Node} (hm : m ∈ n.nodes) :
    IsExpression P m := by
  induction h with
  | int ht hk => exact List.mem_singleton.mp hm ▸ .int ht hk
  | float ht hk => exact List.mem_singleton.mp hm ▸ .float ht hk
  | bool ht hk => exact List.mem_singleton.mp hm ▸ .bool ht hk
  | var ht => exact List.mem_singleton.mp hm ▸ .var ht
  | unary ht hk h ih =>
    rcases List.mem_cons.mp hm with rfl | hm
    · exact .unary ht hk h
    · exact ih hm
  | binary ht hk hl hr ihl ihr =>
    rcases List.mem_cons.mp hm with rfl | hm
    · exact .binary ht hk hl hr
    · exact (List.mem_append.mp hm).elim ihl ihr
  | call ht h ih =>
    rcases List.mem_cons.mp hm with rfl | hm
    · exact .call ht h
    · obtain ⟨a, ha, hm⟩ := mem_nodesOf.mp hm
      exact ih a ha hm

theorem IsStatement.of_mem (h : IsStatement P n) {m : Node} (hm : m ∈ n.nodes) :
    IsStatement P m := by
  induction h with
  | compound h ih =>
    rcases List.mem_cons.mp hm with rfl | hm
    · exact .compound h
    · obtain ⟨a, ha, hm⟩ := mem_nodesOf.mp hm
      exact ih a ha hm
  | noOp => exact List.mem_singleton.mp hm ▸ .noOp
  | assign hty ht hop hv =>
    rcases List.mem_cons.mp hm with rfl | hm
    · exact .assign hty ht hop hv
    · exact .expression (hv.of_mem hm)
  | branch ht hc htrue hfalse iht ihf =>
    rcases List.mem_cons.mp hm with rfl | hm
    · exact .branch ht hc htrue hfalse
    · rcases List.mem_append.mp hm with hm | hm
      · exact .expression (hc.of_mem hm)
      · exact (List.mem_append.mp hm).elim iht ihf
  | ret hv =>
    rcases List.mem_cons.mp hm with rfl | hm
    · exact .ret hv
    · exact .expression (hv.of_mem hm)
  | expression h => exact .expression (h.of_mem hm)

theorem IsPart.of_mem (h : IsPart P n) {m : Node} (hm : m ∈ n.nodes) : IsPart P m := by
  cases h with
  | function ht hps hb =>
    rcases List.mem_cons.mp hm with rfl | hm
    · exact .function ht hps hb
    · exact .statements (hb.of_mem hm)
  | statements h => exact .statements (h.of_mem hm)

/-- No statement declares a function. -/
theorem IsStatement.ne_function (h : IsStatement P n) {name : Token} {parameters : List Parameter}
    {body : Node} : n ≠ .function name parameters body := by
  rintro rfl
  cases h with
  | expression h => cases h

theorem IsPart.eq_function (h : IsPart P n) {name : Token} {parameters : List Parameter}
    {body : Node} (hm : .function name parameters body ∈ n.nodes) :
    n = .function name parameters body := by
  cases h with
  | function _ _ hb =>
    rcases List.mem_cons.mp hm with hm | hm
    · exact hm.symm
    · exact absurd rfl (hb.of_mem hm).ne_function
  | statements h => exact absurd rfl (h.of_mem hm).ne_function

theorem IsPart.body {name : Token} {parameters : List Parameter} {body : Node}
    (h : IsPart P (.function name parameters body)) : IsStatement P body := by
  cases h with
  | function _ _ hb => exact hb
  | statements h => exact absurd rfl h.ne_function

theorem IsStatement.of_compound {children : List Node} (h : IsStatement P (.compound children)) :
    ∀ n ∈ children, IsStatement P n := by
  cases h with
  | compound h => exact h
  | expression h => cases h

theorem IsStatement.head {ns : List Node} (h : IsStatement P (.compound (n :: ns))) :
    IsStatement P n :=
  h.of_compound n (by simp)

theorem IsStatement.tail {ns : List Node} (h : IsStatement P (.compound (n :: ns))) :
    IsStatement P (.compound ns) :=
  .compound fun m hm => h.of_compound m (by simp [hm])

end Node

open Node

/-! ## Tokens with a property -/

def AllOf (P : Token → Prop) (ts : List Token) : Prop :=
  ∀ t ∈ ts, P t

section

variable {P : Token → Prop} {t : Token} {ts us : List Token}

theorem AllOf.left (h : AllOf P (ts ++ us)) : AllOf P ts :=
  fun t ht => h t (by simp [ht])

theorem AllOf.right (h : AllOf P (ts ++ us)) : AllOf P us :=
  fun t ht => h t (by simp [ht])

theorem AllOf.head (h : AllOf P (t :: ts)) : P t :=
  h t (by simp)

theorem AllOf.tail (h : AllOf P (t :: ts)) : AllOf P ts :=
  fun u hu => h u (by simp [hu])

end

variable {P : Token → Prop}

theorem isBinary_of_isConnective {k : Kind} (h : k.isConnective = true) : k.isBinary = true := by
  simp [Kind.isBinary, h]

theorem isBinary_of_isComparison {k : Kind} (h : k.isComparison = true) : k.isBinary = true := by
  simp [Kind.isBinary, h]

theorem isBinary_of_isAdditive {k : Kind} (h : k.isAdditive = true) : k.isBinary = true := by
  simp [Kind.isBinary, Kind.isArithmetic, h]

theorem isBinary_of_isMultiplicative {k : Kind} (h : k.isMultiplicative = true) :
    k.isBinary = true := by
  simp [Kind.isBinary, Kind.isArithmetic, h]

theorem isUnary_of_sign {k : Kind} (h : k = .plus ∨ k = .minus) : k.isUnary = true := by
  rcases h with rfl | rfl <;> rfl

theorem isUnary_bang {k : Kind} (h : k = .bang) : k.isUnary = true := by
  rw [h]
  rfl

/-! ## Expressions -/

mutual

theorem isExpression : {ts : List Token} → {n : Node} → Expression ts n → AllOf P ts →
    IsExpression P n
  | _, _, .bool h, hs => isExpression_boolExpr h hs
  | _, _, .number h, hs => isExpression_numExpr h hs

theorem isExpression_boolExpr : {ts : List Token} → {n : Node} → BoolExpr ts n → AllOf P ts →
    IsExpression P n
  | _, _, .single h, hs => isExpression_boolTerm h hs
  | _, _, .snoc h hk h', hs =>
    .binary hs.right.head (isBinary_of_isConnective hk) (isExpression_boolExpr h hs.left)
      (isExpression_boolTerm h' hs.right.tail)

theorem isExpression_boolTerm : {ts : List Token} → {n : Node} → BoolTerm ts n → AllOf P ts →
    IsExpression P n
  | _, _, .paren _ h _, hs => isExpression_boolExpr h hs.left.tail
  | _, _, .not hk h, hs => .unary hs.head (isUnary_bang hk) (isExpression_boolTerm h hs.tail)
  | _, _, .truth hk, hs => .bool hs.head hk
  | _, _, .comparison h hk h', hs =>
    .binary hs.right.head (isBinary_of_isComparison hk) (isExpression_numExpr h hs.left)
      (isExpression_numExpr h' hs.right.tail)
  | _, _, .var h, hs => isExpression_numExpr h hs
  | _, _, .call h, hs => isExpression_numExpr h hs

theorem isExpression_numExpr : {ts : List Token} → {n : Node} → NumExpr ts n → AllOf P ts →
    IsExpression P n
  | _, _, .single h, hs => isExpression_numTerm h hs
  | _, _, .snoc h hk h', hs =>
    .binary hs.right.head (isBinary_of_isAdditive hk) (isExpression_numExpr h hs.left)
      (isExpression_numTerm h' hs.right.tail)

theorem isExpression_numTerm : {ts : List Token} → {n : Node} → NumTerm ts n → AllOf P ts →
    IsExpression P n
  | _, _, .single h, hs => isExpression_factor h hs
  | _, _, .snoc h hk h', hs =>
    .binary hs.right.head (isBinary_of_isMultiplicative hk) (isExpression_numTerm h hs.left)
      (isExpression_factor h' hs.right.tail)

theorem isExpression_factor : {ts : List Token} → {n : Node} → Factor ts n → AllOf P ts →
    IsExpression P n
  | _, _, .paren _ h _, hs => isExpression_numExpr h hs.left.tail
  | _, _, .sign hk h, hs => .unary hs.head (isUnary_of_sign hk) (isExpression_factor h hs.tail)
  | _, _, .float hk, hs => .float hs.head hk
  | _, _, .int hk, hs => .int hs.head hk
  | _, _, .call h, hs => isExpression_call h hs
  | _, _, .var _, hs => .var hs.head

theorem isExpression_call : {ts : List Token} → {n : Node} → Call ts n → AllOf P ts →
    IsExpression P n
  | _, _, .mk _ _ h _, hs => .call hs.left.head (isExpression_arguments h hs.left.tail.tail)

theorem isExpression_arguments : {ts : List Token} → {ns : List Node} → Listed Expression ts ns →
    AllOf P ts → ∀ n ∈ ns, IsExpression P n
  | _, _, .nil, _ => by simp
  | _, _, .items h, hs => isExpression_separated h hs

theorem isExpression_separated : {ts : List Token} → {ns : List Node} →
    Separated Expression ts ns → AllOf P ts → ∀ n ∈ ns, IsExpression P n
  | _, _, .single h, hs => by simpa using isExpression h hs
  | _, _, .cons h _ h', hs => by
    simpa using ⟨isExpression h hs.left, isExpression_separated h' hs.right.tail⟩

end

/-! ## Statements and programs -/

theorem isStatement_standing {ts : List Token} {n : Node} (h : Standing ts n) (hs : AllOf P ts) :
    IsStatement P n := by
  cases h with
  | mk _ h => exact .expression (isExpression h hs)

theorem isStatement_assignment {ts : List Token} {n : Node} (h : Assignment ts n)
    (hs : AllOf P ts) : IsStatement P n := by
  cases h with
  | plain _ _ h =>
    exact .assign (by simp) hs.head hs.tail.head (isExpression h hs.tail.tail)
  | typed hk _ _ h =>
    exact .assign (by simpa using ⟨hs.head, hk⟩) hs.tail.head hs.tail.tail.head
      (isExpression h hs.tail.tail.tail)

/-- What is left of a list of statements is some of them. -/
theorem Grammar.Reached.subset {nodes reached : List Node} (h : Reached nodes reached) :
    ∀ n ∈ reached, n ∈ nodes := by
  cases h with
  | all => exact fun n hn => hn
  | upTo =>
    intro n hn
    simp only [List.mem_append, List.mem_cons, List.not_mem_nil, or_false] at hn ⊢
    rcases hn with hn | hn
    · exact .inl hn
    · exact .inr (.inl hn)

mutual

theorem isStatement : {ts : List Token} → {n : Node} → Statement ts n → AllOf P ts →
    IsStatement P n
  | _, _, .assignment h _, hs => isStatement_assignment h hs.left
  | _, _, .call h _, hs => .expression (isExpression_call h hs.left)
  | _, _, .ret _ h _, hs => .ret (isExpression h hs.left.tail)
  | _, _, .standing h _, hs => isStatement_standing h hs.left
  | _, _, .branch _ h hb, hs =>
    .branch hs.left.head (isExpression_boolExpr h hs.left.tail) (isStatement_block hb hs.right)
      .noOp
  | _, _, .branches _ h hb _ hb', hs =>
    .branch hs.left.left.head (isExpression_boolExpr h hs.left.left.tail)
      (isStatement_block hb hs.left.right) (isStatement_block hb' hs.right.tail)

theorem isStatement_block : {ts : List Token} → {n : Node} → Block ts n → AllOf P ts →
    IsStatement P n
  | _, _, .empty _ _, _ => .compound (by simpa using IsStatement.noOp)
  | _, _, .statements _ h hr _, hs =>
    .compound fun n hn => isStatement_statements h hs.left.tail n (hr.subset n hn)

theorem isStatement_statements : {k : Kind} → {ts : List Token} → {ns : List Node} →
    Statements k ts ns → AllOf P ts → ∀ n ∈ ns, IsStatement P n
  | _, _, _, .single h, hs => by simpa using isStatement h hs
  | _, _, _, .standing _ h, hs => by simpa using isStatement_standing h hs
  | _, _, _, .cons h h', hs => by
    simpa using ⟨isStatement h hs.left, isStatement_statements h' hs.right⟩

end

theorem isParameter_separated {ts : List Token} {ps : List Parameter}
    (h : Separated ParameterOf ts ps) (hs : AllOf P ts) :
    ∀ p ∈ ps, P p.type ∧ p.type.kind.isType = true ∧ P p.name := by
  induction h with
  | single h =>
    cases h with
    | mk hk _ => simpa using ⟨hs.head, hk, hs.tail.head⟩
  | cons h _ _ ih =>
    cases h with
    | mk hk _ =>
      intro p hp
      rcases List.mem_cons.mp hp with rfl | hp
      · exact ⟨hs.head, hk, hs.tail.head⟩
      · exact ih hs.right.tail p hp

theorem isPart_declaration {ts : List Token} {n : Node} (h : Declaration ts n)
    (hs : AllOf P ts) : IsPart P n := by
  cases h with
  | mk _ _ _ hps _ hbody =>
    refine .function hs.left.tail.head ?_ (isStatement_block hbody hs.right.tail)
    cases hps with
    | nil => simp
    | items h => exact isParameter_separated h hs.left.tail.tail.tail

theorem isPart_of_parts {ts : List Token} {ns : List Node} (h : Parts ts ns) (hs : AllOf P ts) :
    ∀ n ∈ ns, IsPart P n := by
  induction h with
  | finish => simp
  | function h _ ih => simpa using ⟨isPart_declaration h hs.left, ih hs.right⟩
  | statements h hr _ _ ih =>
    have hlist : ∀ n ∈ _, IsStatement P n := fun n hn =>
      isStatement_statements h hs.left n (hr.subset n hn)
    simpa using ⟨IsPart.statements (.compound hlist), ih hs.right⟩

theorem parts_of_program {ts : List Token} {tree : Node} (h : Program ts tree) (hs : AllOf P ts) :
    ∃ parts, tree = .program "main" (.compound parts) ∧ ∀ n ∈ parts, IsPart P n := by
  cases h with
  | mk h => exact ⟨_, rfl, isPart_of_parts h hs⟩

end LittleLang
