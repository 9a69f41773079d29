import LittleLang.Proofs.Analysis.Typing
import LittleLang.Proofs.Run.Logic
import LittleLang.Proofs.Run.Moments

/-!
# The names that a run looks up

A run of an accepted program looks up variables and functions. `Supplies` ties the machine to the
place in the text that it has come to: the functions that are known there are declared, and the
variables are in the record on top, if the analysis was under the rule that ifs declare nothing new.
It holds at every statement of every call (`named_walk`), since each function has been accepted in a
context that was supplied when it was declared, and what is declared stays.

The failures that are left for names are those of calls that are not known where they stand. `late`
is what is known of their tokens. -/

namespace LittleLang.Running

open Analyzing (Rules)

variable {rules : Rules} {late : Token → Prop} {declared : String → Function → Prop}
  {F F' : Table Function} {M : Table Value} {Γ Γ' : Context} {inside : Bool} {node : Node}

/-! ## Failures -/

/-- A call of a function fails for its name or for the number of its arguments. -/
def Misses (e : Failure) (name : String) (token : Option Token) : Prop :=
  e = .runtime (.functionNotFound name) token ∨
    ∃ expected given, e = .runtime (.argumentCount name expected given) token

/-- Under the rules, a run may end with the failure: it is not for a variable, and if it is for a
function, then at the token of a late call. -/
structure Excused (rules : Rules) (late : Token → Prop) (e : Failure) : Prop where
  vars : rules.settled = true → ∀ name token, e ≠ .runtime (.variableNotFound name) token
  functions : ∀ name token, Misses e name token → ∃ t, token = some t ∧ t.text = name ∧ late t

theorem excused_of_operands {cause : RuntimeCause} {token : Option Token}
    (h : cause.isOfOperands = true) : Excused rules late (.runtime cause token) := by
  refine ⟨?_, ?_⟩
  · rintro - name token ⟨⟩
    cases h
  · rintro name token (⟨⟨⟩⟩ | ⟨expected, given, ⟨⟩⟩)
    · cases h
    · cases h

theorem excused_number (e : NumberFault) : Excused rules late (.number e) :=
  ⟨fun _ _ _ => nofun, fun _ _ h => by rcases h with h | ⟨_, _, h⟩ <;> cases h⟩

theorem excused_tooDeep : Excused rules late .tooDeep :=
  ⟨fun _ _ _ => nofun, fun _ _ h => by rcases h with h | ⟨_, _, h⟩ <;> cases h⟩

theorem excused_variable {name : Token} (h : rules.settled ≠ true) :
    Excused rules late (.runtime (.variableNotFound name.text) name) :=
  ⟨fun hr => absurd hr h, fun _ _ h => by rcases h with h | ⟨_, _, h⟩ <;> cases h⟩

theorem excused_functionNotFound {t : Token} (h : late t) :
    Excused rules late (.runtime (.functionNotFound t.text) t) := by
  refine ⟨fun _ _ _ => nofun, ?_⟩
  rintro name token (⟨⟨⟩⟩ | ⟨expected, given, ⟨⟩⟩)
  exact ⟨t, rfl, rfl, h⟩

theorem excused_argumentCount {t : Token} (h : late t) (expected given : Nat) :
    Excused rules late (.runtime (.argumentCount t.text expected given) t) := by
  refine ⟨fun _ _ _ => nofun, ?_⟩
  rintro name token (⟨⟨⟩⟩ | ⟨expected, given, ⟨⟩⟩)
  exact ⟨t, rfl, rfl, h⟩

/-! ## What a place in the text is supplied with -/

def Covers (F : Table Function) (Γ : Context) : Prop :=
  ∀ name count, Γ.functions name = some count →
    ∃ f, F.get? name = some f ∧ f.parameters.length = count

/-- The machine has what is known at a place in the text. -/
structure Supplies (rules : Rules) (F : Table Function) (M : Table Value) (Γ : Context) : Prop where
  functions : Covers F Γ
  vars : rules.settled = true → ∀ x, Γ.Knows x → M.contains x = true

/-- A name that is not known at a place in the text is late. -/
def Expected (late : Token → Prop) (Γ : Context) (t : Token) : Prop :=
  Γ.functions t.text = none → late t

/-- The function has been declared, and its body accepted where no more is known than what is
declared by now. -/
structure Vetted (rules : Rules) (late : Token → Prop) (declared : String → Function → Prop)
    (F : Table Function) (name : String) (f : Function) : Prop where
  declared : declared name f
  body : ∃ Γ Γ', Covers F Γ ∧ f.body.IsStatement (Expected late Γ) ∧
    Accepts rules false (Γ.enter f.parameters) f.body Γ'

def AllVetted (rules : Rules) (late : Token → Prop) (declared : String → Function → Prop)
    (F : Table Function) : Prop :=
  ∀ name f, F.get? name = some f → Vetted rules late declared F name f

/-- The node is no call, or one that is late, or one that finds its function. -/
def Resolves (late : Token → Prop) (declared : String → Function → Prop) (F : Table Function)
    (node : Node) : Prop :=
  ∀ t arguments, node = .call t arguments → late t ∨
    ∃ f, F.get? t.text = some f ∧ f.parameters.length = arguments.length ∧ declared t.text f

theorem Supplies.store (h : Supplies rules F M Γ) (name : String) (v : Value)
    (type : Option String) : Supplies rules F (M.insert name v) (Γ.declare name type) := by
  refine ⟨h.functions, fun hr x hx => ?_⟩
  rw [Table.contains_insert]
  rcases Context.knows_declare.mp hx with rfl | hx
  · simp
  · simp [h.vars hr x hx]

theorem Supplies.overwrite (h : Supplies rules F M Γ) (name : String) (v : Value) :
    Supplies rules F (M.insert name v) Γ := by
  refine ⟨h.functions, fun hr x hx => ?_⟩
  rw [Table.contains_insert]
  simp [h.vars hr x hx]

theorem supplies_bound {f : Function} {values : List Value} (h : Covers F Γ)
    (hlength : values.length = f.parameters.length) :
    Supplies rules F (bound f.parameters values) (Γ.enter f.parameters) := by
  refine ⟨?_, fun _ x hx => ?_⟩
  · unfold Covers
    rw [Context.functions_enter]
    exact h
  · obtain ⟨p, hp, rfl⟩ := Context.knows_enter hx
    exact contains_bound hlength hp

/-! ## The walk -/

section

variable {seen : Node → Monitor} {evaluate evaluate' execute execute' : Node → Running Value}

/-- A call that is known finds its function, with as many parameters as it has arguments. -/
theorem resolves_call {name : Token} {arguments : List Node} {type : Option String}
    (hn : Node.IsExpression (Expected late Γ) (.call name arguments)) (hs : Covers F Γ)
    (hF : AllVetted rules late declared F) (ht : HasType Γ (.call name arguments) type) :
    late name ∨ ∃ f, F.get? name.text = some f ∧ f.parameters.length = arguments.length ∧
      declared name.text f := by
  cases hn with
  | call hname =>
    cases ht with
    | call _ _ hcount =>
      cases hΓ : Γ.functions name.text with
      | none => exact .inl (hname hΓ)
      | some count =>
        obtain ⟨f, hf, hlength⟩ := hs _ _ hΓ
        exact .inr ⟨f, hf, hlength.trans (hcount count hΓ).symm, (hF _ f hf).declared⟩

theorem excused_of_ownFailure {e : Failure} (h : ownFailure? node = some e) :
    Excused rules late e := by
  rcases eq_of_ownFailure h with ⟨fault, rfl⟩ | rfl
  · exact excused_number fault
  · exact ⟨fun _ _ _ => nofun, fun _ _ h => by rcases h with h | ⟨_, _, h⟩ <;> cases h⟩

theorem rules_named : (yields F M (Excused rules late)).Rules .identity :=
  rules_yields (excused_number _) (fun _ _ h => excused_of_operands h) (excused_number _)

theorem HasType.operand {type : Option String} (h : HasType Γ node type) {n : Node}
    (hn : n ∈ operands node) : ∃ type, HasType Γ n type := by
  cases h with
  | unary ho =>
    obtain rfl := List.mem_singleton.mp hn
    exact ⟨_, ho⟩
  | binary hl hr =>
    simp only [operands, List.mem_cons, List.not_mem_nil, or_false] at hn
    rcases hn with rfl | rfl
    · exact ⟨_, hl⟩
    · exact ⟨_, hr⟩
  | call types hargs => exact ⟨_, hargs n hn⟩
  | _ => cases hn

/-- An expression that is accepted, with no call but those that are expected. -/
abbrev Typed (late : Token → Prop) (Γ : Context) (node : Node) : Prop :=
  node.IsExpression (Expected late Γ) ∧ ∃ type, HasType Γ node type

theorem layer_typed (hn : node.IsExpression (Expected late Γ)) {type : Option String}
    (ht : HasType Γ node type) : Node.Layer .identity (fun _ _ => True)
      (Node.Both (Typed late Γ)) (fun _ _ => True) node node := by
  refine .self (fun _ _ => trivial) (fun c hc => ?_) (fun c hc => ?_) fun _ _ _ _ => trivial
  · rw [evaluated_expression hn, List.mem_singleton] at hc
    subst hc
    exact ⟨rfl, hn, type, ht⟩
  · exact ⟨rfl, isExpression_of_operands hn c hc, HasType.operand ht hc⟩

theorem named_evaluateNode {type : Option String} (hn : node.IsExpression (Expected late Γ))
    (hs : Supplies rules F M Γ) (ht : HasType Γ node type)
    (hev : ∀ n type, n.IsExpression (Expected late Γ) → HasType Γ n type →
      Yields F M (evaluate n) (evaluate' n) (fun _ => True) (Excused rules late))
    (hcall : ∀ t arguments, node = .call t arguments →
      Yields F M (call evaluate execute t arguments) (call evaluate' execute' t arguments)
        (fun _ => True) (Excused rules late)) :
    Yields F M (evaluateNode evaluate (call evaluate execute) node)
      (evaluateNode evaluate' (call evaluate' execute') node) (fun _ => True)
      (Excused rules late) := by
  refine Contract.evaluateNode_same (C := yields F M (Excused rules late)) rules_named
    (layer_typed hn ht) ?_ ?_ (fun t as h _ => hcall t as h)
    fun e he => yields_fail (excused_of_ownFailure he)
  · rintro c ⟨hc, type, ht⟩
    exact hev c type hc ht
  · rintro name rfl
    cases ht with
    | var hΓ =>
      refine (yields_load fun hnone => excused_variable fun hr => ?_).weaken fun _ _ => trivial
      have hknown := hs.vars hr name.text (by simp [Context.Knows, hΓ])
      simp [Table.contains, hnone] at hknown

theorem Expected.of_functions {t : Token} (h : Expected late Γ t)
    (hΓ : Γ'.functions = Γ.functions) : Expected late Γ' t := by
  unfold Expected
  rw [hΓ]
  exact h

theorem Supplies.of_functions (h : Supplies rules F M Γ) (hv : rules.settled = true →
    ∀ x, Γ'.Knows x → Γ.Knows x) (hΓ : Γ'.functions = Γ.functions) : Supplies rules F M Γ' := by
  refine ⟨?_, fun hr x hx => h.vars hr x (hv hr x hx)⟩
  unfold Covers
  rw [hΓ]
  exact h.functions

abbrev NamedStep (rules : Rules) (late : Token → Prop) (F : Table Function) (M : Table Value)
    (p p' : Running Value) (Γ' : Context) : Prop :=
  Triple F M p p' (fun _ F' M' => F' = F ∧ Supplies rules F M' Γ') (BodyStops F (Excused rules late))

theorem bodyStops_failed {fails : Failure → Prop} {e : Failure} (h : fails e) :
    BodyStops F fails (.failed e) F M := by
  refine ⟨rfl, ?_⟩
  rintro _ ⟨⟩
  exact h

theorem named_block {nodes : List Node} (hn : ∀ n ∈ nodes, n.IsStatement (Expected late Γ))
    (hs : Supplies rules F M Γ) (hacc : Accepts rules inside Γ (.compound nodes) Γ')
    (hex : ∀ n Γ₁ Γ₂ M, n.IsStatement (Expected late Γ₁) → Supplies rules F M Γ₁ →
      Accepts rules inside Γ₁ n Γ₂ → NamedStep rules late F M (execute n) (execute' n) Γ₂)
    (v : Value) :
    NamedStep rules late F M (nodes.foldlM (fun _ n => execute n) v)
      (nodes.foldlM (fun _ n => execute' n) v) Γ' := by
  let keeps (rest : List Node) (F' : Table Function) (M' : Table Value) : Prop :=
    F' = F ∧ ∃ Γ₁, Γ₁.functions = Γ.functions ∧ Supplies rules F M' Γ₁ ∧
      Accepts rules inside Γ₁ (.compound rest) Γ' ∧ ∀ n ∈ rest, n.IsStatement (Expected late Γ)
  refine (triple_foldlM (I := keeps) ?_ ⟨rfl, Γ, rfl, hs, hacc, hn⟩ v).weaken ?_
    fun _ _ _ h => h
  · rintro n rest _ M ⟨rfl, Γ₁, hΓ₁, hs, hacc, hn⟩ v
    cases hacc with
    | @cons _ _ Γ₂ _ _ _ h h' =>
      have hstmt := (hn n (by simp)).imp fun t ht => ht.of_functions hΓ₁
      refine (hex n Γ₁ Γ₂ M hstmt hs h).weaken ?_ fun _ _ _ hstop => hstop
      rintro _ _ M' ⟨rfl, hs'⟩
      exact ⟨rfl, Γ₂, (h.functions_eq hstmt).trans hΓ₁, hs', h', fun n hn' => hn n (by simp [hn'])⟩
    | expression h => cases h
  · rintro _ _ M' ⟨rfl, Γ₁, -, hs, hacc, -⟩
    cases hacc with
    | nil => exact ⟨rfl, hs⟩
    | expression h => cases h

theorem named_executeNode (hn : node.IsStatement (Expected late Γ)) (hs : Supplies rules F M Γ)
    (hacc : Accepts rules inside Γ node Γ')
    (hev : ∀ n type, n.IsExpression (Expected late Γ) → HasType Γ n type →
      Yields F M (evaluate n) (evaluate' n) (fun _ => True) (Excused rules late))
    (hex : ∀ n Γ₁ Γ₂ M inside, n.IsStatement (Expected late Γ₁) → Supplies rules F M Γ₁ →
      Accepts rules inside Γ₁ n Γ₂ → NamedStep rules late F M (execute n) (execute' n) Γ₂) :
    NamedStep rules late F M (executeNode evaluate execute node)
      (executeNode evaluate' execute' node) Γ' := by
  have hstop : ∀ e, Excused rules late e →
      BodyStops F (Excused rules late) (.failed e) F M := fun _ => bodyStops_failed
  have hlong {M : Table Value} :
      BodyStops F (Excused rules late) (.failed (.number .tooLongToWrite)) F M :=
    bodyStops_failed (excused_number _)
  cases hn with
  | expression hn =>
    obtain ⟨rfl, type, ht⟩ := hacc.of_expression hn
    rw [executeNode_expression hn, executeNode_expression hn]
    exact (hev node type hn ht).triple (fun _ _ => ⟨rfl, hs⟩) hstop
  | compound hns => exact named_block hns hs hacc (fun n Γ₁ Γ₂ M => hex n Γ₁ Γ₂ M inside) .none
  | noOp =>
    cases hacc with
    | noOp => exact triple_pure ⟨rfl, hs⟩
    | expression h => cases h
  | assign _ _ _ hv =>
    cases hacc with
    | typed ht => exact (hev _ _ hv ht).next hstop fun v _ =>
        triple_assign hlong ⟨rfl, hs.store _ v _⟩
    | kept ht => exact (hev _ _ hv ht).next hstop fun v _ =>
        triple_assign hlong ⟨rfl, hs.overwrite _ v⟩
    | fresh ht => exact (hev _ _ hv ht).next hstop fun v _ =>
        triple_assign hlong ⟨rfl, hs.store _ v _⟩
    | expression h => cases h
  | branch _ hc htrue hfalse =>
    cases hacc with
    | @branch _ _ Γ₁ _ _ _ _ _ _ ht _ h₁ h₂ =>
      refine (hev _ _ hc ht).next hstop fun v _ => ?_
      refine (yields_text (excused_number _) v).next hstop fun t _ => ?_
      refine triple_note 3 _ ?_
      have hΓ₁ := h₁.functions_eq htrue
      refine Triple.ite (fun _ => ?_) fun _ => ?_
      · refine (hex _ Γ Γ₁ M true htrue hs h₁).weaken ?_ fun _ _ _ h => h
        rintro _ _ M' ⟨rfl, hs'⟩
        have hfalse := hfalse.imp fun t ht => ht.of_functions hΓ₁
        exact ⟨rfl, hs'.of_functions (fun hr x => h₂.knows_of_settled hr rfl)
          (h₂.functions_eq hfalse)⟩
      · have hfalse := hfalse.imp fun t ht => ht.of_functions hΓ₁
        exact hex _ Γ₁ Γ' M true hfalse
          (hs.of_functions (fun hr x => h₁.knows_of_settled hr rfl) hΓ₁) h₂
    | expression h => cases h
  | ret hv =>
    cases hacc with
    | ret ht => exact (hev _ _ hv ht).next hstop fun v _ => triple_throw ⟨rfl, fun _ he => by cases he⟩
    | expression h => cases h

/-- The body of a function is carried out on as many values as it has parameters. -/
theorem named_body (hF : AllVetted rules late declared F)
    (hex : ∀ n Γ₁ Γ₂ M inside, n.IsStatement (Expected late Γ₁) → Supplies rules F M Γ₁ →
      Accepts rules inside Γ₁ n Γ₂ → NamedStep rules late F M (execute n) (execute' n) Γ₂)
    {name : String} {f : Function} {values : List Value} (hf : F.get? name = some f)
    (hlength : values.length = f.parameters.length) :
    Triple F (bound f.parameters values) (execute f.body) (execute' f.body)
      (fun _ F' _ => F' = F) (BodyStops F (Excused rules late)) := by
  obtain ⟨Γ, Γ', hΓ, hbody, hacc⟩ := (hF name f hf).body
  have hbody := hbody.imp fun t ht => ht.of_functions (Context.functions_enter Γ f.parameters)
  exact (hex f.body _ Γ' _ false hbody (supplies_bound hΓ hlength) hacc).weaken
    (fun _ _ _ h => h.1) fun _ _ _ h => h

/-- The walk over a statement or an expression, at any depth, finds what is known, and so does every
call on the way. The induction is on the depth, for both walks at once. -/
theorem named_walk (hF : AllVetted rules late declared F)
    (hseen : ∀ n m r, Resolves late declared m.functions n → seen n m r = r) (depth : Nat) :
    (∀ node Γ Γ' M inside, node.IsStatement (Expected late Γ) → Supplies rules F M Γ →
      Accepts rules inside Γ node Γ' →
      NamedStep rules late F M (Running.execute depth node) (executeSeen seen depth node) Γ') ∧
    ∀ node Γ type M, node.IsExpression (Expected late Γ) → Supplies rules F M Γ →
      HasType Γ node type → Yields F M (Running.evaluate depth node)
        (evaluateSeen seen depth node) (fun _ => True) (Excused rules late) := by
  have hpass {node : Node} {Γ : Context} {type : Option String} {M : Table Value}
      (hn : node.IsExpression (Expected late Γ)) (hs : Supplies rules F M Γ)
      (ht : HasType Γ node type) (m : Machine) (r : EStateM.Result Stop Machine Value)
      (hm : m.functions = F) : seen node m r = r := by
    refine hseen node m r ?_
    rintro t arguments rfl
    rw [hm]
    exact resolves_call hn hs.functions hF ht
  induction depth with
  | zero =>
    refine ⟨fun _ _ _ _ _ _ _ _ => ?_, fun node Γ type M hn hs ht => ?_⟩
    · exact triple_throw (bodyStops_failed excused_tooDeep)
    · exact (yields_fail excused_tooDeep).watch (hpass hn hs ht)
  | succ depth ih =>
    obtain ⟨hex, hev⟩ := ih
    refine ⟨fun node Γ Γ' M inside hn hs hacc => ?_, fun node Γ type M hn hs ht => ?_⟩
    · rw [execute_succ, executeSeen]
      exact named_executeNode hn hs hacc (fun n type hn => hev n Γ type M hn hs) hex
    · rw [evaluate_succ, evaluateSeen]
      refine Yields.watch ?_ (hpass hn hs ht)
      have hyields (n : Node) (type : Option String) (hn : n.IsExpression (Expected late Γ)) :=
        hev n Γ type M hn hs
      refine named_evaluateNode hn hs ht hyields ?_
      rintro t arguments rfl
      refine yields_call rules_named (fun hnone => ?_) (fun f hf hne => ?_) (fun a ha => ?_)
        fun f values hf hlength => named_body hF hex hf hlength
      · rcases resolves_call hn hs.functions hF ht with hlate | ⟨f, hf, -⟩
        · exact excused_functionNotFound hlate
        · rw [hnone] at hf
          cases hf
      · rcases resolves_call hn hs.functions hF ht with hlate | ⟨f', hf', hlength, -⟩
        · exact excused_argumentCount hlate _ _
        · rw [hf] at hf'
          cases hf'
          exact absurd hlength.symm hne
      · obtain ⟨type, ht⟩ := HasType.operand ht ha
        exact hev a Γ type M (isExpression_of_operands hn a ha) hs ht

end

/-! ## Programs -/

/-- The parts of a program in their order: what a part calls is declared before or in it, or late.
-/
inductive InOrder (late : Token → Prop) : (String → Prop) → List Node → Prop where
  | nil {known : String → Prop} : InOrder late known []
  | function {known : String → Prop} {name : Token} {parameters : List Parameter} {body : Node}
      {parts : List Node} :
      body.IsStatement (fun t => ¬(t.text = name.text ∨ known t.text) → late t) →
      InOrder late (fun f => f = name.text ∨ known f) parts →
      InOrder late known (.function name parameters body :: parts)
  | statements {known : String → Prop} {n : Node} {parts : List Node} :
      n.IsStatement (fun t => ¬known t.text → late t) → InOrder late known parts →
      InOrder late known (n :: parts)

def Exact (F : Table Function) (Γ : Context) : Prop :=
  ∀ name, Γ.functions name = (F.get? name).map (·.parameters.length)

theorem Exact.covers (h : Exact F Γ) : Covers F Γ := by
  intro name count hcount
  rw [h name] at hcount
  exact Option.map_eq_some_iff.mp hcount

theorem Exact.declare (h : Exact F Γ) (name : String) (f : Function) :
    Exact (F.insert name f) (Γ.define name f.parameters.length) := by
  intro x
  rw [Context.functions_define, Table.get?_insert]
  split
  · rfl
  · exact h x

/-- What is supplied stays supplied when a new function is declared. -/
theorem Covers.declare {name : String} (h : Covers F Γ) (hnew : F.get? name = none)
    (f : Function) : Covers (F.insert name f) Γ := by
  intro x count hcount
  obtain ⟨g, hg, hlength⟩ := h x count hcount
  refine ⟨g, ?_, hlength⟩
  rw [Table.get?_insert, if_neg, hg]
  rintro rfl
  rw [hnew] at hg
  cases hg

theorem AllVetted.declare {name : String} {f : Function} (h : AllVetted rules late declared F)
    (hnew : F.get? name = none) (hf : Vetted rules late declared (F.insert name f) name f) :
    AllVetted rules late declared (F.insert name f) := by
  intro x g hg
  rw [Table.get?_insert] at hg
  split at hg
  · next hx =>
    cases hg
    exact hx ▸ hf
  · obtain ⟨hdecl, Γ, Γ', hΓ, hbody, hacc⟩ := h x g hg
    exact ⟨hdecl, Γ, Γ', hΓ.declare hnew f, hbody, hacc⟩

/-- What holds between the parts of a program. -/
structure Poised (rules : Rules) (late : Token → Prop) (declared : String → Function → Prop)
    (parts : List Node) (Γ : Context) (known : String → Prop) (F : Table Function)
    (M : Table Value) : Prop where
  order : InOrder late known parts
  known : ∀ f, known f → Γ.functions f ≠ none
  exact : Exact F Γ
  vetted : AllVetted rules late declared F
  supplies : Supplies rules F M Γ
  declared : ∀ name parameters body, .function name parameters body ∈ parts →
    declared name.text ⟨parameters, body⟩

section

variable {seen : Node → Monitor} {parts : List Node} {known : String → Prop}

theorem Poised.expected (h : Poised rules late declared parts Γ known F M) {t : Token}
    (ht : ¬known t.text → late t) : Expected late Γ t :=
  fun hnone => ht fun hk => h.known _ hk hnone

theorem Poised.declare {name : Token} {parameters : List Parameter} {body : Node}
    (h : Poised rules late declared (.function name parameters body :: parts) Γ known F M)
    (hacc : Accepts rules false Γ (.function name parameters body) Γ') :
    ∃ known', Poised rules late declared parts Γ' known'
      (F.insert name.text ⟨parameters, body⟩) M := by
  cases hacc with
  | expression h => cases h
  | @function _ _ Γ'' _ _ _ hnew hbody =>
    have hnone : F.get? name.text = none := by
      have := h.exact name.text
      rw [hnew] at this
      simpa using this.symm
    have hexact := h.exact.declare name.text ⟨parameters, body⟩
    have hvars := h.supplies.vars
    cases h.order with
    | statements hn => exact absurd rfl hn.ne_function
    | function hlate horder =>
      have hknown (f : String) (hf : f = name.text ∨ known f) :
          (Γ.define name.text parameters.length).functions f ≠ none := by
        rw [Context.functions_define]
        split
        · exact nofun
        · next hne => exact h.known f (hf.resolve_left hne)
      have hexpected := hlate.imp fun t ht (hnone : Context.functions _ t.text = none) =>
        ht fun hk => hknown t.text hk hnone
      refine ⟨_, horder, hknown, hexact, h.vetted.declare hnone ?_, ⟨hexact.covers, hvars⟩,
        fun _ _ _ hmem => h.declared _ _ _ (by simp [hmem])⟩
      exact ⟨h.declared _ _ _ (by simp), _, _, hexact.covers, hexpected, hbody⟩

theorem Poised.step {n : Node} (h : Poised rules late declared (n :: parts) Γ known F M)
    (hn : n.IsStatement fun t => ¬known t.text → late t) (horder : InOrder late known parts)
    (hacc : Accepts rules false Γ n Γ') {M' : Table Value} (hs : Supplies rules F M' Γ') :
    Poised rules late declared parts Γ' known F M' := by
  have hΓ' := hacc.functions_eq hn
  refine ⟨horder, ?_, ?_, h.vetted, hs, fun _ _ _ hmem => h.declared _ _ _ (by simp [hmem])⟩
  · rw [hΓ']
    exact h.known
  · unfold Exact
    rw [hΓ']
    exact h.exact

theorem named_parts (hseen : ∀ n m r, Resolves late declared m.functions n → seen n m r = r)
    (h : Poised rules late declared parts Γ known F M)
    (hacc : Accepts rules false Γ (.compound parts) Γ') (depth : Nat) (v : Value) :
    Triple F M (parts.foldlM (fun _ n => execute depth n) v)
      (parts.foldlM (fun _ n => executeSeen seen depth n) v) (fun _ _ _ => True)
      fun s _ _ => ∀ e, s = .failed e → Excused rules late e := by
  let I (rest : List Node) (F : Table Function) (M : Table Value) : Prop :=
    ∃ Γ known, Poised rules late declared rest Γ known F M ∧
      Accepts rules false Γ (.compound rest) Γ'
  refine (triple_foldlM (I := I) ?_ ⟨Γ, known, h, hacc⟩ v).weaken (fun _ _ _ _ => trivial)
    fun _ _ _ hs => hs
  rintro n rest F M ⟨Γ, known, h, hacc⟩ v
  cases hacc with
  | expression h => cases h
  | @cons _ _ Γ₁ _ _ _ hacc hrest =>
    cases h.order with
    | statements hn horder =>
      have hstmt := hn.imp fun t ht => h.expected ht
      refine ((named_walk h.vetted hseen depth).1 n Γ Γ₁ M false hstmt h.supplies hacc).weaken ?_
        fun _ _ _ hs => hs.2
      rintro _ _ M' ⟨rfl, hs⟩
      exact ⟨Γ₁, known, h.step hn horder hacc hs, hrest⟩
    | @function _ name parameters body _ hbody horder =>
      cases depth with
      | zero =>
        refine triple_throw ?_
        rintro _ ⟨⟩
        exact excused_tooDeep
      | succ depth =>
        obtain ⟨known', hpoised⟩ := h.declare hacc
        rw [execute_succ, executeSeen]
        refine triple_declare ?_
        exact triple_note 2 _ (triple_pure ⟨Γ₁, known', hpoised, hrest⟩)

/-- A run of an accepted program, from an empty stack: whatever is looked up on the way is there,
but for late calls. -/
theorem named_program (hseen : ∀ n m r, Resolves late declared m.functions n → seen n m r = r)
    (hacc : Accepts rules false .empty (.compound parts) Γ')
    (horder : InOrder late (fun _ => False) parts)
    (hdecl : ∀ name parameters body, .function name parameters body ∈ parts →
      declared name.text ⟨parameters, body⟩) {m : Machine} (hm : m.stack = []) (depth : Nat)
    (name : String) :
    executeSeen seen depth (.program name (.compound parts)) { m with functions := {} } =
        execute depth (.program name (.compound parts)) { m with functions := {} } ∧
      ∀ e, (m.interpretWithin depth (.program name (.compound parts))).1 = .error e →
        Excused rules late e := by
  have hstart : Poised rules late declared parts .empty (fun _ => False) {} {} :=
    ⟨horder, nofun, fun _ => rfl, nofun, ⟨nofun, nofun⟩, hdecl⟩
  cases depth with
  | zero =>
    refine ⟨rfl, ?_⟩
    rintro _ ⟨⟩
    exact excused_tooDeep
  | succ depth =>
    have hblock : Triple {} {} (execute depth (.compound parts))
        (executeSeen seen depth (.compound parts)) (fun _ _ _ => True)
        fun s _ _ => ∀ e, s = .failed e → Excused rules late e := by
      cases depth with
      | zero =>
        refine triple_throw ?_
        rintro _ ⟨⟩
        exact excused_tooDeep
      | succ depth =>
        rw [execute_succ, executeSeen]
        exact named_parts hseen hstart hacc depth .none
    unfold Machine.interpretWithin
    rw [execute_succ, executeSeen]
    obtain ⟨heq, hend⟩ := concludes_program (m := { m with functions := {} }) hm hblock
      (evaluate depth) (evaluateSeen seen depth) name
    refine ⟨heq, fun e he => ?_⟩
    obtain ⟨record, F, -, -, hfail⟩ := hend.perform
    exact hfail e he e rfl

end

end LittleLang.Running
