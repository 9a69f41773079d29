import LittleLang.Analysis
import LittleLang.Proofs.Analysis.Rules
import LittleLang.Proofs.Forms

/-!
# What an analysis accepts

`HasType` and `Accepts` say what an analysis accepts without its scopes and symbols. A context knows
the functions with the number of their parameters, and the variables with their types, each by name;
a type that is not known before the run is `none`. A statement is accepted in one context and leaves
another: a variable is declared from its first assignment on, in textual order, whichever branches
are taken later. `Accepts` has the rules that can be added to an analysis as a parameter. -/

namespace LittleLang

open Analyzing (Rules)

/-- What is known at a place of a program. -/
@[ext] structure Context where
  functions : String → Option Nat
  vars : String → Option (Option String)

namespace Context

def empty : Context :=
  ⟨fun _ => none, fun _ => none⟩

def declare (Γ : Context) (name : String) (type : Option String) : Context :=
  { Γ with vars := fun x => if x = name then some type else Γ.vars x }

def define (Γ : Context) (name : String) (count : Nat) : Context :=
  { Γ with functions := fun f => if f = name then some count else Γ.functions f }

/-- The context inside of a function: of the variables only its parameters are known. -/
def enter (Γ : Context) (parameters : List Parameter) : Context :=
  parameters.foldl (fun Γ p => Γ.declare p.name.text (some p.type.text))
    { Γ with vars := fun _ => none }

def Knows (Γ : Context) (name : String) : Prop :=
  (Γ.vars name).isSome = true

theorem knows_declare {Γ : Context} {name x : String} {type : Option String} :
    (Γ.declare name type).Knows x ↔ x = name ∨ Γ.Knows x := by
  unfold Knows declare
  by_cases hx : x = name <;> simp [hx]

@[simp] theorem functions_declare (Γ : Context) (name : String) (type : Option String) :
    (Γ.declare name type).functions = Γ.functions := rfl

@[simp] theorem vars_define (Γ : Context) (name : String) (count : Nat) :
    (Γ.define name count).vars = Γ.vars := rfl

theorem functions_define (Γ : Context) (name f : String) (count : Nat) :
    (Γ.define name count).functions f = if f = name then some count else Γ.functions f := rfl

theorem functions_foldl (Γ : Context) (parameters : List Parameter) :
    (parameters.foldl (fun Γ p => Γ.declare p.name.text (some p.type.text)) Γ).functions =
      Γ.functions := by
  induction parameters generalizing Γ with
  | nil => rfl
  | cons p parameters ih => exact ih _

@[simp] theorem functions_enter (Γ : Context) (parameters : List Parameter) :
    (Γ.enter parameters).functions = Γ.functions :=
  functions_foldl _ parameters

theorem knows_foldl {Γ : Context} {parameters : List Parameter} {x : String}
    (h : (parameters.foldl (fun Γ p => Γ.declare p.name.text (some p.type.text)) Γ).Knows x) :
    Γ.Knows x ∨ ∃ p ∈ parameters, p.name.text = x := by
  induction parameters generalizing Γ with
  | nil => exact .inl h
  | cons p parameters ih =>
    rcases ih h with h | ⟨q, hq, rfl⟩
    · rcases knows_declare.mp h with rfl | h
      · exact .inr ⟨p, by simp, rfl⟩
      · exact .inl h
    · exact .inr ⟨q, by simp [hq], rfl⟩

theorem knows_enter {Γ : Context} {parameters : List Parameter} {x : String}
    (h : (Γ.enter parameters).Knows x) : ∃ p ∈ parameters, p.name.text = x :=
  (knows_foldl h).resolve_left fun h => by cases h

end Context

/-! ## Expressions -/

inductive Agree : Option String → Option String → Option String → Prop where
  | same (type : String) : Agree (some type) (some type) (some type)
  | left (type : String) : Agree (some type) none (some type)
  | right (type : Option String) : Agree none type type

/-- An operator takes operands of the type, as far as it is known. -/
def Suits (op : Token) (type : Option String) : Prop :=
  ∀ name ∈ type, (op.kind.isArithmetic = true → name ≠ boolType) ∧
    (op.kind.isLogical = true → name = boolType)

/-- An expression has a type in a context. A call has none that is known; where its function is, it
has the right number of arguments. -/
inductive HasType (Γ : Context) : Node → Option String → Prop where
  | int (token : Token) : HasType Γ (.intLiteral token) (some intType)
  | float (token : Token) : HasType Γ (.floatLiteral token) (some floatType)
  | bool (token : Token) : HasType Γ (.boolLiteral token) (some boolType)
  | var {name : Token} {type : Option String} :
      Γ.vars name.text = some type → HasType Γ (.var name) type
  | unary {op : Token} {operand : Node} {type : Option String} :
      HasType Γ operand type → Suits op type → HasType Γ (.unary op operand) type
  | binary {op : Token} {left right : Node} {leftType rightType type : Option String} :
      HasType Γ left leftType → HasType Γ right rightType → Agree leftType rightType type →
      Suits op type →
      HasType Γ (.binary op left right) (if op.kind.isComparison then some boolType else type)
  | call {name : Token} {arguments : List Node} (types : Node → Option String) :
      (∀ a ∈ arguments, HasType Γ a (types a)) →
      (∀ count, Γ.functions name.text = some count → arguments.length = count) →
      HasType Γ (.call name arguments) none

open Classical in
theorem HasType.call_of_exists {Γ : Context} {name : Token} {arguments : List Node}
    (h : ∀ a ∈ arguments, ∃ type, HasType Γ a type)
    (hcount : ∀ count, Γ.functions name.text = some count → arguments.length = count) :
    HasType Γ (.call name arguments) none := by
  refine .call (fun a => if ha : ∃ type, HasType Γ a type then ha.choose else none)
    (fun a ha => ?_) hcount
  rw [dif_pos (h a ha)]
  exact (h a ha).choose_spec

/-! ## Statements -/

/-- The rules allow an assignment to a variable with a type, inside of an `if` or not. -/
structure Allows (rules : Rules) (inside : Bool) (Γ : Context) (name : String)
    (type : Option String) : Prop where
  stable : rules.stable = true → ∀ recorded, Γ.vars name = some recorded → recorded = type
  settled : rules.settled = true → inside = true → Γ.Knows name

/-- A statement or a declaration is accepted in a context, inside of an `if` or not, and leaves
another. -/
inductive Accepts (rules : Rules) : Bool → Context → Node → Context → Prop where
  | nil {inside : Bool} {Γ : Context} : Accepts rules inside Γ (.compound []) Γ
  | cons {inside : Bool} {Γ Γ₁ Γ₂ : Context} {n : Node} {ns : List Node} :
      Accepts rules inside Γ n Γ₁ → Accepts rules inside Γ₁ (.compound ns) Γ₂ →
      Accepts rules inside Γ (.compound (n :: ns)) Γ₂
  | noOp {inside : Bool} {Γ : Context} : Accepts rules inside Γ .noOp Γ
  | typed {inside : Bool} {Γ : Context} {given target op : Token} {value : Node}
      {type : Option String} : HasType Γ value type → (∀ name ∈ type, name = given.text) →
      Allows rules inside Γ target.text (some given.text) →
      Accepts rules inside Γ (.assign (some given) target op value)
        (Γ.declare target.text (some given.text))
  | kept {inside : Bool} {Γ : Context} {target op : Token} {value : Node} {type : Option String} :
      HasType Γ value type → Γ.Knows target.text → Allows rules inside Γ target.text type →
      Accepts rules inside Γ (.assign none target op value) Γ
  | fresh {inside : Bool} {Γ : Context} {target op : Token} {value : Node}
      {type : Option String} : HasType Γ value type → Allows rules inside Γ target.text type →
      Γ.vars target.text = none →
      Accepts rules inside Γ (.assign none target op value) (Γ.declare target.text type)
  | branch {inside : Bool} {Γ Γ₁ Γ₂ : Context} {keyword : Option Token}
      {condition whenTrue whenFalse : Node} {type : Option String} :
      HasType Γ condition type → (∀ name ∈ type, name = boolType) →
      Accepts rules true Γ whenTrue Γ₁ → Accepts rules true Γ₁ whenFalse Γ₂ →
      Accepts rules inside Γ (.branch keyword condition whenTrue whenFalse) Γ₂
  | ret {inside : Bool} {Γ : Context} {value : Node} {type : Option String} :
      HasType Γ value type → Accepts rules inside Γ (.ret value) Γ
  | expression {inside : Bool} {Γ : Context} {n : Node} {type : Option String} :
      HasType Γ n type → Accepts rules inside Γ n Γ
  /-- The function is new, and known in its own body. -/
  | function {inside : Bool} {Γ Γ' : Context} {name : Token} {parameters : List Parameter}
      {body : Node} : Γ.functions name.text = none →
      Accepts rules inside ((Γ.define name.text parameters.length).enter parameters) body Γ' →
      Accepts rules inside Γ (.function name parameters body)
        (Γ.define name.text parameters.length)

namespace Accepts

variable {rules : Rules} {inside : Bool} {P : Token → Prop} {Γ Γ' : Context} {n : Node}

theorem of_expression (h : Accepts rules inside Γ n Γ') (hn : n.IsExpression P) :
    Γ' = Γ ∧ ∃ type, HasType Γ n type := by
  cases hn <;> cases h <;> exact ⟨rfl, _, ‹_›⟩

theorem knows (h : Accepts rules inside Γ n Γ') {x : String} (hx : Γ.Knows x) : Γ'.Knows x := by
  induction h with
  | cons _ _ ih ih' => exact ih' (ih hx)
  | typed => exact Context.knows_declare.mpr (.inr hx)
  | fresh => exact Context.knows_declare.mpr (.inr hx)
  | branch _ _ _ _ ih ih' => exact ih' (ih hx)
  | _ => exact hx

/-- Inside of an `if` nothing gets known, if that is settled before. -/
theorem knows_of_settled (h : Accepts rules inside Γ n Γ') (hr : rules.settled = true)
    (hi : inside = true) {x : String} (hx : Γ'.Knows x) : Γ.Knows x := by
  induction h with
  | cons _ _ ih ih' => exact ih hi (ih' hi hx)
  | typed _ _ hallow =>
    rcases Context.knows_declare.mp hx with rfl | hx
    · exact hallow.settled hr hi
    · exact hx
  | fresh _ hallow =>
    rcases Context.knows_declare.mp hx with rfl | hx
    · exact hallow.settled hr hi
    · exact hx
  | branch _ _ _ _ ih ih' => exact ih rfl (ih' rfl hx)
  | _ => exact hx

theorem functions_eq (h : Accepts rules inside Γ n Γ') (hn : n.IsStatement P) :
    Γ'.functions = Γ.functions := by
  induction h with
  | cons _ _ ih ih' =>
    rw [ih' hn.tail, ih hn.head]
  | branch _ _ _ _ ih ih' =>
    cases hn with
    | branch _ _ ht hf => rw [ih' hf, ih ht]
    | expression h => cases h
  | function => exact absurd rfl hn.ne_function
  | _ => rfl

theorem functions_ne_none (h : Accepts rules inside Γ n Γ') {f : String}
    (hf : Γ.functions f ≠ none) : Γ'.functions f ≠ none := by
  induction h with
  | cons _ _ ih ih' => exact ih' (ih hf)
  | branch _ _ _ _ ih ih' => exact ih' (ih hf)
  | function =>
    rw [Context.functions_define]
    split
    · exact nofun
    · exact hf
  | _ => exact hf

theorem function_new {ns : List Node} (h : Accepts rules inside Γ (.compound ns) Γ') {name : Token}
    {parameters : List Parameter} {body : Node} (hmem : .function name parameters body ∈ ns) :
    Γ.functions name.text = none := by
  induction ns generalizing Γ with
  | nil => cases hmem
  | cons n ns ih =>
    cases h with
    | expression h => cases h
    | cons h hrest =>
      rcases List.mem_cons.mp hmem with rfl | hmem
      · cases h with
        | function hnew => exact hnew
        | expression h => cases h
      · exact Classical.byContradiction fun hne => h.functions_ne_none hne (ih hrest hmem)

theorem function_known {name : Token} {parameters : List Parameter} {body : Node}
    (h : Accepts rules inside Γ (.function name parameters body) Γ') :
    Γ'.functions name.text ≠ none := by
  cases h with
  | expression h => cases h
  | function => simp [Context.functions_define]

theorem function_unique {ns : List Node} (h : Accepts rules inside Γ (.compound ns) Γ')
    {name name' : Token} {parameters parameters' : List Parameter} {body body' : Node}
    (hmem : .function name parameters body ∈ ns) (hmem' : .function name' parameters' body' ∈ ns)
    (hname : name.text = name'.text) : parameters = parameters' ∧ body = body' := by
  induction ns generalizing Γ with
  | nil => cases hmem
  | cons n ns ih =>
    cases h with
    | expression h => cases h
    | cons h hrest =>
      rcases List.mem_cons.mp hmem with heq | htail
      · rcases List.mem_cons.mp hmem' with heq' | htail'
        · cases heq.trans heq'.symm
          exact ⟨rfl, rfl⟩
        · subst heq
          exact absurd (hrest.function_new htail') (hname ▸ h.function_known)
      · rcases List.mem_cons.mp hmem' with heq' | htail'
        · subst heq'
          exact absurd (hrest.function_new htail) (hname ▸ h.function_known)
        · exact ih hrest htail htail'

end Accepts

end LittleLang
