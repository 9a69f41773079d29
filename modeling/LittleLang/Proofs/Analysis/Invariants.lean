import LittleLang.Proofs.Analysis.Moments
import LittleLang.Proofs.Analysis.Objections
import LittleLang.Proofs.Likeness.Steps

/-!
# Invariants of an analysis

A step `Keeps` a property of the state if the property holds after it where it held before, however
the step ends. `Holding I p p'` is the same for two steps that come to the same: those of two walks
that may differ where the property fails, which is what the moments of an analysis ask for. There is
one lemma for each step of a visit, and one for the visit as a whole, in which all that is left open
are the steps that change scopes (`holding_visitNode`).

An `Invariant` is kept by these too, so it holds along every walk (`Invariant.visit`), and at every
visit of an analysis if it does at the first one (`Invariant.reaches`).
-/

namespace LittleLang

/-! ## What a step keeps -/

section

variable {ε σ α β : Type} {I : σ → Prop}

/-- The property of the state that an outcome leaves. -/
def After (I : σ → Prop) : EStateM.Result ε σ α → Prop
  | .ok _ s | .error _ s => I s

theorem After.imp {J : σ → Prop} {r : EStateM.Result ε σ α} (h : After I r)
    (hJ : ∀ s, I s → J s) : After J r := by
  cases r with
  | ok a s => exact hJ s h
  | error e s => exact hJ s h

/-- The property holds after the step where it held before, also if the step fails. -/
def Keeps (I : σ → Prop) (p : EStateM ε σ α) : Prop :=
  ∀ s, I s → After I (p s)

theorem keeps_pure (a : α) : Keeps I (pure a : EStateM ε σ α) :=
  fun _ hs => hs

theorem keeps_throw (e : ε) : Keeps I (throw e : EStateM ε σ α) :=
  fun _ hs => hs

theorem keeps_get : Keeps I (get : EStateM ε σ σ) :=
  fun _ hs => hs

theorem keeps_modify {change : σ → σ} (h : ∀ s, I s → I (change s)) :
    Keeps I (modify change : EStateM ε σ PUnit) :=
  fun s hs => h s hs

theorem After.bind {p : EStateM ε σ α} {f : α → EStateM ε σ β} {s : σ} (h : After I (p s))
    (hf : ∀ a, Keeps I (f a)) : After I ((p >>= f) s) := by
  simp only [Bind.bind, EStateM.bind]
  cases hp : p s with
  | ok a s' =>
    rw [hp] at h
    exact hf a s' h
  | error e s' =>
    rw [hp] at h
    exact h

theorem Keeps.bind {p : EStateM ε σ α} {f : α → EStateM ε σ β} (h : Keeps I p)
    (hf : ∀ a, Keeps I (f a)) : Keeps I (p >>= f) :=
  fun s hs => (h s hs).bind hf

theorem Keeps.ite {c : Prop} [Decidable c] {p q : EStateM ε σ α} (h : Keeps I p)
    (h' : Keeps I q) : Keeps I (if c then p else q) := by
  split
  · exact h
  · exact h'

theorem Keeps.discard {p : EStateM ε σ α} (h : Keeps I p) : Keeps I (discard p) :=
  h.bind fun _ => keeps_pure _

theorem keeps_forM {f : α → EStateM ε σ PUnit} {as : List α} (h : ∀ a, Keeps I (f a)) :
    Keeps I (as.forM f) := by
  induction as with
  | nil => exact keeps_pure _
  | cons a as ih => exact (h a).bind fun _ => ih

end

namespace Analyzing

variable {α : Type} {I : Analysis → Prop} {scope : Option Nat} {s : Analysis}

/-! ## Steps of a visit -/

theorem keeps_ask (query : Arena → Except Failure α) : Keeps I (ask query) := by
  refine keeps_get.bind fun s => ?_
  cases query s.arena with
  | ok a => exact keeps_pure a
  | error e => exact keeps_throw e

theorem ask_error {query : Arena → Except Failure α} {e : Failure}
    (h : query s.arena = .error e) : ask query s = .error e s := by
  unfold ask
  rw [bind_of_ok (get_apply s)]
  simp only [h]
  rfl

theorem changeWith_error {step : Arena → Except Failure (α × Arena)} {e : Failure}
    (h : step s.arena = .error e) : changeWith step s = .error e s :=
  bind_of_error (ask_error h)

theorem after_change {step : Arena → Except Failure Arena} (hs : I s)
    (h : ∀ a, step s.arena = .ok a → I { s with arena := a }) : After I (change step s) := by
  cases hstep : step s.arena with
  | ok a =>
    rw [change_eq hstep]
    exact h a hstep
  | error e =>
    unfold change
    rw [bind_of_error (ask_error hstep)]
    exact hs

theorem keeps_change {step : Arena → Except Failure Arena}
    (h : ∀ s a, I s → step s.arena = .ok a → I { s with arena := a }) : Keeps I (change step) :=
  fun s hs => after_change hs fun a => h s a hs

theorem keeps_changeWith {step : Arena → Except Failure (α × Arena)}
    (h : ∀ s x a, I s → step s.arena = .ok (x, a) → I { s with arena := a }) :
    Keeps I (changeWith step) := by
  intro s hs
  cases hstep : step s.arena with
  | ok found =>
    rw [changeWith_eq hstep]
    exact h s found.1 found.2 hs hstep
  | error e =>
    rw [changeWith_error hstep]
    exact hs

theorem keeps_blame (token : Token) (cause : SemanticCause) :
    Keeps I (blame token cause : Analyzing α) :=
  keeps_throw _

theorem keeps_blameKeyword (keyword : Option Token) (cause : SemanticCause) :
    Keeps I (blameKeyword keyword cause : Analyzing α) := by
  cases keyword <;> exact keeps_throw _

theorem keeps_here (scope : Option Nat) : Keeps I (here scope) := by
  cases scope with
  | some i => exact keeps_pure i
  | none => exact keeps_throw _

theorem keeps_lookup (scope : Option Nat) (name : String) : Keeps I (lookup scope name) :=
  (keeps_here scope).bind fun _ => keeps_ask _

theorem keeps_checkOperator (op : Token) (operand : Option Symbol) :
    Keeps I (checkOperator op operand) := by
  unfold checkOperator
  cases operand with
  | none => exact keeps_pure _
  | some type => exact .ite (keeps_blame _ _) (.ite (keeps_blame _ _) (keeps_pure _))

theorem keeps_checkCondition (keyword : Option Token) (type : Option Symbol) :
    Keeps I (checkCondition keyword type) := by
  cases type with
  | none => exact keeps_pure _
  | some type => exact .ite (keeps_blameKeyword _ _) (keeps_pure _)

theorem keeps_agree (op : Token) (left right : Option Symbol) :
    Keeps I (agree op left right) := by
  unfold agree
  match left, right with
  | some l, some r => exact .ite (keeps_pure _) (keeps_blame _ _)
  | some l, none => exact keeps_pure _
  | none, right => exact keeps_pure _

theorem keeps_checkArguments (name : Token) (parameters : List Symbol)
    (arguments : List (Option Symbol)) :
    Keeps I (checkArguments name parameters arguments) := by
  refine .ite (keeps_blame _ _) (keeps_forM fun pair => ?_)
  obtain ⟨parameter, argument⟩ := pair
  cases argument with
  | none => exact keeps_pure _
  | some type => exact .ite (keeps_blame _ _) (keeps_pure _)

theorem keeps_typeOf (scope : Option Nat) (type : Token) : Keeps I (typeOf scope type) := by
  refine (keeps_lookup scope type.text).bind fun found => ?_
  cases found with
  | some symbol => exact keeps_pure _
  | none => exact keeps_blame _ _

theorem keeps_parameterSymbol
    (h : ∀ s, I s → I { s with arena := { s.arena with nextId := s.arena.nextId + 1 } })
    (p : Parameter) : Keeps I (parameterSymbol scope p) := by
  refine (keeps_typeOf scope p.type).bind fun type => keeps_changeWith fun s x a hs hstep => ?_
  cases hstep
  exact h s hs

theorem keeps_parameterSymbols (h : ∀ p, Keeps I (parameterSymbol scope p)) (known : List Symbol)
    (ps : List Parameter) : Keeps I (parameterSymbols scope known ps) := by
  induction ps generalizing known with
  | nil => exact keeps_pure _
  | cons p ps ih => exact .ite (keeps_blame _ _) ((h p).bind fun symbol => ih _)

theorem keeps_announce {i : Nat} {name : Token} {parameters : List Parameter}
    (h : Keeps I (putFunction i name.text parameters)) : Keeps I (announce i name parameters) := by
  rw [announce_eq]
  exact (keeps_ask _).bind fun scope => .ite (keeps_blame _ _) h

theorem keeps_putFunction {i : Nat} {name : String}
    (hparameter : ∀ p, Keeps I (parameterSymbol (some i) p))
    (hadd : ∀ symbols, Keeps I (change (·.addSymbol i (.function · name symbols))))
    (parameters : List Parameter) : Keeps I (putFunction i name parameters) :=
  (keeps_parameterSymbols hparameter [] parameters).bind fun symbols =>
    (hadd symbols).bind fun _ => keeps_pure _

theorem keeps_noteScope (h : ∀ text, Keeps I (note 1 text)) (scope : Option Nat) :
    Keeps I (noteScope scope) :=
  (keeps_here scope).bind fun _ => (keeps_ask _).bind fun _ => h _

theorem keeps_declareTarget (h : ∀ i, scope = some i → ∀ name type, Keeps I (declare i name type))
    (type : Option Token) (target op : Token) (valueType : Option Symbol) :
    Keeps I (declareTarget scope type target op valueType) := by
  cases scope with
  | none => exact keeps_throw _
  | some i =>
    have hdeclare (type : Option Symbol) : Keeps I (declare i target.text type) := h i rfl _ type
    refine (keeps_ask _).bind fun table => ?_
    cases type with
    | none => exact .ite (keeps_pure _) (hdeclare _)
    | some type =>
      refine (keeps_typeOf _ type).bind fun declared => ?_
      cases valueType with
      | none => exact hdeclare _
      | some given => exact .ite (hdeclare _) (keeps_blame _ _)

theorem after_ensuring {J : Analysis → Prop} {p : Analyzing α} {final : Analyzing Unit}
    (hp : After J (p s)) (hf : ∀ t, J t → After I (final t)) : After I (ensuring p final s) := by
  unfold ensuring
  cases hr : p s with
  | ok a t | error e t =>
    rw [hr] at hp
    have hf := hf t hp
    dsimp only
    cases hr' : final t with
    | ok _ u | error _ u =>
      rw [hr'] at hf
      exact hf

/-! ## Two walks -/

section

variable {p p' : Analyzing α}

/-- Two steps that come to the same and keep a property of the state, also if they fail. -/
abbrev Holding (I : Analysis → Prop) (p p' : Analyzing α) : Prop :=
  InStep (fun s s' => s' = s ∧ I s) (fun e e' s s' => e' = e ∧ s' = s ∧ I s) p p' Eq

theorem Holding.eq (h : Holding I p p') (hs : I s) : p s = p' s := by
  have h := h s s ⟨rfl, hs⟩
  generalize p s = r at h
  generalize p' s = r' at h
  cases h with
  | ok ha ht => rw [ha, ht.1]
  | error he => rw [he.1, he.2.1]

theorem Holding.keeps (h : Holding I p p') : Keeps I p := by
  intro s hs
  have h := h s s ⟨rfl, hs⟩
  generalize p s = r at h
  generalize p' s = r' at h
  cases h with
  | ok _ ht => exact ht.2
  | error he => exact he.2.2

theorem holding_of_eq (h : Keeps I p) (heq : ∀ s, I s → p s = p' s) : Holding I p p' := by
  rintro _ s ⟨rfl, hs⟩
  have h := h s hs
  rw [← heq s hs]
  cases hp : p s with
  | ok a t =>
    rw [hp] at h
    exact .ok rfl ⟨rfl, h⟩
  | error e t =>
    rw [hp] at h
    exact .error ⟨rfl, rfl, h⟩

theorem holding_of_keeps (h : Keeps I p) : Holding I p p :=
  holding_of_eq h fun _ _ => rfl

theorem holding_ensuring {final : Analyzing Unit} (h : Holding I p p') (hfinal : Keeps I final) :
    Holding I (ensuring p final) (ensuring p' final) := by
  refine holding_of_eq (fun s hs => after_ensuring (h.keeps s hs) hfinal) fun s hs => ?_
  unfold ensuring
  rw [h.eq hs]

end

/-- What a visit holds: all that its walk over the parts of a node and the steps that change scopes
hold. -/
theorem holding_visitNode {walk walk' : Node → Option Nat → Analyzing (Option Symbol)}
    (hwalk : ∀ node, Holding I (walk node scope) (walk' node scope))
    (hparameter : ∀ p, Keeps I (parameterSymbol scope p))
    (htarget : ∀ type target op valueType, Keeps I (declareTarget scope type target op valueType))
    (hfunction : ∀ name parameters body,
      Holding I (declareFunction scope name parameters (walk body))
        (declareFunction scope name parameters (walk' body)))
    (hprogram : ∀ name block, Holding I (visitNode walk (.program name block) scope)
      (visitNode walk' (.program name block) scope)) (node : Node) :
    Holding I (visitNode walk node scope) (visitNode walk' node scope) := by
  have hsame (nodes : List Node) : List.Forall₂ Eq nodes nodes :=
    List.forall₂_same.mpr fun _ _ => rfl
  have hlookup (name : String) : Holding I (lookup scope name) (lookup scope name) :=
    holding_of_keeps (keeps_lookup scope name)
  have hcheck (op : Token) (type : Option Symbol) :
      Holding I (checkOperator op type) (checkOperator op type) :=
    holding_of_keeps (keeps_checkOperator op type)
  have hnone {p p' : Analyzing Unit} (h : Holding I p p') :
      Holding I (p >>= fun _ => return (none : Option Symbol)) (p' >>= fun _ => return none) :=
    h.next fun _ => inStep_pure rfl
  cases node with
  | program name block => exact hprogram name block
  | compound children =>
    refine hnone (inStep_forM (hsame children) ?_)
    rintro child _ rfl
    exact (hwalk child).discard
  | noOp => exact inStep_pure rfl
  | intLiteral token => exact hlookup _
  | floatLiteral token => exact hlookup _
  | boolLiteral token => exact hlookup _
  | var name =>
    refine holding_of_keeps ((keeps_here scope).bind fun i => (keeps_ask _).bind fun found => ?_)
    cases found with
    | some symbol => exact keeps_pure _
    | none => exact keeps_blame _ _
  | unary op operand =>
    exact (hwalk operand).next fun type => (hcheck op type).next fun _ => inStep_pure rfl
  | binary op left right =>
    refine (hwalk left).next fun leftType => (hwalk right).next fun rightType => ?_
    refine InStep.next (holding_of_keeps (keeps_agree op leftType rightType)) fun type => ?_
    exact (hcheck op type).next fun _ => InStep.ite (fun _ => hlookup _) fun _ => inStep_pure rfl
  | assign type target op value =>
    exact (hwalk value).next fun valueType =>
      hnone (holding_of_keeps (htarget type target op valueType))
  | branch keyword condition whenTrue whenFalse =>
    rw [visitNode_branch, visitNode_branch]
    refine (hwalk condition).next fun type => ?_
    refine InStep.next (holding_of_keeps (keeps_checkCondition keyword type)) fun _ => ?_
    exact (hwalk whenTrue).discard.next fun _ => hnone (hwalk whenFalse).discard
  | ret value => exact hwalk value
  | typeName name =>
    exact holding_of_keeps ((keeps_typeOf scope name).bind fun _ => keeps_pure _)
  | parameter p => exact holding_of_keeps ((hparameter p).bind fun _ => keeps_pure _)
  | function name parameters body => exact hnone (hfunction name parameters body)
  | call name arguments =>
    refine InStep.bind (inStep_mapM (B := Eq) (hsame arguments) ?_) fun types types' htypes => ?_
    · rintro argument _ rfl
      exact hwalk argument
    rw [List.forall₂_eq_eq_eq] at htypes
    subst htypes
    refine (hlookup name.text).next fun found => ?_
    split
    · exact hnone (holding_of_keeps (keeps_checkArguments name _ types))
    · exact inStep_pure rfl
  | bare => exact holding_of_keeps (keeps_throw _)
  | missing => exact holding_of_keeps (keeps_throw _)

/-! ## Invariants -/

/-- A property that is kept by every step of an analysis that changes the state. -/
structure Invariant (I : Analysis → Prop) : Prop where
  note : ∀ level text, 0 < level → Keeps I (note level text)
  root : ∀ s i, I s → I { s with root := some i }
  last : ∀ s i, I s → I { s with lastScope := some i }
  count : ∀ s, I s → I { s with arena := { s.arena with nextId := s.arena.nextId + 1 } }
  builtins : ∀ i : Nat, Keeps I (change (·.addBuiltins i))
  announce : ∀ i name parameters, Keeps I (announce i name parameters)
  addVariable : ∀ (i : Nat) make, Keeps I (change (·.addVariable i make))
  insertVariable : ∀ (i : Nat) symbol, Keeps I (change (·.update i (·.insertVariable symbol)))
  push : ∀ name parent, Keeps I (changeWith (·.push name parent))
  close : ∀ i : Nat, Keeps I (changeWith (·.close i))

namespace Invariant

variable {walk walk' : Node → Option Nat → Analyzing (Option Symbol)} (h : Invariant I)

include h

theorem declare (i : Nat) (name : String) (type : Option Symbol) : Keeps I (declare i name type) :=
  (h.addVariable i _).bind fun _ => h.note 2 _ (by decide)

theorem noteScope (scope : Option Nat) : Keeps I (noteScope scope) :=
  keeps_noteScope (fun _ => h.note 1 _ (by decide)) scope

theorem leave (child : Nat) : Keeps I (leave child) := by
  refine keeps_get.bind fun s => ?_
  have hlast : Keeps I
      (modify fun s : Analysis => { s with lastScope := some child } : Analyzing PUnit) :=
    keeps_modify fun s hs => h.last s child hs
  refine .ite ?_ (h.close child).discard
  cases s.lastScope with
  | none => exact hlast
  | some last => exact .ite ((h.close last).discard.bind fun _ => hlast) hlast

theorem declareFunction {body : Node}
    (hwalk : ∀ child, Holding I (walk body (some child)) (walk' body (some child)))
    (scope : Option Nat) (name : Token) (parameters : List Parameter) :
    Holding I (declareFunction scope name parameters (walk body))
      (declareFunction scope name parameters (walk' body)) := by
  cases scope with
  | none => exact holding_of_keeps (keeps_throw _)
  | some i =>
    rw [declareFunction_eq, declareFunction_eq]
    refine InStep.next (holding_of_keeps (h.announce i name parameters)) fun symbols => ?_
    refine InStep.next (holding_of_keeps (h.note 2 _ (by decide))) fun _ => ?_
    refine InStep.next (holding_of_keeps (h.push _ _)) fun child => ?_
    refine holding_ensuring ?_ (h.leave child)
    refine InStep.next (holding_of_keeps (keeps_forM fun symbol => h.insertVariable child symbol))
      fun _ => ?_
    exact (hwalk child).discard.next fun _ => holding_of_keeps (h.noteScope _)

theorem visitNode (hwalk : ∀ node scope, Holding I (walk node scope) (walk' node scope))
    (node : Node) (scope : Option Nat) :
    Holding I (visitNode walk node scope) (visitNode walk' node scope) := by
  refine holding_visitNode (fun node => hwalk node scope) (keeps_parameterSymbol h.count)
    (keeps_declareTarget fun i _ => h.declare i)
    (fun name parameters body => h.declareFunction (hwalk body ·) scope name parameters)
    (fun name block => ?_) node
  refine InStep.next (holding_of_keeps (h.push _ _)) fun root => ?_
  refine InStep.next (holding_of_keeps (keeps_modify fun s hs => h.root s root hs)) fun _ => ?_
  refine InStep.next (holding_of_keeps (h.builtins root)) fun _ => ?_
  refine (hwalk block _).discard.next fun _ => ?_
  refine InStep.next (holding_of_keeps keeps_get) fun s => ?_
  exact InStep.next (holding_of_keeps (h.noteScope s.root)) fun _ => inStep_pure rfl

theorem visit (depth : Nat) (node : Node) (scope : Option Nat) : Keeps I (visit depth node scope) := by
  induction depth generalizing node scope with
  | zero => exact keeps_throw _
  | succ depth ih =>
    rw [visit_succ]
    exact (h.visitNode (fun node scope => holding_of_keeps (ih node scope)) node scope).keeps

theorem reaches {v w : Visit} (hvw : v.Reaches w) (hv : I v.state) : I w.state := by
  induction hvw with
  | refl => exact hv
  | @tail v w _ hmakes ih =>
    refine hmakes.of_passes (Q := fun _ _ s => I s) fun walk hwalk => ?_
    have hholding (node : Node) (scope : Option Nat) :
        Holding I (walk node scope) (Analyzing.visit w.depth node scope) := by
      rintro _ s ⟨rfl, hs⟩
      rw [hwalk node scope s hs]
      exact holding_of_keeps (h.visit w.depth node scope) s s ⟨rfl, hs⟩
    exact (h.visitNode hholding v.node v.scope).eq ih

end Invariant

end Analyzing

end LittleLang
