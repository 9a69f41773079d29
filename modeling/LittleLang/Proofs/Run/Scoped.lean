import LittleLang.Proofs.Run.Frames
import LittleLang.Proofs.Run.Moments
import LittleLang.Scope.Arena

/-!
# Records within scopes

A scope bounds a record if it has all the variables of the record. While a run goes on, every record
on the stack is bounded by a scope, if there is one for each record at the start, and if the targets
of assignments are variables of the scope for the record that they are carried out in
(`laws_within`). That holds before and after each call of a walk, whichever way it ends, so a
monitor that passes such calls on changes no run. -/

namespace LittleLang

/-! ## Targets of assignments -/

namespace Node

mutual

def targets : Node → List String
  | compound children => targetsOf children
  | assign _ target _ _ => [target.text]
  | branch _ _ whenTrue whenFalse => whenTrue.targets ++ whenFalse.targets
  | _ => []

def targetsOf : List Node → List String
  | [] => []
  | node :: rest => node.targets ++ targetsOf rest

end

theorem mem_targetsOf {ns : List Node} {x : String} :
    x ∈ targetsOf ns ↔ ∃ n ∈ ns, x ∈ n.targets := by
  induction ns with
  | nil => simp [targetsOf]
  | cons n ns ih => simp [targetsOf, ih]

end Node

/-! ## Scopes for records -/

/-- Which scopes there are for records of a kind and a name. -/
abbrev Scoping := RecordKind → String → Scope → Prop

/-- The scope is one for the record, and has all its variables. -/
structure Record.In (scoping : Scoping) (scope : Scope) (r : Record) : Prop where
  known : scoping r.kind r.name scope
  vars : ∀ x ∈ r.members.names, scope.vars.contains x = true

/-- There is a scope for the record that has all its variables. -/
def Record.Bounded (scoping : Scoping) (r : Record) : Prop :=
  ∃ scope, r.In scoping scope

/-- The records of calls of the function stay within a scope. -/
structure Function.In (scoping : Scoping) (name : String) (scope : Scope) (f : Function) :
    Prop where
  known : scoping .function name scope
  parameters : ∀ p ∈ f.parameters, scope.vars.contains p.name.text = true
  targets : ∀ x ∈ f.body.targets, scope.vars.contains x = true
  body : Running.Plain f.body

def Function.Bounded (scoping : Scoping) (name : String) (f : Function) : Prop :=
  ∃ scope, f.In scoping name scope

/-- The records on the stack are bounded by these scopes, and what is remembered of a program is
bounded by some. -/
structure Machine.Within (scoping : Scoping) (scopes : List Scope) (m : Machine) : Prop where
  stack : m.stack.Forall₂ (fun r scope => r.In scoping scope) scopes
  last : ∀ r ∈ m.lastProgram, r.kind = .program ∧ r.Bounded scoping

section

variable {scoping : Scoping}

theorem Record.In.set {scope : Scope} {r : Record} (h : r.In scoping scope) {x : String}
    (hx : scope.vars.contains x = true) (v : Value) : (r.set x v).In scoping scope := by
  refine ⟨h.known, fun y hy => ?_⟩
  have hy : y ∈ (r.members.insert x v).names := hy
  rw [Table.mem_names, Table.contains_insert] at hy
  by_cases hyx : y = x
  · exact hyx ▸ hx
  · exact h.vars y ((Table.mem_names _ _).mpr (by simpa [hyx] using hy))

namespace Machine.Within

variable {scopes : List Scope} {m : Machine}

theorem bounded (h : m.Within scoping scopes) : ∀ r ∈ m.stack, r.Bounded scoping := by
  obtain ⟨hs, -⟩ := h
  generalize m.stack = stack at hs
  induction hs with
  | nil => exact fun _ hr => by cases hr
  | cons hr _ ih => exact List.forall_mem_cons.mpr ⟨⟨_, hr⟩, ih⟩

/-- While a record is on top, its scope is there with those from before. -/
theorem encloses {record : Record} {scope : Scope} (h : m.Within scoping scopes)
    (hr : record.In scoping scope) :
    Running.Encloses (Within scoping scopes) (Within scoping (scope :: scopes)) m record where
  enter _ := ⟨.cons hr h.stack, h.last⟩
  leave {m' top} h' htop := by
    have hlast : ∀ r ∈ Running.remembered top m'.lastProgram,
        r.kind = .program ∧ r.Bounded scoping := by
      intro r hr
      unfold Running.remembered at hr
      split at hr
      · next hkind =>
        cases hr
        exact ⟨by simpa using ((Bool.and_eq_true _ _).mp hkind).1, h'.bounded _ (by simp [htop])⟩
      · exact h'.last r hr
    obtain ⟨log, hl | ⟨-, hl⟩⟩ := Running.leave_cases htop
    · rw [hl]
      exact ⟨h.stack, hlast⟩
    · rw [hl]
      exact ⟨h.stack, hlast⟩

end Machine.Within

end

/-- The targets of a node are variables of the scope for the record on top. -/
def Node.Aims (scopes : List Scope) (node : Node) : Prop :=
  ∀ scope ∈ scopes.head?, ∀ x ∈ node.targets, scope.vars.contains x = true

/-- The parts of a program declare functions and assign to variables within bounds. -/
def Node.Fits (scoping : Scoping) (scope : Scope) (parts : List Node) : Prop :=
  (∀ x ∈ targetsOf parts, scope.vars.contains x = true) ∧
    ∀ name parameters body, .function name parameters body ∈ parts →
      Function.Bounded scoping name.text ⟨parameters, body⟩

namespace Running

variable {scoping : Scoping} {scopes : List Scope}

/-! ## Calls -/

theorem mem_names_bound {parameters : List Parameter} {values : List Value} {x : String}
    (h : x ∈ (bound parameters values).names) : ∃ p ∈ parameters, p.name.text = x := by
  have hfold (pairs : List (Parameter × Value)) (t : Table Value)
      (h : (pairs.foldl (fun t pair => t.insert pair.1.name.text pair.2) t).contains x = true) :
      t.contains x = true ∨ ∃ pair ∈ pairs, pair.1.name.text = x := by
    induction pairs generalizing t with
    | nil => exact .inl h
    | cons pair pairs ih =>
      rcases ih _ h with h | ⟨pair', hmem, hx⟩
      · rw [Table.contains_insert] at h
        rcases (Bool.or_eq_true _ _).mp h with hx | h
        · exact .inr ⟨pair, List.mem_cons_self, (of_decide_eq_true hx).symm⟩
        · exact .inl h
      · exact .inr ⟨pair', List.mem_cons_of_mem _ hmem, hx⟩
  rw [Table.mem_names] at h
  obtain h | ⟨pair, hpair, hx⟩ := hfold _ _ h
  · cases h
  · exact ⟨pair.1, (List.of_mem_zip hpair).1, hx⟩

theorem in_callRecord {name : Token} {scope : Scope} {f : Function}
    (hf : f.In scoping name.text scope) (values : List Value) (level : Nat) :
    (callRecord name f values level).In scoping scope := by
  rw [callRecord_eq]
  refine ⟨hf.known, fun x hx => ?_⟩
  obtain ⟨p, hp, rfl⟩ := mem_names_bound hx
  exact hf.parameters p hp

/-! ## What is walked over -/

theorem aims_of_executed {n c : Node} (h : n.Aims scopes) (hn : Plain n)
    (hc : c ∈ executed n) : c.Aims scopes := by
  intro scope hscope x hx
  refine h scope hscope x ?_
  cases hn with
  | compound => exact Node.mem_targetsOf.mpr ⟨c, hc, hx⟩
  | branch =>
    simp only [executed, List.mem_cons, List.not_mem_nil, or_false] at hc
    rcases hc with rfl | rfl
    · exact List.mem_append_left _ hx
    · exact List.mem_append_right _ hx
  | expression h => cases h <;> cases hc
  | _ => cases hc

/-- Statements with targets within bounds, and functions for whose calls there are scopes. -/
abbrev Fitting (scoping : Scoping) (scopes : List Scope) : Node → Prop :=
  Block (fun n => n.Aims scopes) (Function.Bounded scoping)

theorem fitting_of_fits {scope : Scope} {parts : List Node}
    (hparts : ∀ n ∈ parts, n.IsPart fun _ => True) (hfits : Node.Fits scoping scope parts) :
    Fitting scoping [scope] (.compound parts) := by
  refine .parts fun n hn => ?_
  cases hparts n hn with
  | function => exact .function (hfits.2 _ _ _ hn)
  | statements h =>
    refine .statement h fun scope' hscope x hx => ?_
    cases hscope
    exact hfits.1 x (Node.mem_targetsOf.mpr ⟨n, hn, hx⟩)

/-- The scopes are the world that a walk goes on in, and a call adds one. -/
theorem laws_within (scoping : Scoping) : Laws (Function.Bounded scoping) (fun _ => True)
    (Machine.Within scoping) (Fitting scoping) (Node.IsExpression fun _ => True) where
  runtime _ _ := trivial
  tooLong := trivial
  beyondFloat := trivial
  tooDeep := trivial
  own _ _ := trivial
  statement h := h.layer fun _ _ => aims_of_executed
  expression := layer_expression
  self := Block.self
  remark _ _ h := ⟨h.stack, h.last⟩
  noRecord _ _ _ _ := trivial
  store {scopes _ target _ _} m r rest v hn h hs := by
    have hstack := h.stack
    rw [hs] at hstack
    cases hstack with
    | cons hr hrest =>
      cases hn with
      | statement _ haims =>
        have htarget := haims _ rfl target.text (by simp [Node.targets])
        exact ⟨.cons (hr.set htarget v) hrest, h.last⟩
  declared := Block.declared
  declare _ _ _ h := ⟨h.stack, h.last⟩
  enterCall {scopes _ f} m hf h := by
    obtain ⟨scope, hf⟩ := hf
    refine ⟨scope :: scopes, .statement hf.body fun scope' hscope => ?_,
      fun values => h.encloses (in_callRecord hf values _)⟩
    cases hscope
    exact hf.targets
  enterProgram _ h := absurd h Block.ne_program

/-! ## Monitors -/

/-- The monitor passes on a call before and after which all records are bounded. -/
def Monitor.PassesBounded (scoping : Scoping) (monitor : Monitor) : Prop :=
  ∀ m r, (∀ record ∈ m.stack, record.Bounded scoping) →
    (∀ record ∈ (after r).stack, record.Bounded scoping) → monitor m r = r

/-! ## Programs -/

/-- A program runs within bounds, and what is remembered of it is bounded. -/
theorem bounded_program {monitor : Monitor} (hm : monitor.PassesBounded scoping)
    {parts : List Node} (hparts : ∀ n ∈ parts, n.IsPart fun _ => True) {scope : Scope}
    (hfits : Node.Fits scoping scope parts) {name : String} (hscope : scoping .program name scope)
    {start : Machine} (hstack : start.stack = []) (hfunctions : start.functions = {}) (depth : Nat) :
    executeUnder monitor (depth + 1) (.program name (.compound parts)) start =
        execute (depth + 1) (.program name (.compound parts)) start ∧
      ∀ r ∈ (after (execute (depth + 1) (.program name (.compound parts)) start)).lastProgram,
        r.kind = .program ∧ r.Bounded scoping := by
  have hwithin : ({ start with lastProgram := none } : Machine).Within scoping [] :=
    ⟨hstack ▸ .nil, fun _ hr => by cases hr⟩
  have hrecord : Record.In scoping scope { kind := .program, name, level := 1 } :=
    ⟨hscope, fun x hx => by cases hx⟩
  have hwalk := ((laws_within scoping).under monitor
    (fun _ m r hbefore _ hafter => hm m r hbefore.bounded hafter.bounded) depth).1
  have hended := ended_start (m := start) name (laws_within scoping).tooLong
    (hstack ▸ fun _ hr => by cases hr) (hfunctions ▸ fun _ _ hf => by cases hf)
    (hwithin.encloses hrecord) fun base =>
      Contract.weaken (hwalk [scope] base _ (fitting_of_fits hparts hfits)) fun _ _ => trivial
  obtain ⟨heq, -, hafter⟩ := hended.same
  rw [execute_succ, executeUnder]
  refine ⟨?_, hafter.last⟩
  show monitor start (Running.start name (executeUnder monitor depth (.compound parts)) start) = _
  rw [heq]
  exact hm _ _ (hstack ▸ fun _ hr => by cases hr) hafter.bounded

end Running

end LittleLang
