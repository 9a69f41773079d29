import LittleLang.Proofs.Analysis.Walk

/-!
# Analysis under further rules

An analysis accepts more than a run can bear: a variable may be assigned a value of another type,
and one that is declared in a branch counts as declared after it. `Rules` names what an analysis
could refuse besides, and `visitUnder` is the walk that does. It is the walk of the analysis with a
look at each node on the way; the look changes nothing, so where the rules are kept the walk ends as
it does without them (`refines_visitUnder`). -/

namespace LittleLang.Analyzing

variable {α β : Type}

/-! ## Rules -/

structure Rules where
  /-- An assignment to a variable that is known has the type recorded for it. -/
  stable : Bool := false
  /-- A variable that is assigned inside of an `if` is known when the outermost one is visited. -/
  settled : Bool := false

def aside (step : Analyzing α) : Analyzing α := fun state =>
  match step state with
  | .ok a _ => .ok a state
  | .error e _ => .error e state

def assignedType (visit : Node → Option Nat → Analyzing (Option Symbol)) (scope : Option Nat)
    (type : Option Token) (value : Node) : Analyzing (Option Symbol) :=
  match type with
  | some type => some <$> typeOf scope type
  | none => visit value scope

namespace Rules

/-- Checks an assignment. `known` are the variables from before the outermost `if` around it. -/
def checkAssignment (rules : Rules) (visit : Node → Option Nat → Analyzing (Option Symbol))
    (known : Option (List String)) (scope : Option Nat) (type : Option Token) (target op : Token)
    (value : Node) : Analyzing Unit := do
  if rules.settled && known.any (!·.contains target.text) then
    blame target (.identifierNotFound target.text)
  if rules.stable then
    match ← ask (·.lookupVariable (← here scope) target.text) with
    | none => return
    | some symbol =>
      let given ← assignedType visit scope type value
      if !Symbol.same? given symbol.type? then
        blame op (.wrongValue ((given.map Symbol.name).getD "") symbol.typeName target.text)

/-- Looks at a node, and gives the variables from before the outermost `if` around what it is made
of. -/
def inspect (rules : Rules) (visit : Node → Option Nat → Analyzing (Option Symbol))
    (known : Option (List String)) (node : Node) (scope : Option Nat) :
    Analyzing (Option (List String)) := do
  match node, known with
  | .branch .., none =>
    if rules.settled then return some (← ask (·.fetch (← here scope))).vars.names
    else return none
  | .assign type target op value, known =>
    rules.checkAssignment visit known scope type target op value
    return known
  | _, known => return known

end Rules

/-- Walks over a tree of at most the given depth, and refuses what breaks the rules. -/
def visitUnder (rules : Rules) :
    Nat → Option (List String) → Node → Option Nat → Analyzing (Option Symbol)
  | 0, _, _, _ => throw .tooDeep
  | depth + 1, known, node, scope => do
    let known ← aside (rules.inspect (visit depth) known node scope)
    visitNode (visitUnder rules depth known) node scope

/-- The analysis of a tree accepts it and finds the rules kept. -/
def Rules.passes (rules : Rules) (depth : Nat) (log : Log) (tree : Node) : Bool :=
  match visitUnder rules depth none tree none { log } with
  | .ok _ _ => true
  | .error _ _ => false

/-! ## The walk with and without rules -/

/-- Where the first step succeeds, the second does the same. -/
def Refines (step step' : Analyzing α) : Prop :=
  ∀ state a state', step state = .ok a state' → step' state = .ok a state'

section

variable {step step' : Analyzing α}

theorem Refines.refl (step : Analyzing α) : Refines step step :=
  fun _ _ _ h => h

theorem Refines.bind {f f' : α → Analyzing β} (h : Refines step step')
    (hf : ∀ a, Refines (f a) (f' a)) : Refines (step >>= f) (step' >>= f') := by
  intro state b state'' hb
  obtain ⟨a, state', hs, hb⟩ := bind_eq_ok hb
  rw [bind_of_ok (h _ _ _ hs)]
  exact hf a _ _ _ hb

theorem Refines.discard (h : Refines step step') :
    Refines (discard step : Analyzing Unit) (discard step') :=
  h.bind fun _ => .refl _

theorem refines_forM {f f' : α → Analyzing PUnit} (as : List α)
    (h : ∀ a, Refines (f a) (f' a)) : Refines (as.forM f) (as.forM f') := by
  induction as with
  | nil => exact .refl _
  | cons a as ih => exact (h a).bind fun _ => ih

theorem refines_mapM {f f' : α → Analyzing β} (as : List α) (h : ∀ a, Refines (f a) (f' a)) :
    Refines (as.mapM f) (as.mapM f') := by
  induction as with
  | nil => exact .refl _
  | cons a as ih =>
    rw [List.mapM_cons, List.mapM_cons]
    exact (h a).bind fun b => ih.bind fun bs => .refl _

theorem Refines.ensuring (h : Refines step step') (final : Analyzing Unit) :
    Refines (ensuring step final) (ensuring step' final) := by
  intro state a state'' ha
  obtain ⟨state', hs, hf⟩ := ensuring_eq_ok ha
  simp only [Analyzing.ensuring, h _ _ _ hs, hf]

theorem aside_eq_ok {state state' : Analysis} {a : α} (h : aside step state = .ok a state') :
    state' = state ∧ ∃ state'', step state = .ok a state'' := by
  unfold aside at h
  cases hs : step state with
  | error e state'' =>
    rw [hs] at h
    cases h
  | ok b state'' =>
    rw [hs] at h
    cases h
    exact ⟨rfl, state'', rfl⟩

end

theorem refines_enclose {walk walk' : Option Nat → Analyzing (Option Symbol)}
    (h : ∀ scope, Refines (walk scope) (walk' scope)) (i : Nat) (name : String)
    (symbols : List Symbol) :
    Refines (enclose i name symbols walk) (enclose i name symbols walk') := by
  refine (Refines.refl _).bind fun _ => (Refines.refl _).bind fun child => Refines.ensuring ?_ _
  exact (Refines.refl _).bind fun _ => (h _).discard.bind fun _ => .refl _

theorem refines_declareFunction {walk walk' : Option Nat → Analyzing (Option Symbol)}
    (h : ∀ scope, Refines (walk scope) (walk' scope)) (scope : Option Nat) (name : Token)
    (parameters : List Parameter) :
    Refines (declareFunction scope name parameters walk)
      (declareFunction scope name parameters walk') := by
  cases scope with
  | none => exact .refl _
  | some i =>
    rw [declareFunction_eq, declareFunction_eq]
    exact (Refines.refl _).bind fun symbols => refines_enclose h i name.text symbols

theorem refines_visitNode {walk walk' : Node → Option Nat → Analyzing (Option Symbol)}
    (h : ∀ node scope, Refines (walk node scope) (walk' node scope)) (node : Node)
    (scope : Option Nat) : Refines (visitNode walk node scope) (visitNode walk' node scope) := by
  cases node with
  | program name block =>
    refine (Refines.refl _).bind fun root => (Refines.refl _).bind fun _ => ?_
    exact (Refines.refl _).bind fun _ => (h _ _).discard.bind fun _ => .refl _
  | compound children =>
    exact (refines_forM children fun child => (h child scope).discard).bind fun _ => .refl _
  | unary op operand => exact (h _ _).bind fun _ => .refl _
  | binary op left right => exact (h _ _).bind fun _ => (h _ _).bind fun _ => .refl _
  | assign type target op value => exact (h _ _).bind fun _ => .refl _
  | branch keyword condition whenTrue whenFalse =>
    rw [visitNode_branch, visitNode_branch]
    refine (h condition scope).bind fun type => (Refines.refl _).bind fun _ => ?_
    exact (h _ _).discard.bind fun _ => (h _ _).discard.bind fun _ => .refl _
  | ret value => exact h _ _
  | function name parameters body =>
    exact (refines_declareFunction (h body) scope name parameters).bind fun _ => .refl _
  | call name arguments => exact (refines_mapM arguments fun a => h a scope).bind fun _ => .refl _
  | _ => exact .refl _

theorem refines_visitUnder (rules : Rules) (depth : Nat) (known : Option (List String))
    (node : Node) (scope : Option Nat) :
    Refines (visitUnder rules depth known node scope) (visit depth node scope) := by
  induction depth generalizing known node scope with
  | zero => exact .refl _
  | succ depth ih =>
    intro state type state' h
    rw [visit_succ]
    unfold visitUnder at h
    obtain ⟨known', state₁, hi, hv⟩ := bind_eq_ok h
    obtain ⟨rfl, -⟩ := aside_eq_ok hi
    exact refines_visitNode (ih known') node scope _ _ _ hv

/-- A tree that passes is accepted by the analysis, which ends as the walk under the rules does. -/
theorem Rules.exists_of_passes {rules : Rules} {depth : Nat} {log : Log} {tree : Node}
    (h : rules.passes depth log tree = true) :
    ∃ type state, visitUnder rules depth none tree none { log } = .ok type state ∧
      (Analysis.start log).analyzeWithin depth tree false = (.ok (), state) := by
  unfold Rules.passes at h
  cases hv : visitUnder rules depth none tree none { log } with
  | error e state => simp [hv] at h
  | ok type state =>
    refine ⟨type, state, rfl, ?_⟩
    have hv := refines_visitUnder rules depth none tree none _ _ _ hv
    unfold Analysis.analyzeWithin
    rw [show visit depth tree none { log := (Analysis.start log).log, keep := false } = _ from hv]

theorem visit_of_analyzeWithin {depth : Nat} {state state' : Analysis} {tree : Node} {keep : Bool}
    (h : state.analyzeWithin depth tree keep = (.ok (), state')) :
    ∃ type, visit depth tree none { log := state.log, keep } = .ok type state' := by
  unfold Analysis.analyzeWithin at h
  cases hv : visit depth tree none { log := state.log, keep } with
  | ok type s =>
    rw [hv] at h
    cases h
    exact ⟨type, rfl⟩
  | error e s =>
    rw [hv] at h
    cases h

theorem visitUnder_free (depth : Nat) (known : Option (List String)) (node : Node)
    (scope : Option Nat) : visitUnder {} depth known node scope = visit depth node scope := by
  induction depth generalizing known node scope with
  | zero => rfl
  | succ depth ih =>
    have hi : aside (Rules.inspect {} (visit depth) known node scope) = pure known := by
      unfold Rules.inspect
      split <;> rfl
    unfold visitUnder
    rw [hi, pure_bind, visit_succ]
    congr 1
    funext node scope
    exact ih known node scope

end LittleLang.Analyzing
