import LittleLang.Analysis

/-!
# The walk in parts

The walk of the analysis is restated one node at a time (`visitNode`), so that a property of it is
proved with one case for each form of a node. Two of its forms are taken apart further. The
declaration of a function (`declareFunction_eq`) puts the symbol of the function into the current
scope (`announce`) and walks over its body in a scope of its own (`enclose`). The visit of an `if`
(`visitNode_branch`) checks the type of its condition before it goes on (`checkCondition`). In both,
what follows a check that can refuse a node stands once, and so does the proof about it. -/

namespace LittleLang.Analyzing

variable {α β : Type}

/-! ## One node at a time -/

/-- What the walk does at a node, given how it goes on. -/
def visitNode (visit : Node → Option Nat → Analyzing (Option Symbol)) (node : Node)
    (scope : Option Nat) : Analyzing (Option Symbol) := do
  match node with
  | .program name block =>
    let root ← changeWith (·.push name none)
    modify fun state => { state with root := some root }
    change (·.addBuiltins root)
    discard (visit block (some root))
    noteScope (← get).root
    return none
  | .compound children =>
    children.forM fun child => discard (visit child scope)
    return none
  | .noOp => return none
  | .intLiteral _ => lookup scope intType
  | .floatLiteral _ => lookup scope floatType
  | .boolLiteral _ => lookup scope boolType
  | .var name =>
    let i ← here scope
    match ← ask (·.lookupVariable i name.text) with
    | some symbol => return symbol.type?
    | none => blame name (.identifierNotFound name.text)
  | .unary op operand =>
    let type ← visit operand scope
    checkOperator op type
    return type
  | .binary op left right =>
    let leftType ← visit left scope
    let rightType ← visit right scope
    let type ← agree op leftType rightType
    checkOperator op type
    if op.kind.isComparison then lookup scope boolType else return type
  | .assign type target op value =>
    let valueType ← visit value scope
    declareTarget scope type target op valueType
    return none
  | .branch keyword condition whenTrue whenFalse =>
    match ← visit condition scope with
    | some type =>
      if type.name ≠ boolType then blameKeyword keyword (.wrongCondition type.name)
    | none => pure ()
    discard (visit whenTrue scope)
    discard (visit whenFalse scope)
    return none
  | .ret value => visit value scope
  | .typeName name => some <$> typeOf scope name
  | .parameter p => some <$> parameterSymbol scope p
  | .function name parameters body =>
    declareFunction scope name parameters (visit body)
    return none
  | .call name arguments =>
    let types ← arguments.mapM (visit · scope)
    match ← lookup scope name.text with
    | some (.function _ _ parameters) => checkArguments name parameters types
    | _ => pure ()
    return none
  | .bare | .missing => throw (.unknownForm .analysis node.form?)

theorem visit_succ (depth : Nat) (node : Node) (scope : Option Nat) :
    visit (depth + 1) node scope = visitNode (visit depth) node scope := by
  unfold visit visitNode
  cases node <;> rfl

def checkCondition (keyword : Option Token) : Option Symbol → Analyzing Unit
  | none => return
  | some type =>
    if type.name ≠ boolType then blameKeyword keyword (.wrongCondition type.name) else return

theorem visitNode_branch (visit : Node → Option Nat → Analyzing (Option Symbol))
    (keyword : Option Token) (condition whenTrue whenFalse : Node) (scope : Option Nat) :
    visitNode visit (.branch keyword condition whenTrue whenFalse) scope = (do
      checkCondition keyword (← visit condition scope)
      discard (visit whenTrue scope)
      discard (visit whenFalse scope)
      return none) := by
  refine bind_congr fun type => ?_
  cases type with
  | none => rfl
  | some type =>
    unfold checkCondition
    dsimp only
    split <;> rfl

/-! ## Functions -/

/-- Puts the symbol of a function into a scope, and gives the symbols of its parameters. -/
def announce (i : Nat) (name : Token) (parameters : List Parameter) : Analyzing (List Symbol) := do
  if (← ask (·.fetch i)).symbols.contains name.text then
    blame name (.alreadyDeclared name.text)
  let symbols ← parameterSymbols (some i) [] parameters
  change (·.addSymbol i (.function · name.text symbols))
  return symbols

def putFunction (i : Nat) (name : String) (parameters : List Parameter) :
    Analyzing (List Symbol) := do
  let symbols ← parameterSymbols (some i) [] parameters
  change (·.addSymbol i (.function · name symbols))
  return symbols

theorem announce_eq (i : Nat) (name : Token) (parameters : List Parameter) :
    announce i name parameters =
      ask (·.fetch i) >>= fun scope =>
        if scope.symbols.contains name.text then blame name (.alreadyDeclared name.text)
        else putFunction i name.text parameters :=
  rfl

/-- Puts the parameters of a function into its scope and walks over its body. -/
def walkInside (symbols : List Symbol) (walkBody : Option Nat → Analyzing (Option Symbol))
    (child : Nat) : Analyzing Unit := do
  symbols.forM fun symbol => change (·.update child (·.insertVariable symbol))
  discard (walkBody (some child))
  noteScope (some child)

def enclose (i : Nat) (name : String) (symbols : List Symbol)
    (walkBody : Option Nat → Analyzing (Option Symbol)) : Analyzing Unit := do
  note 2 s!"define function {name}"
  let child ← changeWith (·.push name (some i))
  ensuring (walkInside symbols walkBody child) (leave child)

theorem declareFunction_eq (i : Nat) (name : Token) (parameters : List Parameter)
    (walkBody : Option Nat → Analyzing (Option Symbol)) :
    declareFunction (some i) name parameters walkBody =
      announce i name parameters >>= fun symbols => enclose i name.text symbols walkBody := by
  unfold declareFunction announce here
  simp only [pure_bind, bind_assoc]
  refine bind_congr fun scope => ?_
  split
  · rfl
  · simp only [bind_assoc, pure_bind]
    rfl

/-! ## Sequences -/

section

variable {step : Analyzing α}

theorem bind_eq_ok {f : α → Analyzing β} {state state'' : Analysis} {b : β}
    (h : (step >>= f) state = .ok b state'') :
    ∃ a state', step state = .ok a state' ∧ f a state' = .ok b state'' := by
  simp only [bind, EStateM.bind] at h
  cases hs : step state with
  | error e state' =>
    rw [hs] at h
    cases h
  | ok a state' =>
    rw [hs] at h
    exact ⟨a, state', rfl, h⟩

theorem bind_of_ok {f : α → Analyzing β} {state state' : Analysis} {a : α}
    (h : step state = .ok a state') : (step >>= f) state = f a state' := by
  simp only [bind, EStateM.bind, h]

theorem bind_of_error {f : α → Analyzing β} {state state' : Analysis} {e : Failure}
    (h : step state = .error e state') : (step >>= f) state = .error e state' := by
  simp only [bind, EStateM.bind, h]

theorem ensuring_eq_ok {final : Analyzing Unit} {state state'' : Analysis} {a : α}
    (h : ensuring step final state = .ok a state'') :
    ∃ state', step state = .ok a state' ∧ final state' = .ok () state'' := by
  unfold ensuring at h
  cases hs : step state with
  | error e state' =>
    rw [hs] at h
    cases hf : final state' <;> simp [hf] at h
  | ok b state' =>
    rw [hs] at h
    cases hf : final state' with
    | error e state'' => simp [hf] at h
    | ok _ state'' =>
      simp only [hf, EStateM.Result.ok.injEq] at h
      obtain ⟨rfl, rfl⟩ := h
      exact ⟨state', rfl, hf⟩

end

end LittleLang.Analyzing
