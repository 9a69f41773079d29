import LittleLang.Log
import LittleLang.Node
import LittleLang.Scope.Arena

/-!
# Analysis

The analysis walks a tree before it is run. It checks that identifiers are known where they are used
and that operands agree in type. A walk is given the scope that it stands in; the walk over an
expression gives the type of its value, or nothing where that cannot be known before the run (the
result of a function).
-/

namespace LittleLang

/-! ## The state -/

structure Analysis where
  arena : Arena := {}
  root : Option Nat := none
  /-- The scope of the function left last, if those are kept. -/
  lastScope : Option Nat := none
  /-- The scope of a function is kept open until the next one is left. -/
  keep : Bool := false
  log : Log

abbrev Analyzing := EStateM Failure Analysis

namespace Analyzing

/-- Runs a step and then a final one, also if the first failed. A failure of the final step wins. -/
def ensuring (step : Analyzing α) (final : Analyzing Unit) : Analyzing α := fun state =>
  match step state with
  | .ok a state => match final state with
    | .ok _ state => .ok a state
    | .error e state => .error e state
  | .error e state => match final state with
    | .ok _ state => .error e state
    | .error e state => .error e state

def note (level : Int) (text : String) : Analyzing Unit :=
  modify fun state => { state with log := state.log.write level text }

def ask (query : Arena → Except Failure α) : Analyzing α := do
  match query (← get).arena with
  | .ok a => return a
  | .error e => throw e

def change (step : Arena → Except Failure Arena) : Analyzing Unit := do
  let arena ← ask step
  modify fun state => { state with arena }

def changeWith (step : Arena → Except Failure (α × Arena)) : Analyzing α := do
  let (a, arena) ← ask step
  modify fun state => { state with arena }
  return a

def blame (token : Token) (cause : SemanticCause) : Analyzing α :=
  throw (.semantic cause token)

/-- Fails with a semantic error that blames a keyword. A tree need not have that. -/
def blameKeyword : Option Token → SemanticCause → Analyzing α
  | some token, cause => blame token cause
  | none, _ => throw .noToken

/-- The scope that a walk stands in. -/
def here : Option Nat → Analyzing Nat
  | some scope => return scope
  | none => throw (.scope .nowhere)

def lookup (scope : Option Nat) (name : String) : Analyzing (Option Symbol) := do
  let i ← here scope
  ask (·.lookup i name)

/-! ## Checks -/

def checkOperator (op : Token) (operand : Option Symbol) : Analyzing Unit := do
  match operand with
  | none => return
  | some type =>
    if op.kind.isArithmetic && type.name = boolType then
      blame op (.notForBool op.text)
    else if op.kind.isLogical && type.name ≠ boolType then
      blame op (.requiresBool op.text type.name)

/-- Checks that two operands agree in type, and gives the type they have. -/
def agree (op : Token) (left right : Option Symbol) : Analyzing (Option Symbol) := do
  match left, right with
  | some l, some r =>
    if l.same r then return some l
    else blame op (.mixedOperands l.name op.text r.name)
  | some l, none => return some l
  | none, right => return right

def checkArguments (name : Token) (parameters : List Symbol) (arguments : List (Option Symbol)) :
    Analyzing Unit := do
  if arguments.length ≠ parameters.length then
    blame name (.argumentCount name.text parameters.length arguments.length)
  else
    (parameters.zip arguments).forM fun (parameter, argument) => do
      match argument with
      | none => return
      | some type =>
        if !Symbol.same? (some type) parameter.type? then
          blame name (.argumentType parameter.name name.text parameter.typeName type.name)

/-! ## Declarations -/

def typeOf (scope : Option Nat) (type : Token) : Analyzing Symbol := do
  match ← lookup scope type.text with
  | some symbol => return symbol
  | none => blame type (.typeNotFound type.text)

def parameterSymbol (scope : Option Nat) (p : Parameter) : Analyzing Symbol := do
  let type ← typeOf scope p.type
  changeWith fun arena => .ok (arena.create (.var · p.name.text (some type)))

/-- The symbols of parameters, whose names have to differ. -/
def parameterSymbols (scope : Option Nat) : List Symbol → List Parameter → Analyzing (List Symbol)
  | known, [] => return known
  | known, p :: rest => do
    if known.any (·.name = p.name.text) then
      blame p.name (.duplicateParameter p.name.text)
    else
      let symbol ← parameterSymbol scope p
      parameterSymbols scope (known ++ [symbol]) rest

def declare (scope : Nat) (name : String) (type : Option Symbol) : Analyzing Unit := do
  change (·.addVariable scope (.var · name type))
  note 2 s!"declare {name}: {(type.map Symbol.name).getD unknown}"
where
  /-- Stands for a type that is not known. -/
  unknown : String := "?"

/-- Declares the variable of an assignment: always where a type is given, and otherwise with the
type of the value if the variable is new. -/
def declareTarget (scope : Option Nat) (type : Option Token) (target op : Token)
    (valueType : Option Symbol) : Analyzing Unit := do
  let i ← here scope
  let table ← ask (·.fetch i)
  match type with
  | some type =>
    let declared ← typeOf scope type
    match valueType with
    | some given =>
      if given.same declared then declare i target.text declared
      else blame op (.wrongValue given.name declared.name target.text)
    | none => declare i target.text declared
  | none =>
    if table.vars.contains target.text then return
    else declare i target.text valueType

/-- Leaves the scope of a function: closes it, or keeps it open in place of the one kept before. -/
def leave (scope : Nat) : Analyzing Unit := do
  let state ← get
  if state.keep then
    match state.lastScope with
    | some last => if state.arena.isOpen last then discard (changeWith (·.close last))
    | none => pure ()
    modify fun state => { state with lastScope := some scope }
  else discard (changeWith (·.close scope))

def noteScope (scope : Option Nat) : Analyzing Unit := do
  let i ← here scope
  note 1 (← ask (·.fetch i)).text

/-- Declares a function and walks over its body in a scope of its own. -/
def declareFunction (scope : Option Nat) (name : Token) (parameters : List Parameter)
    (walkBody : Option Nat → Analyzing (Option Symbol)) : Analyzing Unit := do
  let i ← here scope
  if (← ask (·.fetch i)).symbols.contains name.text then
    blame name (.alreadyDeclared name.text)
  let symbols ← parameterSymbols scope [] parameters
  change (·.addSymbol i (.function · name.text symbols))
  note 2 s!"define function {name.text}"
  let child ← changeWith (·.push name.text (some i))
  ensuring (do
    symbols.forM fun symbol => change (·.update child (·.insertVariable symbol))
    discard (walkBody (some child))
    noteScope (some child)) (leave child)

/-! ## The walk -/

/-- Walks over a tree of at most the given depth. -/
def visit : Nat → Node → Option Nat → Analyzing (Option Symbol)
  | 0, _, _ => throw .tooDeep
  | depth + 1, node, scope => do
    match node with
    | .program name block =>
      let root ← changeWith (·.push name none)
      modify fun state => { state with root := some root }
      change (·.addBuiltins root)
      discard (visit depth block (some root))
      noteScope (← get).root
      return none
    | .compound children =>
      children.forM fun child => discard (visit depth child scope)
      return none
    | .noOp => return none
    | .intLiteral _ => lookup scope intType
    | .floatLiteral _ => lookup scope floatType
    | .boolLiteral _ => lookup scope boolType
    | .var name =>
      let i ← here scope
      match ← ask (·.lookupVariable i name.text) with
      | some symbol => return symbol.type?
      | none => blame name (.identifierNotFound name.text)
    | .unary op operand =>
      let type ← visit depth operand scope
      checkOperator op type
      return type
    | .binary op left right =>
      let leftType ← visit depth left scope
      let rightType ← visit depth right scope
      let type ← agree op leftType rightType
      checkOperator op type
      if op.kind.isComparison then lookup scope boolType else return type
    | .assign type target op value =>
      let valueType ← visit depth value scope
      declareTarget scope type target op valueType
      return none
    | .branch keyword condition whenTrue whenFalse =>
      match ← visit depth condition scope with
      | some type =>
        if type.name ≠ boolType then blameKeyword keyword (.wrongCondition type.name)
      | none => pure ()
      discard (visit depth whenTrue scope)
      discard (visit depth whenFalse scope)
      return none
    | .ret value => visit depth value scope
    | .typeName name => some <$> typeOf scope name
    | .parameter p => some <$> parameterSymbol scope p
    | .function name parameters body =>
      declareFunction scope name parameters (visit depth body)
      return none
    | .call name arguments =>
      let types ← arguments.mapM (visit depth · scope)
      match ← lookup scope name.text with
      | some (.function _ _ parameters) => checkArguments name parameters types
      | _ => pure ()
      return none
    | .bare | .missing => throw (.unknownForm .analysis node.form?)

end Analyzing

/-! ## Analyses -/

namespace Analysis

def start (log : Log) : Analysis :=
  { log }

/-- Analyzes a tree of at most the given depth. What an earlier analysis left is forgotten, its log
apart. -/
def analyzeWithin (depth : Nat) (state : Analysis) (tree : Node) (keep : Bool) :
    Except Failure Unit × Analysis :=
  match Analyzing.visit depth tree none { log := state.log, keep } with
  | .ok _ state => (.ok (), state)
  | .error e state => (.error e, state)

def analyze (state : Analysis) (tree : Node) (keep : Bool) : Except Failure Unit × Analysis :=
  analyzeWithin maxDepth state tree keep

/-- The scope that an analysis leaves for inspection: that of the last function if it was kept, or
that of the program. -/
def scope (state : Analysis) : Except Failure (Option Scope) :=
  let index := if state.keep && state.lastScope.isSome then state.lastScope else state.root
  match index with
  | none => .ok none
  | some i => some <$> state.arena.fetch i

end Analysis

end LittleLang
