import LittleLang.Proofs.Run.Steps

/-!
# One node at a time

`executeNode` and `evaluateNode` say what the walk does at one node, given how it goes on; the walk
is these, nested to a depth (`execute_succ`, `evaluate_succ`). So a walk can be watched: a monitor
looks at each call of the walk when it ends, the machine before it and its outcome, and gives the
outcome to go on with. -/

namespace LittleLang

namespace Running

open LittleLang.Number

def executeNode (evaluate execute : Node → Running Value) (node : Node) : Running Value := do
  match node with
  | .program name block =>
    modify fun m => { m with lastProgram := none }
    activate { kind := .program, name, level := 1 } (execute block)
  | .compound children => children.foldlM (fun _ child => execute child) .none
  | .noOp => return .none
  | .assign _ target _ value =>
    let v ← evaluate value
    store target.text v
    let text ← number v.text
    note 2 s!"assign {target.text} = {text}"
    return .none
  | .branch _ condition whenTrue whenFalse =>
    let v ← evaluate condition
    let text ← number v.text
    note 3 s!"if condition -> {text}"
    if v.isTruthy then execute whenTrue else execute whenFalse
  | .ret value => throw (.returned (← evaluate value))
  | .function name parameters body =>
    modify fun m => { m with functions := m.functions.insert name.text ⟨parameters, body⟩ }
    note 2 s!"define function {name.text}"
    return .none
  | node => evaluate node

/-- What an assignment does with its value. -/
def assign (target : Token) (v : Value) : Running Value := do
  store target.text v
  let text ← number v.text
  note 2 s!"assign {target.text} = {text}"
  return .none

def declare (name : Token) (parameters : List Parameter) (body : Node) : Running Value := do
  modify fun m => { m with functions := m.functions.insert name.text ⟨parameters, body⟩ }
  note 2 s!"define function {name.text}"
  return .none

def start (name : String) (block : Running Value) : Running Value := do
  modify fun m => { m with lastProgram := none }
  activate { kind := .program, name, level := 1 } block

/-- What `evaluate` does with a right operand, given the left one. -/
def evaluateRight (op : Token) (a : Value) (right : Running Value) : Running Value := do
  match op.kind, a with
  | .andAnd, .bool true => right
  | .andAnd, a => return a
  | .orOr, .bool true => return .bool true
  | .orOr, _ => right
  | _, a => lift (Value.applyBinary op a (← right))

def evaluateNode (evaluate : Node → Running Value) (call : Token → List Node → Running Value)
    (node : Node) : Running Value := do
  match node with
  | .intLiteral token => return .int (← number (readInt token.text))
  | .floatLiteral token => return .float (← number (readFloat token.text))
  | .boolLiteral token => return .bool (← number (readBool token.text))
  | .var name => load name
  | .unary op operand => lift (Value.applyUnary op (← evaluate operand))
  | .binary op left right => evaluateRight op (← evaluate left) (evaluate right)
  | .call name arguments => call name arguments
  | node => fail (.unknownForm .evaluation node.form?)

theorem execute_succ (depth : Nat) (node : Node) :
    execute (depth + 1) node = executeNode (evaluate depth) (execute depth) node := by
  unfold execute executeNode
  cases node <;> rfl

theorem evaluate_succ (depth : Nat) (node : Node) :
    evaluate (depth + 1) node =
      evaluateNode (evaluate depth) (call (evaluate depth) (execute depth)) node := by
  unfold evaluate evaluateNode
  cases node <;> rfl

/-! ## What a node is made of -/

/-- The nodes that `execute` goes on to execute. -/
def executed : Node → List Node
  | .program _ block => [block]
  | .compound children => children
  | .branch _ _ whenTrue whenFalse => [whenTrue, whenFalse]
  | _ => []

/-- The nodes that `execute` goes on to evaluate. -/
def evaluated : Node → List Node
  | .assign _ _ _ value | .ret value => [value]
  | .branch _ condition _ _ => [condition]
  | .program .. | .compound _ | .noOp | .function .. => []
  | node => [node]

/-- The nodes that `evaluate` goes on to evaluate. -/
def operands : Node → List Node
  | .unary _ operand => [operand]
  | .binary _ left right => [left, right]
  | .call _ arguments => arguments
  | _ => []

/-- The failure of `evaluate` that lies in the node itself. -/
def ownFailure? : Node → Option Failure
  | .intLiteral token => failure? (readInt token.text)
  | .floatLiteral token => failure? (readFloat token.text)
  | .boolLiteral token => failure? (readBool token.text)
  | .var _ | .unary .. | .binary .. | .call .. => none
  | node => some (.unknownForm .evaluation node.form?)
where
  failure? {α : Type} : Except NumberFault α → Option Failure
    | .ok _ => none
    | .error e => some (.number e)

theorem eq_of_ownFailure {node : Node} {e : Failure} (h : ownFailure? node = some e) :
    (∃ fault, e = .number fault) ∨ e = .unknownForm .evaluation node.form? := by
  have hread {α : Type} {r : Except NumberFault α} (h : ownFailure?.failure? r = some e) :
      ∃ fault, e = .number fault := by
    cases r with
    | ok a => cases h
    | error fault => exact ⟨fault, (Option.some.inj h).symm⟩
  unfold ownFailure? at h
  split at h
  · exact .inl (hread h)
  · exact .inl (hread h)
  · exact .inl (hread h)
  all_goals cases h
  exact .inr rfl

/-! ## Messages of a walk -/

/-- The messages of a walk other than those about records. -/
inductive Remark : Int → String → Prop where
  | assign (target text : String) : Remark 2 s!"assign {target} = {text}"
  | condition (text : String) : Remark 3 s!"if condition -> {text}"
  | call (name shown : String) : Remark 3 s!"call {name}({shown})"
  | define (name : String) : Remark 2 s!"define function {name}"

theorem Remark.level_pos {level : Int} {text : String} (h : Remark level text) : 0 < level := by
  cases h <;> decide

/-! ## Monitors -/

/-- Looks at a call when it ends. -/
abbrev Monitor := Machine → EStateM.Result Stop Machine Value → EStateM.Result Stop Machine Value

def watch (monitor : Monitor) (step : Running Value) : Running Value :=
  fun m => monitor m (step m)

mutual

/-- `execute` with a monitor on each call of the walk. -/
def executeUnder (monitor : Monitor) : Nat → Node → Running Value
  | 0, _ => watch monitor (fail .tooDeep)
  | depth + 1, node =>
    watch monitor (executeNode (evaluateUnder monitor depth) (executeUnder monitor depth) node)

def evaluateUnder (monitor : Monitor) : Nat → Node → Running Value
  | 0, _ => watch monitor (fail .tooDeep)
  | depth + 1, node =>
    watch monitor (evaluateNode (evaluateUnder monitor depth)
      (fun name arguments => watch monitor
        (call (evaluateUnder monitor depth) (executeUnder monitor depth) name arguments)) node)

end

end Running

end LittleLang
