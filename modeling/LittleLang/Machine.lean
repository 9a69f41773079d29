import LittleLang.Log
import LittleLang.Node
import LittleLang.Record
import LittleLang.Value.Operators

/-!
# Running a tree

The machine walks over a tree and carries it out. Variables live in activation records on a stack:
one for the program and one for each call under way. A record is taken off the stack again however
what it belongs to ends.
-/

namespace LittleLang

open LittleLang.Number

/-! ## The machine -/

structure Function where
  parameters : List Parameter
  body : Node
  deriving Repr

structure Machine where
  stack : CallStack := []
  functions : Table Function := {}
  /-- The record of the last program, once that has ended. -/
  lastProgram : Option Record := none
  log : Log

/-- Why a walk stops before its end: a value is returned, or something failed. -/
inductive Stop where
  | returned (v : Value)
  | failed (e : Failure)
  deriving Repr

/-- A step of a run. -/
abbrev Running := EStateM Stop Machine

namespace Running

/-! ## Steps -/

def fail (e : Failure) : Running α :=
  throw (.failed e)

def blame (token : Token) (cause : RuntimeCause) : Running α :=
  fail (.runtime cause token)

def lift : Except Failure α → Running α
  | .ok a => return a
  | .error e => fail e

def number : Except NumberFault α → Running α
  | .ok a => return a
  | .error e => fail (.number e)

def note (level : Int) (text : String) : Running Unit :=
  modify fun m => { m with log := m.log.write level text }

/-- Whether the log shows records. -/
def isTracing : Running Bool :=
  return (← get).log.enabled 1

/-- Sets a variable in the record on top of the stack. -/
def store (name : String) (v : Value) : Running Unit := do
  let m ← get
  match m.stack with
  | [] => fail .noRecord
  | record :: rest => set { m with stack := record.set name v :: rest }

def load (name : Token) : Running Value := do
  match (← get).stack.head?.bind (·.members.get? name.text) with
  | some v => return v
  | none => blame name (.variableNotFound name.text)

/-! ## Records -/

def enter (record : Record) : Running Unit := do
  modify fun m => { m with stack := record :: m.stack }
  if ← isTracing then
    note 1 s!"ENTER: {record.kind.name} {record.name}"
    note 1 (← number (CallStack.text (← get).stack))

/-- Takes the record off the top of the stack. The record of a program is remembered, unless another
program has run meanwhile. -/
def leave : Running Unit := do
  let m ← get
  match m.stack with
  | [] => return
  | record :: rest =>
    let remembered := record.kind = .program && m.lastProgram.isNone
    set { m with stack := rest, lastProgram := if remembered then some record else m.lastProgram }
    if ← isTracing then
      note 1 s!"LEAVE: {record.kind.name} {record.name}"
      note 1 (← number record.text)

/-- Carries a body out with a record of its own, up to its end or a return. A failure to show the
record at the end wins over any other end. -/
def activate (record : Record) (body : Running Value) : Running Value := do
  enter record
  fun m => match body m with
    | .ok v m | .error (.returned v) m => (do leave; return v : Running Value) m
    | .error (.failed e) m => (do leave; fail e : Running Value) m

/-! ## Calls -/

def functionNamed (name : Token) : Running Function := do
  match (← get).functions.get? name.text with
  | some f => return f
  | none => blame name (.functionNotFound name.text)

def callRecord (name : Token) (f : Function) (arguments : List Value) (level : Nat) : Record :=
  (f.parameters.zip arguments).foldl (fun record (p, v) => record.set p.name.text v)
    { kind := .function, name := name.text, level }

/-- Calls a function. The arguments are evaluated in the record of the caller. -/
def call (evaluate execute : Node → Running Value) (name : Token) (arguments : List Node) :
    Running Value := do
  let f ← functionNamed name
  if arguments.length ≠ f.parameters.length then
    blame name (.argumentCount name.text f.parameters.length arguments.length)
  let values ← arguments.mapM evaluate
  let texts ← values.mapM fun v => number v.text
  let shown := ", ".intercalate texts
  note 3 s!"call {name.text}({shown})"
  activate (callRecord name f values ((← get).stack.length + 1)) (execute f.body)

/-! ## The walk -/

mutual

/-- Carries out a statement or a declaration, to the given depth. -/
def execute : Nat → Node → Running Value
  | 0, _ => fail .tooDeep
  | depth + 1, node => do
    match node with
    | .program name block =>
      modify fun m => { m with lastProgram := none }
      activate { kind := .program, name, level := 1 } (execute depth block)
    | .compound children => children.foldlM (fun _ child => execute depth child) .none
    | .noOp => return .none
    | .assign _ target _ value =>
      let v ← evaluate depth value
      store target.text v
      let text ← number v.text
      note 2 s!"assign {target.text} = {text}"
      return .none
    | .branch _ condition whenTrue whenFalse =>
      let v ← evaluate depth condition
      let text ← number v.text
      note 3 s!"if condition -> {text}"
      if v.isTruthy then execute depth whenTrue else execute depth whenFalse
    | .ret value => throw (.returned (← evaluate depth value))
    | .function name parameters body =>
      modify fun m => { m with functions := m.functions.insert name.text ⟨parameters, body⟩ }
      note 2 s!"define function {name.text}"
      return .none
    | _ => evaluate depth node

/-- Evaluates an expression, to the given depth. -/
def evaluate : Nat → Node → Running Value
  | 0, _ => fail .tooDeep
  | depth + 1, node => do
    match node with
    | .intLiteral token => return .int (← number (readInt token.text))
    | .floatLiteral token => return .float (← number (readFloat token.text))
    | .boolLiteral token => return .bool (← number (readBool token.text))
    | .var name => load name
    | .unary op operand => lift (Value.applyUnary op (← evaluate depth operand))
    | .binary op left right =>
      let a ← evaluate depth left
      match op.kind, a with
      | .andAnd, .bool true => evaluate depth right
      | .andAnd, a => return a
      | .orOr, .bool true => return .bool true
      | .orOr, _ => evaluate depth right
      | _, a => lift (Value.applyBinary op a (← evaluate depth right))
    | .call name arguments => call (evaluate depth) (execute depth) name arguments
    | _ => fail (.unknownForm .evaluation node.form?)

end

end Running

/-! ## Runs -/

namespace Machine

def start (log : Log) : Machine :=
  { log }

/-- Takes a step from outside of any program: there is nothing to return to. -/
def perform (m : Machine) (step : Running Value) : Except Failure Value × Machine :=
  match step m with
  | .ok v m => (.ok v, m)
  | .error (.returned _) m => (.error .strayReturn, m)
  | .error (.failed e) m => (.error e, m)

/-- Carries out a tree with the functions declared so far. -/
def execute (m : Machine) (tree : Node) : Except Failure Value × Machine :=
  m.perform (Running.execute maxDepth tree)

def evaluate (m : Machine) (tree : Node) : Except Failure Value × Machine :=
  m.perform (Running.evaluate maxDepth tree)

/-- Runs a tree of at most the given depth afresh: functions declared before are forgotten. -/
def interpretWithin (depth : Nat) (m : Machine) (tree : Node) : Except Failure Value × Machine :=
  { m with functions := {} }.perform (Running.execute depth tree)

def interpret (m : Machine) (tree : Node) : Except Failure Value × Machine :=
  interpretWithin maxDepth m tree

def lookup (m : Machine) (name : String) : Except Failure Value :=
  match m.lastProgram.bind (·.members.get? name) with
  | some v => .ok v
  | none => .error (.runtime (.variableNotFound name) none)

end Machine

end LittleLang
