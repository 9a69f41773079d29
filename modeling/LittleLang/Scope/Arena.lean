import LittleLang.Failure
import LittleLang.Scope.Symbol
import LittleLang.Table
import LittleLang.Text.Padding
import LittleLang.Value

/-!
# Scopes

A scope has two tables: its variables, which are looked up in it alone, and all other symbols (types
and functions), which are looked up in the enclosing scopes too. The scopes of an analysis lie in an
arena and name their parents by index. A negative index counts from the end of the arena. A closed
scope leaves its slot empty, so indices are never used again.
-/

namespace LittleLang

open LittleLang.Text

/-! ## Scopes -/

structure Scope where
  name : String
  level : Int
  parent : Option Int
  symbols : Table Symbol := {}
  vars : Table Symbol := {}
  deriving Repr

namespace Scope

/-- A scope outside of any arena, which can have no parent. -/
def standalone (name : String) (level : Int) (parent : Option Int) : Except Failure Scope :=
  match parent with
  | none => .ok { name, level, parent }
  | some _ => .error (.scope .orphan)

def insertSymbol (s : Scope) (symbol : Symbol) : Scope :=
  { s with symbols := s.symbols.insert symbol.name symbol }

def insertVariable (s : Scope) (symbol : Symbol) : Scope :=
  { s with vars := s.vars.insert symbol.name symbol }

def listing (s : Scope) : String :=
  let parent := match s.parent with
    | none => "None"
    | some i => toString i
  s!"<ScopedSymbolTable(name='{s.name}', level={s.level}, parent={parent})>"

def row (name symbol : String) : String :=
  padRight 12 name ++ " | " ++ symbol

def rows (table : Table Symbol) : List String :=
  row "Name" "Symbol" :: table.entries.map fun (name, symbol) => row name symbol.text

def text (s : Scope) : String :=
  "\n".intercalate <|
    [s!"SCOPE {quoted s.name} (level {s.level})",
      "-------------------------------------------------=( VARIABLES )=--"]
    ++ rows s.vars
    ++ ["-----------------------------------------------------=( OTHER )=--"]
    ++ rows s.symbols
    ++ ["------------------------------------------------------------------"]

end Scope

/-! ## Arenas -/

/-- The scopes of an analysis, and the identity of the next symbol. -/
structure Arena where
  slots : Array (Option Scope) := #[]
  nextId : Nat := 0
  deriving Repr

namespace Arena

/-- The slot that an index means. -/
def slot? (a : Arena) (i : Int) : Option Nat :=
  let n : Int := if i < 0 then a.slots.size + i else i
  if 0 ≤ n ∧ n < a.slots.size then some n.toNat else none

/-- The scope at an index, with its slot. -/
def locate (a : Arena) (i : Int) : Except Failure (Nat × Scope) :=
  match a.slot? i with
  | none => .error (.scope .outOfRange)
  | some n => match a.slots[n]?.join with
    | none => .error (.scope (.closed i))
    | some scope => .ok (n, scope)

def fetch (a : Arena) (i : Int) : Except Failure Scope :=
  Prod.snd <$> a.locate i

/-- Opens a scope below a parent, or one on its own, and gives its index. -/
def push (a : Arena) (name : String) (parent : Option Int) : Except Failure (Nat × Arena) := do
  let level ← match parent with
    | none => pure 0
    | some i => pure ((← a.fetch i).level + 1)
  return (a.slots.size, { a with slots := a.slots.push (some { name, level, parent }) })

/-- Closes a scope and gives the index of its parent. -/
def close (a : Arena) (i : Int) : Except Failure (Option Int × Arena) := do
  let (n, scope) ← a.locate i
  return (scope.parent, { a with slots := a.slots.setIfInBounds n none })

/-- Whether the scope with an index from the start is open. -/
def isOpen (a : Arena) (i : Int) : Bool :=
  0 ≤ i && (a.slots[i.toNat]?.join).isSome

def openCount (a : Arena) : Nat :=
  (a.slots.filter Option.isSome).size

def update (a : Arena) (i : Int) (change : Scope → Scope) : Except Failure Arena := do
  let (n, scope) ← a.locate i
  return { a with slots := a.slots.setIfInBounds n (some (change scope)) }

def create (a : Arena) (make : Nat → Symbol) : Symbol × Arena :=
  (make a.nextId, { a with nextId := a.nextId + 1 })

def addSymbol (a : Arena) (i : Int) (make : Nat → Symbol) : Except Failure Arena :=
  let (symbol, a) := a.create make
  a.update i (·.insertSymbol symbol)

def addVariable (a : Arena) (i : Int) (make : Nat → Symbol) : Except Failure Arena :=
  let (symbol, a) := a.create make
  a.update i (·.insertVariable symbol)

def addBuiltins (a : Arena) (i : Int) : Except Failure Arena :=
  builtinTypes.foldlM (fun a name => a.addSymbol i (.builtin · name)) a

/-! ## Lookups -/

def parentScope (a : Arena) (scope : Scope) : Except Failure (Option Scope) :=
  match scope.parent with
  | none => .ok none
  | some i => some <$> a.fetch i

/-- Looks a symbol up in a scope and in those that enclose it, at most `rounds` scopes in all. -/
def lookupFrom (a : Arena) (name : String) : Nat → Scope → Except Failure (Option Symbol)
  | 0, _ => .error .tooDeep
  | rounds + 1, scope => match scope.symbols.get? name with
    | some symbol => .ok (some symbol)
    | none => do match ← a.parentScope scope with
      | none => return none
      | some parent => lookupFrom a name rounds parent

/-- Looks a symbol up from an index on. There are no more scopes on the way than slots, unless it
goes round in a circle. -/
def lookup (a : Arena) (i : Int) (name : String) : Except Failure (Option Symbol) := do
  a.lookupFrom name (a.slots.size + 1) (← a.fetch i)

def lookupVariable (a : Arena) (i : Int) (name : String) : Except Failure (Option Symbol) := do
  return (← a.fetch i).vars.get? name

/-- Whether two lookups give one and the same symbol. -/
def sameSymbol (a : Arena) (i : Int) (first : String) (j : Int) (second : String) :
    Except Failure Bool := do
  let left ← a.lookup i first
  let right ← a.lookup j second
  return Symbol.same? left right

/-! ## Declarations -/

/-- A symbol to be made, with its types by name. -/
inductive Declaration where
  | builtin (name : String)
  | plain (name : String) (type : Option String)
  | var (name : String) (type : Option String)
  | function (name : String) (parameters : List (String × Option String))

/-- The type with a name as seen from a scope; an unknown name is no type. -/
def typeNamed (a : Arena) (i : Int) : Option String → Except Failure (Option Symbol)
  | none => .ok none
  | some name => a.lookup i name

/-- Makes the symbol of a declaration as seen from a scope. -/
def declare (a : Arena) (i : Int) (d : Declaration) : Except Failure (Symbol × Arena) := do
  match d with
  | .builtin name => return a.create (.builtin · name)
  | .plain name type =>
    let type ← a.typeNamed i type
    return a.create (.plain · name type)
  | .var name type =>
    let type ← a.typeNamed i type
    return a.create (.var · name type)
  | .function name parameters =>
    let (symbols, a) ← parameters.foldlM (fun (symbols, a) (name, type) => do
      let type ← a.typeNamed i type
      let (symbol, a) := a.create (.var · name type)
      return (symbols ++ [symbol], a)) (([] : List Symbol), a)
    return a.create (.function · name symbols)

end Arena

end LittleLang
