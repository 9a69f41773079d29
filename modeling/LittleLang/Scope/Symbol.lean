import LittleLang.Text.Quoted

/-!
# Symbols

A symbol is what a name stands for in a program under analysis: a type, a variable or a function.
Two symbols are the same only if they are one and the same, whatever their names; each has an
identity by which that is decided.
-/

namespace LittleLang

open LittleLang.Text

inductive Symbol where
  | builtin (id : Nat) (name : String)
  | plain (id : Nat) (name : String) (type : Option Symbol)
  | var (id : Nat) (name : String) (type : Option Symbol)
  | function (id : Nat) (name : String) (parameters : List Symbol)
  deriving Repr, Inhabited

namespace Symbol

def id : Symbol → Nat
  | builtin id _ | plain id _ _ | var id _ _ | function id _ _ => id

def name : Symbol → String
  | builtin _ name | plain _ name _ | var _ name _ | function _ name _ => name

/-- The type of what a symbol stands for, where that is known. -/
def type? : Symbol → Option Symbol
  | builtin .. | function .. => none
  | plain _ _ type | var _ _ type => type

/-- The name of the type of a symbol, empty where there is none. -/
def typeName (s : Symbol) : String :=
  (s.type?.map name).getD ""

def same (a b : Symbol) : Bool :=
  a.id == b.id

/-- Two symbols are one and the same, or there is none on both sides. -/
def same? : Option Symbol → Option Symbol → Bool
  | none, none => true
  | some a, some b => a.same b
  | _, _ => false

/-! ## Text -/

mutual

def listing : Symbol → String
  | builtin _ name => s!"BuiltInTypeSymbol(name={quoted name}, type=None)"
  | plain _ name type => s!"Symbol(name={quoted name}, type={typeListing type})"
  | var _ name type => s!"VarSymbol(name={quoted name}, type={typeListing type})"
  | function _ name parameters =>
    s!"FunctionSymbol(name={quoted name}, type=None, params=({parametersListing parameters}))"

/-- A type that may be missing. -/
def typeListing : Option Symbol → String
  | none => "None"
  | some type => listing type

/-- Parameters with commas between them, and after a single one. -/
def parametersListing : List Symbol → String
  | [] => ""
  | [p] => listing p ++ ","
  | [p, q] => listing p ++ ", " ++ listing q
  | p :: rest => listing p ++ ", " ++ parametersListing rest

end

def text : Symbol → String
  | builtin _ name => s!"<BuiltInTypeSymbol(name='{name}')>"
  | plain id name type => listing (plain id name type)
  | var id name type => s!"<VarSymbol(name='{name}', type='{typeName (var id name type)}')>"
  | function _ name parameters =>
    s!"<FunctionSymbol(name='{name}', params=[{shortened parameters}])>"
where
  /-- The parameters of a function in short. -/
  shortened (parameters : List Symbol) : String :=
    ", ".intercalate (parameters.map fun p => s!"<VarSymbol(name='{p.name}', type='{p.typeName}')>")

end Symbol

end LittleLang
