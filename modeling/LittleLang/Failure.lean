import LittleLang.Text.Quoted
import LittleLang.Token

/-!
# Failures

What can go wrong on the way from a text to a value. A failure is a cause; `Failure.message` puts it
into words.
-/

namespace LittleLang

open LittleLang.Text

/-! ## Errors found before a run -/

inductive SemanticCause where
  | identifierNotFound (name : String)
  | typeNotFound (name : String)
  | alreadyDeclared (name : String)
  | duplicateParameter (name : String)
  | notForBool (op : String)
  | requiresBool (op type : String)
  | mixedOperands (left op right : String)
  | wrongValue (value declared name : String)
  | wrongCondition (type : String)
  | argumentCount (function : String) (expected given : Nat)
  | argumentType (parameter function expected given : String)
  deriving DecidableEq, Repr

inductive SemanticCode where
  | idNotFound
  | duplicateId
  | typeMismatch
  deriving DecidableEq, Repr

namespace SemanticCode

def name : SemanticCode → String
  | idNotFound => "IdNotFound"
  | duplicateId => "DuplicateId"
  | typeMismatch => "TypeMismatch"

end SemanticCode

namespace SemanticCause

/-- The code that a cause is filed under. -/
def code : SemanticCause → SemanticCode
  | identifierNotFound _ | typeNotFound _ => .idNotFound
  | alreadyDeclared _ | duplicateParameter _ => .duplicateId
  | _ => .typeMismatch

def message : SemanticCause → String
  | identifierNotFound name => s!"identifier '{name}' not found"
  | typeNotFound name => s!"type '{name}' not found"
  | alreadyDeclared name => s!"'{name}' is already declared"
  | duplicateParameter name => s!"duplicate parameter '{name}'"
  | notForBool op => s!"'{op}' is not defined for bool"
  | requiresBool op type => s!"'{op}' requires bool, got {type}"
  | mixedOperands left op right => s!"cannot perform '{left} {op} {right}'"
  | wrongValue value declared name => s!"cannot assign {value} to {declared} '{name}'"
  | wrongCondition type => s!"if condition must be bool, got {type}"
  | argumentCount function expected given =>
    s!"{function} expects {expected} arguments, got {given}"
  | argumentType parameter function expected given =>
    s!"argument '{parameter}' of {function} expects {expected}, got {given}"

end SemanticCause

/-! ## Errors of a run -/

inductive RuntimeCause where
  | variableNotFound (name : String)
  | functionNotFound (name : String)
  | argumentCount (function : String) (expected given : Nat)
  | unaryOperand (op type : String)
  | binaryOperands (op left right : String)
  | divisionByZero
  | unknownOperator (op : String)
  deriving DecidableEq, Repr

def RuntimeCause.message : RuntimeCause → String
  | variableNotFound name => s!"variable '{name}' not found"
  | functionNotFound name => s!"function '{name}' not found"
  | argumentCount function expected given =>
    s!"{function} expects {expected} arguments, got {given}"
  | unaryOperand op type => s!"unsupported operand type for unary {op}: {type}"
  | binaryOperands op left right => s!"unsupported operand types for {op}: {left} and {right}"
  | divisionByZero => "division by zero"
  | unknownOperator op => s!"unknown operator {op}"

/-! ## Numbers, operands, scopes and records -/

/-- What can be wrong with a literal, or with writing or converting a number. -/
inductive NumberFault where
  | notInt (text : String)
  | notFloat (text : String)
  | notBool (text : String)
  | tooLongToRead (digits : Nat)
  | tooLongToWrite
  | beyondFloat
  deriving DecidableEq, Repr

namespace NumberFault

/-- The most digits of an integer that are read or written. -/
def maxDigits : Nat := 4300

/-- The message on a numeral that is too long; `detail` says how long it is, where that is known. -/
def tooLongMessage (detail : String) : String :=
  s!"Exceeds the limit ({maxDigits} digits) for integer string conversion{detail}; " ++
    "use sys.set_int_max_str_digits() to increase the limit"

/-- A fault in words. A bad integer literal is quoted up to 200 characters. -/
def message : NumberFault → String
  | notInt text =>
    "invalid literal for int() with base 10: " ++
      String.ofList ((quoted text).toList.take 200)
  | notFloat text => s!"could not convert string to float: {quoted text}"
  | notBool text => s!"invalid bool literal {quoted text}"
  | tooLongToRead digits => tooLongMessage s!": value has {digits} digits"
  | tooLongToWrite => tooLongMessage ""
  | beyondFloat => "int too large to convert to float"

end NumberFault

/-- Operands that the plain form of an operator is not defined on. -/
inductive OperandFault where
  | unary (op type : String)
  | binary (op left right : String)
  | unordered (op left right : String)
  | integerByZero
  | floatByZero
  deriving DecidableEq, Repr

def OperandFault.message : OperandFault → String
  | unary op type => s!"bad operand type for unary {op}: '{type}'"
  | binary op left right => s!"unsupported operand type(s) for {op}: '{left}' and '{right}'"
  | unordered op left right =>
    s!"'{op}' not supported between instances of '{left}' and '{right}'"
  | integerByZero => "integer division or modulo by zero"
  | floatByZero => "float division by zero"

inductive ScopeFault where
  | outOfRange
  | closed (index : Int)
  /-- A scope on its own was given a parent. -/
  | orphan
  /-- A scope was asked for where there is none. -/
  | nowhere
  deriving DecidableEq, Repr

def ScopeFault.message : ScopeFault → String
  | outOfRange => "list index out of range"
  | closed index => quoted s!"scope {index} is closed"
  | orphan => "a scope with a parent must belong to an arena"
  | nowhere => "list indices must be integers or slices, not NoneType"

inductive RecordFault where
  | unknownMember (name : String)
  | missing
  deriving DecidableEq, Repr

def RecordFault.message : RecordFault → String
  | unknownMember name => quoted name
  | missing => "cannot push a missing activation record"

/-! ## Failures -/

inductive Walk where
  | analysis
  | evaluation
  | writing
  deriving DecidableEq, Repr

/-- The form of a node with the place where it is defined. -/
def formPlace : Option String → String
  | some form => s!"<class 'sprig.ast.{form}'>"
  | none => "<class 'NoneType'>"

/-- A node of a form that a walk does not know; `none` is the form of a missing node. -/
def Walk.message (form : Option String) : Walk → String
  | analysis => s!"visit: unexpected node type {formPlace form}"
  | evaluation => s!"evaluate: unexpected node type {formPlace form}"
  | writing => "Unsupported node for serialization: " ++ form.getD "NoneType"

/-- Why a text, a tree or a command gave no result. -/
inductive Failure where
  | lexical (error : LexicalError)
  | unexpected (token : Token)
  | semantic (cause : SemanticCause) (token : Token)
  | runtime (cause : RuntimeCause) (token : Option Token)
  | number (fault : NumberFault)
  | operand (fault : OperandFault)
  | scope (fault : ScopeFault)
  | record (fault : RecordFault)
  | unknownForm (walk : Walk) (form : Option String)
  /-- A return outside of any program and function. -/
  | strayReturn
  /-- An assignment outside of any program and function. -/
  | noRecord
  /-- The token to blame is not in the tree. -/
  | noToken
  | tooDeep
  deriving DecidableEq, Repr

namespace Failure

def message : Failure → String
  | lexical error => error.message
  | unexpected token => s!"Unexpected token {token.describe} {token.position}"
  | semantic cause token =>
    s!"{cause.code.name}: {token.describe} {token.position}: {cause.message}"
  | runtime cause none => cause.message
  | runtime cause (some token) => s!"{cause.message} {token.position}"
  | number fault => fault.message
  | operand fault => fault.message
  | scope fault => fault.message
  | record fault => fault.message
  | unknownForm walk form => walk.message form
  | strayReturn => "return"
  | noRecord => "no activation record"
  | noToken => "'NoneType' object has no attribute 'type'"
  | tooDeep => "maximum recursion depth exceeded"

/-- The failures that a user of the language can cause by a program: those are reported, and any
other one ends the command. -/
def isReported : Failure → Bool
  | lexical _ | unexpected _ | semantic .. | runtime .. | tooDeep => true
  | _ => false

end Failure

/-- How many levels of nesting every walk follows: rules of the grammar inside each other, nodes
inside each other, calls inside each other. -/
def maxDepth : Nat := 1000

end LittleLang
