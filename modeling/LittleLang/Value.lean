import LittleLang.Number.Layout
import LittleLang.Number.Numeral

/-!
# Values

What an expression evaluates to: an integer of any size, a float or a bool, and nothing for a
statement that produces no value.
-/

namespace LittleLang

open LittleLang.Number

inductive Value where
  | int (n : Int)
  | float (x : Float)
  | bool (b : Bool)
  | none
  deriving Repr, Inhabited

/-! ## The types -/

def intType : String := "int"

def floatType : String := "float"

def boolType : String := "bool"

/-- The types that every program knows. -/
def builtinTypes : List String := [intType, floatType, boolType]

namespace Value

def typeName : Value → String
  | int _ => intType
  | float _ => floatType
  | bool _ => boolType
  | none => "none"

def isInt : Value → Bool
  | int _ => true
  | _ => false

def isFloat : Value → Bool
  | float _ => true
  | _ => false

def isBool : Value → Bool
  | bool _ => true
  | _ => false

def isNone : Value → Bool
  | none => true
  | _ => false

/-- The name of a value's type where a fault tells of it. -/
def className : Value → String
  | none => "NoneType"
  | v => v.typeName

/-! ## Text -/

/-- The first natural number with too many digits to be written. -/
def firstTooLong : Nat := Nat.pow 10 NumberFault.maxDigits

/-- The text of an integer, unless it is too long. -/
def intText (n : Int) : Except NumberFault String :=
  if n.natAbs < firstTooLong then .ok (toString n) else .error .tooLongToWrite

/-- The text of a value. Only an integer can be too long for one. -/
def text : Value → Except NumberFault String
  | int n => intText n
  | float x => .ok (floatText x)
  | bool b => .ok (if b then "true" else "false")
  | none => .ok "none"

/-! ## Conditions -/

/-- Whether a value counts as true where a condition is asked for: zeros and nothing do not. -/
def isTruthy : Value → Bool
  | int n => n != 0
  | float x => x != 0.0
  | bool b => b
  | none => false

end Value

/-! ## Display -/

inductive Display where
  | value (v : Value)
  | text (s : String)
  deriving Repr

namespace Display

def typeName : Display → String
  | value v => v.typeName
  | text _ => "str"

def content : Display → Except NumberFault String
  | value v => v.text
  | text s => .ok s

end Display

end LittleLang
