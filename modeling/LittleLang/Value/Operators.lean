import LittleLang.Value.Order

/-!
# Operators

`applyUnary` and `applyBinary` apply the operator of a token to values. They look at the operands
first and blame the token for operands that do not fit; then they go on with the plain form of the
operator, which is not defined on all values (`plus`, `minus`, `onNumbers`, and `less` and its
likes). `&&` and `||` are no operators in this sense: they do not always evaluate their right
operand. -/

namespace LittleLang

open LittleLang.Number

/-! ## Numbers -/

inductive Numeric where
  | int (n : Int)
  | float (x : Float)

namespace Numeric

/-- An integer is rounded to the nearest float. -/
def toFloat : Numeric → Except Failure Float
  | int n =>
    match nearestInt? n with
    | some x => .ok x
    | none => .error (.number .beyondFloat)
  | float x => .ok x

def isZero : Numeric → Bool
  | int n => n == 0
  | float x => x == 0.0

/-- Applies one operation to two integers and another to two floats. -/
def combine (onInts : Int → Int → Int) (onFloats : Float → Float → Float) :
    Numeric → Numeric → Except Failure Value
  | int m, int n => .ok (.int (onInts m n))
  | x, y => do return .float (onFloats (← x.toFloat) (← y.toFloat))

/-- The quotient of two numbers; between integers it is rounded toward zero. No integer but zero is
rounded to the float zero, so the divisor is asked before it is rounded. -/
def quotient : Numeric → Numeric → Except Failure Value
  | int m, int n => if n = 0 then .error (.operand .integerByZero) else .ok (.int (m.tdiv n))
  | x, y => do
    let dividend ← x.toFloat
    let divisor ← y.toFloat
    if y.isZero then .error (.operand .floatByZero) else return .float (dividend / divisor)

end Numeric

namespace Value

/-- The number that a value stands for: a bool is 0 or 1, and nothing is none. -/
def numeric? : Value → Option Numeric
  | int n => some (.int n)
  | float x => some (.float x)
  | bool b => some (.int b.toInt)
  | none => Option.none

/-- The value is equal to zero. -/
def isZero (v : Value) : Bool :=
  v.numeric?.any (·.isZero)

/-! ## Plain forms -/

def plus (v : Value) : Except Failure Value :=
  match v.numeric? with
  | some (.int n) => .ok (.int n)
  | some (.float x) => .ok (.float x)
  | Option.none => .error (.operand (.unary "+" v.className))

def minus (v : Value) : Except Failure Value :=
  match v.numeric? with
  | some (.int n) => .ok (.int (-n))
  | some (.float x) => .ok (.float (-x))
  | Option.none => .error (.operand (.unary "-" v.className))

/-- An arithmetic operator is defined on two numbers. -/
def onNumbers (symbol : String) (operation : Numeric → Numeric → Except Failure Value)
    (a b : Value) : Except Failure Value :=
  match a.numeric?, b.numeric? with
  | some x, some y => operation x y
  | _, _ => .error (.operand (.binary symbol a.className b.className))

/-! ## Operators -/

/-- The operator does not take this operand. -/
def refuseOperand (op : Token) (v : Value) : Except Failure Value :=
  .error (.runtime (.unaryOperand op.text v.typeName) op)

/-- Applies a unary operator: `!` to bools, a sign to numbers other than bools. -/
def applyUnary (op : Token) (v : Value) : Except Failure Value :=
  match op.kind with
  | .bang => if v.isBool then .ok (.bool !v.isTruthy) else refuseOperand op v
  | kind =>
    if v.isInt || v.isFloat then
      match kind with
      | .plus => v.plus
      | .minus => v.minus
      | _ => refuseOperand op v
    else refuseOperand op v

/-- The operator does not take these operands. -/
def refuseOperands (op : Token) (a b : Value) : Except Failure Value :=
  .error (.runtime (.binaryOperands op.text a.typeName b.typeName) op)

/-- Applies an arithmetic operator. Division by zero is refused. -/
def applyArithmetic (op : Token) (a b : Value) : Except Failure Value :=
  match op.kind with
  | .plus => onNumbers "+" (Numeric.combine (· + ·) (· + ·)) a b
  | .minus => onNumbers "-" (Numeric.combine (· - ·) (· - ·)) a b
  | .times => onNumbers "*" (Numeric.combine (· * ·) (· * ·)) a b
  | .divide =>
    if b.isZero then .error (.runtime .divisionByZero op) else onNumbers "/" Numeric.quotient a b
  | _ => .error (.runtime (.unknownOperator op.text) op)

/-- Applies a binary operator: equality to all values, the other comparisons to all but nothing, and
arithmetic to numbers other than bools. -/
def applyBinary (op : Token) (a b : Value) : Except Failure Value :=
  match op.kind with
  | .equal => .ok (.bool (a.equal b))
  | .notEqual => .ok (.bool !(a.equal b))
  | kind =>
    if a.isNone || b.isNone then refuseOperands op a b
    else match kind with
    | .less => .bool <$> a.less b
    | .greater => .bool <$> a.greater b
    | .lessEq => .bool <$> a.lessEq b
    | .greaterEq => .bool <$> a.greaterEq b
    | _ =>
      if a.isBool || b.isBool then refuseOperands op a b
      else applyArithmetic op a b

end Value

end LittleLang
