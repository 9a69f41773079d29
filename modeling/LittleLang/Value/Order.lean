import LittleLang.Value

/-!
# Comparing values

Integers, floats and bools are compared as numbers, a bool as 0 or 1. The comparison of an integer
with a float is exact: neither is rounded. Any two values can be tested for equality, but nothing
has no place in the order: to ask for it is a fault (`comparison`). -/

namespace LittleLang

open LittleLang.Number

namespace Number

def compareInt (n : Int) : Binary → Option Ordering
  | .nan => none
  | .infinite negative => some (if negative then .gt else .lt)
  | .finite negative significand exponent =>
    let m : Int := if negative then -significand else significand
    if 0 ≤ exponent then some (compare n (m * Nat.pow 2 exponent.toNat))
    else some (compare (n * Nat.pow 2 (-exponent).toNat) m)

def compareFloat (x y : Float) : Option Ordering :=
  if x < y then some .lt
  else if x == y then some .eq
  else if y < x then some .gt
  else none

end Number

namespace Value

/-- The order of two values as numbers; `none` if one of them is no number. -/
def order? : Value → Value → Option Ordering
  | none, _ | _, none => Option.none
  | float x, float y => compareFloat x y
  | int n, float y => compareInt n (.ofFloat y)
  | bool b, float y => compareInt b.toInt (.ofFloat y)
  | float x, int n => (compareInt n (.ofFloat x)).map Ordering.swap
  | float x, bool b => (compareInt b.toInt (.ofFloat x)).map Ordering.swap
  | int m, int n => some (compare m n)
  | int m, bool b => some (compare m b.toInt)
  | bool b, int n => some (compare b.toInt n)
  | bool a, bool b => some (compare a.toInt b.toInt)

/-- Two values are equal: as numbers, or both nothing. -/
def equal : Value → Value → Bool
  | none, none => true
  | a, b => a.order? b == some .eq

/-- A comparison of two values, neither of which may be nothing. -/
def comparison (symbol : String) (a b : Value) (holds : Bool) : Except Failure Bool :=
  if a.isNone || b.isNone then
    .error (.operand (.unordered symbol a.className b.className))
  else .ok holds

def less (a b : Value) : Except Failure Bool :=
  comparison "<" a b (a.order? b == some .lt)

def greater (a b : Value) : Except Failure Bool :=
  comparison ">" a b (b.order? a == some .lt)

def lessEq (a b : Value) : Except Failure Bool :=
  comparison "<=" a b (a.order? b == some .lt || a.order? b == some .eq)

def greaterEq (a b : Value) : Except Failure Bool :=
  comparison ">=" a b (b.order? a == some .lt || b.order? a == some .eq)

end Value

end LittleLang
