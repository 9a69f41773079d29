import LittleLang.Number.Binary

/-!
# Shortest decimals

`shortest m e` is the decimal of the fewest digits that rounds to the float `m * 2 ^ e`; of several,
the nearest to it. All arithmetic is on natural numbers: numbers are taken in units of
`2 ^ (e - 2)`, in which the float and the ends of the interval that rounds to it are whole.
-/

namespace LittleLang.Number

/-- A decimal `digits * 10 ^ exponent`. -/
structure Decimal where
  digits : Nat
  exponent : Int
  deriving DecidableEq, Repr

structure Ratio where
  num : Nat
  den : Nat
  deriving DecidableEq, Repr

namespace Ratio

/-- `n * base ^ exponent`. -/
def scale (n base : Nat) (exponent : Int) : Ratio :=
  if 0 ≤ exponent then ⟨n * base.pow exponent.toNat, 1⟩ else ⟨n, base.pow (-exponent).toNat⟩

def lt (a b : Ratio) : Bool :=
  a.num * b.den < b.num * a.den

def le (a b : Ratio) : Bool :=
  a.num * b.den ≤ b.num * a.den

def div (a b : Ratio) : Ratio :=
  ⟨a.num * b.den, a.den * b.num⟩

def distance (a b : Ratio) : Ratio :=
  let left := a.num * b.den
  let right := b.num * a.den
  ⟨(left - right) + (right - left), a.den * b.den⟩

/-- The exponent of the leading decimal digit of a positive ratio. -/
def leadingDigit (r : Ratio) : Int :=
  let guess : Int := (Nat.toDigits 10 r.num).length - (Nat.toDigits 10 r.den).length
  if (scale 1 10 guess).le r then guess else guess - 1

end Ratio

/-- The numbers that round to a float. -/
structure Interval where
  low : Ratio
  high : Ratio
  /-- The ends round to the float too. -/
  closed : Bool

namespace Interval

/-- The interval of the float `significand * 2 ^ exponent`. Below a power of two floats lie twice as
dense, unless it is the smallest of its kind. -/
def of (significand : Nat) (exponent : Int) : Interval :=
  let below := if significand = Nat.pow 2 fractionBits ∧ leastExponent < exponent then 1 else 2
  ⟨.scale (4 * significand - below) 2 (exponent - 2), .scale (4 * significand + 2) 2 (exponent - 2),
    significand % 2 = 0⟩

def contains (i : Interval) (r : Ratio) : Bool :=
  if i.closed then i.low.le r && r.le i.high else i.low.lt r && r.lt i.high

end Interval

/-- Of the two decimals with the given exponent that enclose `r` the one in the interval; the nearer
one if both are, and of two that are equally near the even one. -/
def gridPoint? (r : Ratio) (interval : Interval) (exponent : Int) : Option Decimal :=
  let scaled := r.div (.scale 1 10 exponent)
  let floor := scaled.num / scaled.den
  let lower := Ratio.scale floor 10 exponent
  let upper := Ratio.scale (floor + 1) 10 exponent
  match interval.contains lower, interval.contains upper with
  | false, false => none
  | true, false => some ⟨floor, exponent⟩
  | false, true => some ⟨floor + 1, exponent⟩
  | true, true =>
    let toLower := r.distance lower
    let toUpper := r.distance upper
    if toLower.lt toUpper then some ⟨floor, exponent⟩
    else if toUpper.lt toLower then some ⟨floor + 1, exponent⟩
    else some ⟨floor + floor % 2, exponent⟩

/-- The decimal of the fewest digits, sought on ever finer grids. Seventeen digits suffice. -/
def shortestFrom (r : Ratio) (interval : Interval) : Nat → Int → Decimal
  | 0, exponent =>
    let scaled := r.div (.scale 1 10 exponent)
    ⟨scaled.num / scaled.den, exponent⟩
  | rounds + 1, exponent =>
    (gridPoint? r interval exponent).getD (shortestFrom r interval rounds (exponent - 1))

/-- The shortest decimal that rounds to the positive float `significand * 2 ^ exponent`. -/
def shortest (significand : Nat) (exponent : Int) : Decimal :=
  let r := Ratio.scale significand 2 exponent
  shortestFrom r (.of significand exponent) 17 r.leadingDigit

end LittleLang.Number
