/-!
# Floats as binary fractions

A float stands for nothing, for an infinity or for a number `m * 2 ^ e`. `Binary.ofFloat` takes it
apart, and `nearest` gives the float that a ratio of natural numbers rounds to: the nearest one, and
of two that are equally near the one with the even significand.
-/

namespace LittleLang.Number

/-! ## Taking a float apart -/

inductive Binary where
  | nan
  | infinite (negative : Bool)
  /-- `significand * 2 ^ exponent`, with a minus sign if `negative`. -/
  | finite (negative : Bool) (significand : Nat) (exponent : Int)
  deriving DecidableEq, Repr

/-- The number of bits of a significand after the leading one. -/
def fractionBits : Nat := 52

/-- The exponent of the last bit of the smallest floats. -/
def leastExponent : Int := -1074

/-- The exponent field of the infinities and of what is no number. -/
def specialField : Nat := 2047

def Binary.ofBits (bits : Nat) : Binary :=
  let negative := decide (Nat.pow 2 63 ≤ bits)
  let field := bits / Nat.pow 2 fractionBits % Nat.pow 2 11
  let fraction := bits % Nat.pow 2 fractionBits
  if field = specialField then
    if fraction = 0 then infinite negative else nan
  else if field = 0 then finite negative fraction leastExponent
  else finite negative (Nat.pow 2 fractionBits + fraction) (leastExponent + field - 1)

def Binary.ofFloat (x : Float) : Binary :=
  .ofBits x.toBits.toNat

/-! ## Rounding -/

/-- The natural number nearest to a ratio, the even one of two. -/
def roundHalfEven (num den : Nat) : Nat :=
  let quotient := num / den
  let twice := 2 * (num % den)
  if twice < den then quotient
  else if den < twice then quotient + 1
  else quotient + quotient % 2

/-- The exponent of the leading bit of a positive ratio. -/
def leadingExponent (num den : Nat) : Int :=
  let guess : Int := num.log2 - den.log2
  let reached := if 0 ≤ guess then decide (den * Nat.pow 2 guess.toNat ≤ num)
    else decide (den ≤ num * Nat.pow 2 (-guess).toNat)
  if reached then guess else guess - 1

/-- The bits of the infinite float, and the first that no finite float has. -/
def infiniteBits : Nat := specialField * Nat.pow 2 fractionBits

/-- The bits of the float that a ratio rounds to; at `infiniteBits` and beyond the ratio is too
large for a finite float. The significand counts on into the exponent field, so that rounding up to
the next power of two needs no case of its own. -/
def nearestBits (num den : Nat) : Nat :=
  if num = 0 then 0
  else
    let exponent := max (leadingExponent num den - fractionBits) leastExponent
    let significand := if 0 ≤ exponent then roundHalfEven num (den * Nat.pow 2 exponent.toNat)
      else roundHalfEven (num * Nat.pow 2 (-exponent).toNat) den
    (exponent - leastExponent).toNat * Nat.pow 2 fractionBits + significand

def signed (negative : Bool) (bits : Nat) : Float :=
  Float.ofBits (UInt64.ofNat (if negative then Nat.pow 2 63 + bits else bits))

/-- The float nearest to a ratio with a sign; infinite for one beyond the range of floats. -/
def nearest (negative : Bool) (num den : Nat) : Float :=
  signed negative (min (nearestBits num den) infiniteBits)

/-- The float nearest to an integer, unless the integer is beyond the range of floats. -/
def nearestInt? (n : Int) : Option Float :=
  if nearestBits n.natAbs 1 < infiniteBits then some (nearest (n < 0) n.natAbs 1) else none

end LittleLang.Number
