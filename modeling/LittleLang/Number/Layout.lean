import LittleLang.Number.Shortest

/-!
# The text of a float

`Layout` says how a decimal is laid out: for which exponents the digits stand positionally around a
point, and how wide an exponent is written otherwise. `floatText` writes the shortest decimal of a
float so.
-/

namespace LittleLang.Number

structure Layout where
  /-- The least exponent of the leading digit that is written positionally. -/
  positionalFrom : Int
  /-- The first exponent of the leading digit that is too large for that. -/
  positionalTo : Int
  exponentWidth : Nat

/-- Floats are positional from `0.0001` up to 16 digits before the point; an exponent has a sign and
at least two digits. -/
def floatLayout : Layout := ⟨-4, 16, 2⟩

namespace Layout

def zeros (n : Nat) : List Char :=
  List.replicate n '0'

/-- Digits around a point, with at least one on both sides. `exponent` belongs to the first. -/
def positional (digits : List Char) (exponent : Int) : List Char :=
  if exponent < 0 then '0' :: '.' :: zeros (-exponent - 1).toNat ++ digits
  else
    let whole := exponent.toNat + 1
    let fraction := digits.drop whole
    digits.take whole ++ zeros (whole - digits.length) ++
      '.' :: (if fraction.isEmpty then ['0'] else fraction)

def scientific (layout : Layout) (digits : List Char) (exponent : Int) : List Char :=
  let written := Nat.toDigits 10 exponent.natAbs
  let mantissa := match digits with
    | first :: second :: rest => first :: '.' :: second :: rest
    | digits => digits
  mantissa ++ 'e' :: (if exponent < 0 then '-' else '+') ::
    zeros (layout.exponentWidth - written.length) ++ written

/-- A positive decimal. Zeros at its end are dropped. -/
def render (layout : Layout) (d : Decimal) : List Char :=
  let all := Nat.toDigits 10 d.digits
  let exponent := d.exponent + all.length - 1
  let digits := (all.reverse.dropWhile (· = '0')).reverse
  if layout.positionalFrom ≤ exponent ∧ exponent < layout.positionalTo then
    positional digits exponent
  else scientific layout digits exponent

end Layout

def floatText (x : Float) : String :=
  match Binary.ofFloat x with
  | .nan => "nan"
  | .infinite negative => if negative then "-inf" else "inf"
  | .finite negative significand exponent =>
    let sign := if negative then ['-'] else []
    String.ofList <| sign ++ if significand = 0 then ['0', '.', '0']
      else floatLayout.render (shortest significand exponent)

end LittleLang.Number
