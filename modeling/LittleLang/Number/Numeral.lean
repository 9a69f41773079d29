import LittleLang.Failure
import LittleLang.Number.Binary
import LittleLang.Text.Blank
import LittleLang.Text.DecimalDigit

/-!
# Reading numerals

`readInt` and `readFloat` read a whole text as a number. Blanks may stand around it, the digits may
be those of any script, and a single underscore may stand between two digits. An integer may have at
most `NumberFault.maxDigits` digits; a float is rounded to the nearest.
-/

namespace LittleLang.Number

open LittleLang.Text

/-! ## Characters -/

/-- A digit of any script as the ASCII digit of the same value; any other character as it is. -/
def asciiDigit (c : Char) : Char :=
  match digitValue? c with
  | some value => Char.ofNat ('0'.toNat + value)
  | none => c

/-- A text less the blanks around it, with its digits in ASCII. -/
def normalized (text : String) : List Char :=
  let cs := text.toList.map asciiDigit
  ((cs.dropWhile isNumeralBlank).reverse.dropWhile isNumeralBlank).reverse

def digitsValue (digits : List Char) : Nat :=
  digits.foldl (fun value c => 10 * value + (c.toNat - '0'.toNat)) 0

/-- A sign at the start of a numeral: whether it is a minus, and what follows. -/
def splitSign : List Char → Bool × List Char
  | '-' :: cs => (true, cs)
  | '+' :: cs => (false, cs)
  | cs => (false, cs)

/-- Every underscore stands between two digits. `before` is the character before the text. -/
def underscoresFit (before : Char) : List Char → Bool
  | [] => before != '_'
  | c :: cs =>
    (c != '_' || before.isDigit) && (before != '_' || c.isDigit) && underscoresFit c cs

/-! ## Integers -/

def isIntChar (c : Char) : Bool :=
  c.isDigit || c = '_'

/-- Reads an integer. A numeral with too many digits is refused as such even if it does not end
properly, but not if its underscores are misplaced. -/
def readInt (text : String) : Except NumberFault Int := do
  let (negative, cs) := splitSign (normalized text)
  let body := cs.takeWhile isIntChar
  let digits := body.filter Char.isDigit
  if !underscoresFit ' ' body then throw (.notInt text)
  if NumberFault.maxDigits < digits.length then throw (.tooLongToRead digits.length)
  if digits.isEmpty || body.length < cs.length then throw (.notInt text)
  let value : Int := digitsValue digits
  return if negative then -value else value

/-! ## Floats -/

/-- The parts of a decimal numeral: digits before and after the point, and the exponent. -/
structure DecimalParts where
  whole : List Char
  fraction : List Char
  exponent : Int
  deriving DecidableEq, Repr

/-- The exponent of a decimal numeral: nothing, or a mark, a sign and digits. -/
def readExponent : List Char → Option Int
  | [] => some 0
  | c :: cs =>
    if c = 'e' || c = 'E' then
      let (negative, digits) := splitSign cs
      if digits.isEmpty || !digits.all Char.isDigit then none
      else some (if negative then -(digitsValue digits : Int) else digitsValue digits)
    else none

def readParts (cs : List Char) : Option DecimalParts := do
  let whole := cs.takeWhile Char.isDigit
  let rest := cs.drop whole.length
  let (fraction, rest) := match rest with
    | '.' :: rest =>
      let fraction := rest.takeWhile Char.isDigit
      (fraction, rest.drop fraction.length)
    | rest => ([], rest)
  if whole.isEmpty && fraction.isEmpty then none
  else return ⟨whole, fraction, ← readExponent rest⟩

/-- The float nearest to a decimal. Far beyond the range of floats the exponent alone decides. -/
def DecimalParts.toFloat (parts : DecimalParts) (negative : Bool) : Float :=
  let digits := (parts.whole ++ parts.fraction).dropWhile (· = '0')
  let exponent := parts.exponent - parts.fraction.length
  let leading := exponent + digits.length
  if digits.isEmpty || leading < -400 then signed negative 0
  else if 400 < leading then signed negative infiniteBits
  else if 0 ≤ exponent then nearest negative (digitsValue digits * Nat.pow 10 exponent.toNat) 1
  else nearest negative (digitsValue digits) (Nat.pow 10 (-exponent).toNat)

/-- Reads a float: a decimal numeral, or the word for infinity or for no number in any case. -/
def readFloat (text : String) : Except NumberFault Float :=
  let cs := normalized text
  let (negative, body) := splitSign (cs.filter (· != '_'))
  let word := String.ofList (body.map Char.toLower)
  if !underscoresFit ' ' cs then .error (.notFloat text)
  else if word = "inf" || word = "infinity" then .ok (signed negative infiniteBits)
  else if word = "nan" then .ok (signed negative (infiniteBits + Nat.pow 2 51))
  else match readParts body with
    | some parts => .ok (parts.toFloat negative)
    | none => .error (.notFloat text)

/-! ## Bools -/

def readBool (text : String) : Except NumberFault Bool :=
  match text with
  | "true" => .ok true
  | "false" => .ok false
  | _ => .error (.notBool text)

end LittleLang.Number
