import LittleLang.Text.Letter
import LittleLang.Token

/-!
# Lexemes

A lexeme is the spelling of a token. There are three classes: words (a letter, then letters and
digits), numbers (digits, an optional fraction, an optional `f` or `F`), and operators of one or two
characters. `Lexeme.read` gives the lexeme that a text starts with: the longest one.
-/

namespace LittleLang

open LittleLang.Text

/-- The spelling of a token, and the kind and text of the token it makes. -/
structure Lexeme where
  kind : Kind
  spelling : List Char
  text : List Char
  deriving DecidableEq, Repr

namespace Lexeme

/-- What a word may go on with. -/
def isWordChar (c : Char) : Bool :=
  isLetter c || c.isDigit

def word (spelling : List Char) : Lexeme :=
  ⟨.ofWord (String.ofList spelling), spelling, spelling⟩

/-- The fraction that a text starts with: a point and at least one digit. -/
def fraction : List Char → List Char
  | '.' :: cs => match cs.takeWhile Char.isDigit with
    | [] => []
    | digits => '.' :: digits
  | _ => []

/-- The float mark that a text starts with. -/
def floatMark : List Char → List Char
  | c :: _ => if c = 'f' || c = 'F' then [c] else []
  | [] => []

/-- The number that a text starts with. A fraction or a float mark makes it a float; the mark is no
part of the token's text. -/
def number (cs : List Char) : Lexeme :=
  let whole := cs.takeWhile Char.isDigit
  let part := fraction (cs.drop whole.length)
  let text := whole ++ part
  let mark := floatMark (cs.drop text.length)
  ⟨if part.isEmpty && mark.isEmpty then .intLiteral else .floatLiteral, text ++ mark, text⟩

def sign? (c : Char) : Option Lexeme :=
  (Kind.ofSign c).map (⟨·, [c], [c]⟩)

/-- The operator that a text starts with; two characters win over one. -/
def operator? : List Char → Option Lexeme
  | [] => none
  | [c] => sign? c
  | c :: d :: _ => match Kind.ofPair c d with
    | some k => some ⟨k, [c, d], [c, d]⟩
    | none => sign? c

def read (cs : List Char) : Option Lexeme :=
  match cs with
  | [] => none
  | c :: _ =>
    if isLetter c then some (word (cs.takeWhile isWordChar))
    else if c.isDigit then some (number cs)
    else operator? cs

end Lexeme

end LittleLang
