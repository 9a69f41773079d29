import LittleLang.Token.Kind

/-!
# Tokens

A token is a piece of the text with its kind and the place where it starts. Lines and columns count
from 1; a column counts characters.
-/

namespace LittleLang

structure Token where
  kind : Kind
  text : String
  line : Nat
  column : Nat
  deriving DecidableEq, Repr, Inhabited

namespace Token

/-- How a message refers to a token. -/
def describe (t : Token) : String :=
  if t.kind = .endOfInput then "end of input" else s!"'{t.text}'"

/-- The place of a token as messages write it. -/
def position (t : Token) : String :=
  s!"(line: {t.line}, col: {t.column})"

end Token

/-- A character that starts no token. -/
structure LexicalError where
  char : Char
  line : Nat
  column : Nat
  deriving DecidableEq, Repr, Inhabited

def LexicalError.message (e : LexicalError) : String :=
  s!"Lexer error on '{e.char}' (line: {e.line}, col: {e.column})"

end LittleLang
