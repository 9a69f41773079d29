/-!
# Kinds of tokens

`Kind` lists the terminal symbols of the language. A kind has a name, by which tokens are written
down outside the program; a name that no terminal has is kept as `other`, so that every written
token can be read back.
-/

namespace LittleLang

/-- The terminal symbols. -/
inductive Kind where
  | intLiteral | floatLiteral | identifier
  | kwFunc | kwInt | kwFloat | kwBool | kwTrue | kwFalse | kwReturn | kwIf | kwElse
  | plus | minus | times | divide
  | leftParen | rightParen | leftBrace | rightBrace | semicolon | comma
  | bang | assign | andAnd | orOr
  | less | greater | lessEq | greaterEq | equal | notEqual
  | endOfInput
  | other (name : String)
  deriving DecidableEq, Repr, Inhabited

namespace Kind

/-! ## Names -/

def names : List (Kind × String) := [
  (intLiteral, "INT_CONST"), (floatLiteral, "FLOAT_CONST"), (identifier, "IDENT"),
  (kwFunc, "FUNC"), (kwInt, "INT"), (kwFloat, "FLOAT"), (kwBool, "BOOL"), (kwTrue, "TRUE"),
  (kwFalse, "FALSE"), (kwReturn, "RETURN"), (kwIf, "IF"), (kwElse, "ELSE"),
  (plus, "PLUS"), (minus, "MINUS"), (times, "MUL"), (divide, "DIV"),
  (leftParen, "LPAREN"), (rightParen, "RPAREN"), (leftBrace, "LBRACE"), (rightBrace, "RBRACE"),
  (semicolon, "SEMI"), (comma, "COMMA"),
  (bang, "NOT"), (assign, "ASSIGN"), (andAnd, "AND"), (orOr, "OR"),
  (less, "LT"), (greater, "GT"), (lessEq, "LE"), (greaterEq, "GE"), (equal, "EQ"), (notEqual, "NE"),
  (endOfInput, "EOF")]

def name (k : Kind) : String :=
  match k with
  | other text => text
  | k => (names.lookup k).getD ""

/-- The kind of a name. -/
def ofName (text : String) : Kind :=
  match names.find? (·.2 == text) with
  | some (k, _) => k
  | none => other text

/-! ## Spellings -/

/-- The kind of a word that starts with a letter: a keyword or an identifier. -/
def ofWord (word : String) : Kind :=
  match word with
  | "func" => kwFunc
  | "int" => kwInt
  | "float" => kwFloat
  | "bool" => kwBool
  | "true" => kwTrue
  | "false" => kwFalse
  | "return" => kwReturn
  | "if" => kwIf
  | "else" => kwElse
  | _ => identifier

/-- The operators of two characters. -/
def ofPair (first second : Char) : Option Kind :=
  match first, second with
  | ':', '=' => some assign
  | '&', '&' => some andAnd
  | '|', '|' => some orOr
  | '<', '=' => some lessEq
  | '>', '=' => some greaterEq
  | '=', '=' => some equal
  | '!', '=' => some notEqual
  | _, _ => none

/-- The operators and brackets of one character. -/
def ofSign (sign : Char) : Option Kind :=
  match sign with
  | '+' => some plus
  | '-' => some minus
  | '*' => some times
  | '/' => some divide
  | '(' => some leftParen
  | ')' => some rightParen
  | '\x7b' => some leftBrace
  | '\x7d' => some rightBrace
  | ';' => some semicolon
  | ',' => some comma
  | '!' => some bang
  | '<' => some less
  | '>' => some greater
  | _ => none

/-! ## Classes -/

/-- The keywords that name a type. -/
def isType : Kind → Bool
  | kwInt | kwFloat | kwBool => true
  | _ => false

/-- The boolean constants. -/
def isTruth : Kind → Bool
  | kwTrue | kwFalse => true
  | _ => false

def isAdditive : Kind → Bool
  | plus | minus => true
  | _ => false

def isMultiplicative : Kind → Bool
  | times | divide => true
  | _ => false

def isArithmetic (k : Kind) : Bool :=
  k.isAdditive || k.isMultiplicative

def isComparison : Kind → Bool
  | less | greater | lessEq | greaterEq | equal | notEqual => true
  | _ => false

def isConnective : Kind → Bool
  | andAnd | orOr => true
  | _ => false

/-- The operators that ask for bool operands. -/
def isLogical (k : Kind) : Bool :=
  k.isConnective || k = bang

/-- What ends a list of statements. -/
def endsStatements : Kind → Bool
  | endOfInput | rightBrace | kwFunc => true
  | _ => false

/-- What ends a block or the whole text; the statement before it may go without a semicolon. -/
def closesBlock : Kind → Bool
  | rightBrace | endOfInput => true
  | _ => false

/-- What an expression that stands as a statement may start with. -/
def startsExpression : Kind → Bool
  | intLiteral | floatLiteral | kwTrue | kwFalse | leftParen | plus | minus | bang => true
  | _ => false

end Kind

end LittleLang
