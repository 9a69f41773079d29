import LittleLang.Parse.Memo

/-!
# Rules for expressions

There are two grammars of expressions, for bools and for numbers, and an identifier, a call or a
parenthesis may start either. A rule that meets one tries the bool reading first and goes back to
the numeric reading when the first fails or stops before an operator that only numbers have.

    expression -> bool_expr | num_expr
    bool_expr  -> bool_term (("&&" | "||") bool_term)*
    bool_term  -> "(" bool_expr ")" | "!" bool_term | "true" | "false"
                | num_expr [compare_op num_expr]
    num_expr   -> num_term (("+" | "-") num_term)*
    num_term   -> factor (("*" | "/") factor)*
    factor     -> "(" num_expr ")" | ("+" | "-") factor | FLOAT | INT | call | IDENT
    call       -> IDENT "(" [expression ("," expression)*] ")"

Each rule takes the stream on its first token. `depth` bounds the nesting of rules, and `reuse` says
how the outcome of a numeric expression is asked for.
-/

namespace LittleLang.Parsing

def parenthesized (inner : Stream → Parsing Parsed) (s : Stream) : Parsing Parsed := do
  let (node, s) ← inner (← eat .leftParen s)
  return (node, ← eat .rightParen s)

/-- A comparison of two numbers, or a single variable or call. -/
def comparison (number : Stream → Parsing Parsed) (s : Stream) : Parsing Parsed := do
  let (left, s) ← number s
  if s.kind.isComparison then
    let (right, rest) ← number (← advance s)
    return (.binary s.token left right, rest)
  else if left.isReference then return (left, s)
  else refuse s

def var (s : Stream) : Parsing Parsed := do
  let rest ← eat .identifier s
  return (.var s.token, rest)

mutual

def expression (reuse : Reuse) : Nat → Stream → Parsing Parsed
  | 0, _ => throw .tooDeep
  | depth + 1, s =>
    prefer (boolExpr reuse depth s) Kind.isArithmetic (numExpr reuse depth s)

def boolExpr (reuse : Reuse) : Nat → Stream → Parsing Parsed
  | 0, _ => throw .tooDeep
  | depth + 1, s => chain Kind.isConnective (boolTerm reuse depth) s

/-- An operand of `&&` and `||`. -/
def boolTerm (reuse : Reuse) : Nat → Stream → Parsing Parsed
  | 0, _ => throw .tooDeep
  | depth + 1, s => do
    match s.kind with
    | .leftParen =>
      prefer (parenthesized (boolExpr reuse depth) s)
        (fun kind => kind.isArithmetic || kind.isComparison)
        (comparison (numExpr reuse depth) s)
    | .bang =>
      let (operand, rest) ← boolTerm reuse depth (← advance s)
      return (.unary s.token operand, rest)
    | .kwTrue | .kwFalse => return (.boolLiteral s.token, ← advance s)
    | _ => comparison (numExpr reuse depth) s

def numExpr (reuse : Reuse) : Nat → Stream → Parsing Parsed
  | 0, _ => throw .tooDeep
  | depth + 1, s => reuse s.head.stop (chain Kind.isAdditive (numTerm reuse depth) s)

/-- An operand of `+` and `-`. -/
def numTerm (reuse : Reuse) : Nat → Stream → Parsing Parsed
  | 0, _ => throw .tooDeep
  | depth + 1, s => chain Kind.isMultiplicative (factor reuse depth) s

/-- An operand of `*` and `/`. -/
def factor (reuse : Reuse) : Nat → Stream → Parsing Parsed
  | 0, _ => throw .tooDeep
  | depth + 1, s => do
    match s.kind with
    | .leftParen => parenthesized (numExpr reuse depth) s
    | .plus | .minus =>
      let (operand, rest) ← factor reuse depth (← advance s)
      return (.unary s.token operand, rest)
    | .floatLiteral => return (.floatLiteral s.token, ← advance s)
    | .intLiteral => return (.intLiteral s.token, ← advance s)
    | .identifier =>
      if (← advance s).kind = .leftParen then call reuse depth s else var s
    | _ => var s

def call (reuse : Reuse) : Nat → Stream → Parsing Parsed
  | 0, _ => throw .tooDeep
  | depth + 1, s => do
    let rest ← eat .leftParen (← eat .identifier s)
    let (arguments, rest) ← if rest.kind = .rightParen then pure ([], rest)
      else commaList (expression reuse depth) rest
    return (.call s.token arguments, ← eat .rightParen rest)

end

end LittleLang.Parsing
