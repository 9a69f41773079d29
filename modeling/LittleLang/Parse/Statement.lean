import LittleLang.Parse.Expression

/-!
# Rules for statements and programs

    program        -> (function_decl | statement_list)*
    function_decl  -> "func" IDENT "(" parameters ")" block
    parameters     -> (parameter ("," parameter)*)?
    parameter      -> type IDENT
    block          -> "{" statement_list "}"
    statement_list -> statement+        (up to the end of the text, "}" or "func")
    statement      -> (assignment | call) ";" | return ";" | if_statement
                    | expression [";"] | empty
    return         -> "return" expression
    assignment     -> [type] IDENT ":=" expression
    if_statement   -> "if" bool_expr block ["else" block]

The semicolon after an expression may be left out before the end of a block or of the text. What
follows a return in a list of statements is parsed and left out of the tree.
-/

namespace LittleLang.Parsing

/-! ## Simple statements -/

def typeName (s : Stream) : Parsing (Token × Stream) := do
  if s.kind.isType then return (s.token, ← advance s) else refuse s

/-- A return statement, without its semicolon. -/
def ret (reuse : Reuse) (depth : Nat) (s : Stream) : Parsing Parsed := do
  let (value, s) ← expression reuse depth (← eat .kwReturn s)
  return (.ret value, s)

/-- An assignment, without its semicolon. -/
def assignment (reuse : Reuse) (depth : Nat) (s : Stream) : Parsing Parsed := do
  let (type, target) ← if s.kind.isType then
      let (type, rest) ← typeName s
      pure (some type, rest)
    else pure (none, s)
  let op ← eat .identifier target
  let (value, rest) ← expression reuse depth (← eat .assign op)
  return (.assign type target.token op.token value, rest)

def terminated (statement : Parsing Parsed) : Parsing Parsed := do
  let (node, s) ← statement
  return (node, ← eat .semicolon s)

def expressionStatement (reuse : Reuse) (depth : Nat) (s : Stream) : Parsing Parsed := do
  let (node, s) ← expression reuse depth s
  if s.kind.closesBlock then return (node, s) else return (node, ← eat .semicolon s)

/-! ## Statements and blocks -/

mutual

def statement (reuse : Reuse) : Nat → Stream → Parsing Parsed
  | 0, _ => throw .tooDeep
  | depth + 1, s => do
    match s.kind with
    | .identifier =>
      if (← advance s).kind = .leftParen then terminated (call reuse depth s)
      else terminated (assignment reuse depth s)
    | .kwInt | .kwFloat | .kwBool => terminated (assignment reuse depth s)
    | .kwReturn => terminated (ret reuse depth s)
    | .kwIf => ifStatement reuse depth s
    | .rightBrace | .endOfInput => return (.noOp, s)
    | kind =>
      if kind.startsExpression then expressionStatement reuse depth s else refuse s

def ifStatement (reuse : Reuse) : Nat → Stream → Parsing Parsed
  | 0, _ => throw .tooDeep
  | depth + 1, s => do
    let (condition, rest) ← boolExpr reuse depth (← eat .kwIf s)
    let (whenTrue, rest) ← block reuse depth rest
    let (whenFalse, rest) ← if rest.kind = .kwElse then
        block reuse depth (← advance rest)
      else pure (.noOp, rest)
    return (.branch (some s.token) condition whenTrue whenFalse, rest)

def block (reuse : Reuse) : Nat → Stream → Parsing Parsed
  | 0, _ => throw .tooDeep
  | depth + 1, s => do
    let (statements, s) ← statementList reuse depth (← eat .leftBrace s)
    return (statements, ← eat .rightBrace s)

def statementList (reuse : Reuse) : Nat → Stream → Parsing Parsed
  | 0, _ => throw .tooDeep
  | depth + 1, s => do
    let (first, s) ← statement reuse depth s
    let (rest, s) ← untilEnd Kind.endsStatements (statement reuse depth) s.length s
    return (.compound (Node.throughReturn (first :: rest)), s)

end

/-! ## Declarations and programs -/

def parameter (s : Stream) : Parsing (Parameter × Stream) := do
  let (type, name) ← typeName s
  let rest ← eat .identifier name
  return (⟨type, name.token⟩, rest)

/-- The parameters of a function, possibly none. -/
def parameters (s : Stream) : Parsing (List Parameter × Stream) :=
  if s.kind.isType then commaList parameter s else return ([], s)

def functionDeclaration (reuse : Reuse) (depth : Nat) (s : Stream) : Parsing Parsed := do
  let name ← eat .kwFunc s
  let (parameters, rest) ← parameters (← eat .leftParen (← eat .identifier name))
  let (body, rest) ← block reuse depth (← eat .rightParen rest)
  return (.function name.token parameters body, rest)

/-- A part of a program: a declaration, or the statements up to the next one. -/
def programPart (reuse : Reuse) (depth : Nat) (s : Stream) : Parsing Parsed :=
  match s.kind with
  | .kwFunc => functionDeclaration reuse depth s
  | .rightBrace => refuse s
  | _ => statementList reuse depth s

def program (reuse : Reuse) (depth : Nat) (s : Stream) : Parsing Node := do
  let (parts, _) ← untilEnd (· = .endOfInput) (programPart reuse depth) s.length s
  return .program "main" (.compound parts)

end LittleLang.Parsing
