import LittleLang.Failure
import LittleLang.Node
import LittleLang.Token.Stream

/-!
# Parsing steps

A parsing step reads from a stream and gives what it built together with the stream after it, or
fails. Steps share a memo of the numeric expressions parsed so far, which outlives a failure.
`attempt` turns a token that does not fit into a plain answer, so that another reading can be tried
from the same place; a lexical error and nesting that is too deep pass through it.
-/

namespace LittleLang

/-- What a rule builds: a node, and the stream after it. -/
abbrev Parsed := Node × Stream

/-- The numeric expressions parsed so far, by the offset after their first token: the outcome, or
the token that did not fit. The latest entry for an offset counts. -/
abbrev Memo := List (Nat × Except Token Parsed)

abbrev Parsing := EStateM Failure Memo

namespace Parsing

/-! ## Steps -/

/-- Fails on the token that the stream stands on. -/
def refuse (s : Stream) : Parsing α :=
  throw (.unexpected s.token)

def advance (s : Stream) : Parsing Stream :=
  match s.next with
  | .ok s => pure s
  | .error e => throw (.lexical e)

def eat (kind : Kind) (s : Stream) : Parsing Stream :=
  if s.kind = kind then advance s else refuse s

/-- Runs a step; `none` if a token did not fit. -/
def attempt (step : Parsing α) : Parsing (Option α) := fun memo =>
  match step memo with
  | .ok a memo => .ok (some a) memo
  | .error (.unexpected _) memo => .ok none memo
  | .error e memo => .error e memo

/-- Takes the first reading, unless a token did not fit or it stops before a token of a refused
kind; then the second. -/
def prefer (first : Parsing Parsed) (refused : Kind → Bool) (second : Parsing Parsed) :
    Parsing Parsed := do
  match ← attempt first with
  | some (node, s) => if refused s.kind then second else return (node, s)
  | none => second

/-! ## Reuse -/

/-- How a rule is asked for its outcome at an offset: by running it, or from the memo. -/
abbrev Reuse := Nat → Parsing Parsed → Parsing Parsed

/-- Runs the rule every time. -/
def Reuse.never : Reuse := fun _ rule => rule

/-- Runs the rule once for each offset, and answers from the memo after that. -/
def Reuse.byOffset : Reuse := fun offset rule memo =>
  match memo.lookup offset with
  | some (.ok parsed) => .ok parsed memo
  | some (.error token) => .error (.unexpected token) memo
  | none => match rule memo with
    | .ok parsed memo => .ok parsed ((offset, .ok parsed) :: memo)
    | .error (.unexpected token) memo => .error (.unexpected token) ((offset, .error token) :: memo)
    | .error e memo => .error e memo

/-! ## Repetition

A loop takes a token at least in each round, so the number of tokens left bounds its rounds. -/

/-- Goes on from a left operand with operators and their right operands, grouping to the left. -/
def chainFrom (isOperator : Kind → Bool) (operand : Stream → Parsing Parsed) :
    Nat → Node → Stream → Parsing Parsed
  | 0, left, s => return (left, s)
  | rounds + 1, left, s =>
    if isOperator s.kind then do
      let (right, rest) ← operand (← advance s)
      chainFrom isOperator operand rounds (.binary s.token left right) rest
    else return (left, s)

/-- Operands with operators between them. The tokens left are counted only where there is an
operator. -/
def chain (isOperator : Kind → Bool) (operand : Stream → Parsing Parsed) (s : Stream) :
    Parsing Parsed := do
  let (left, s) ← operand s
  if isOperator s.kind then chainFrom isOperator operand s.length left s else return (left, s)

def afterCommas (item : Stream → Parsing (α × Stream)) : Nat → Stream → Parsing (List α × Stream)
  | 0, s => return ([], s)
  | rounds + 1, s =>
    if s.kind = .comma then do
      let (first, s) ← item (← advance s)
      let (rest, s) ← afterCommas item rounds s
      return (first :: rest, s)
    else return ([], s)

def commaList (item : Stream → Parsing (α × Stream)) (s : Stream) :
    Parsing (List α × Stream) := do
  let (first, s) ← item s
  let (rest, s) ← afterCommas item s.length s
  return (first :: rest, s)

def untilEnd (isEnd : Kind → Bool) (item : Stream → Parsing Parsed) :
    Nat → Stream → Parsing (List Node × Stream)
  | 0, s => return ([], s)
  | rounds + 1, s =>
    if isEnd s.kind then return ([], s)
    else do
      let (first, s) ← item s
      let (rest, s) ← untilEnd isEnd item rounds s
      return (first :: rest, s)

end Parsing

end LittleLang
