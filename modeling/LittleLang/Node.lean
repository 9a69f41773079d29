import LittleLang.Token

/-!
# Trees

A program is a tree of nodes. A node keeps the tokens that it was built from, so that an error can
point at them. The type is wider than what the grammar derives: any node may stand anywhere, and
`bare` and `missing` are nodes that no stage knows.
-/

namespace LittleLang

structure Parameter where
  type : Token
  name : Token
  deriving DecidableEq, Repr, Inhabited

inductive Node where
  | program (name : String) (block : Node)
  | compound (children : List Node)
  | noOp
  | intLiteral (token : Token)
  | floatLiteral (token : Token)
  | boolLiteral (token : Token)
  | var (name : Token)
  | typeName (name : Token)
  | unary (op : Token) (operand : Node)
  | binary (op : Token) (left right : Node)
  /-- `target := value`, after a type where the variable is declared. -/
  | assign (type : Option Token) (target op : Token) (value : Node)
  | branch (keyword : Option Token) (condition whenTrue whenFalse : Node)
  | ret (value : Node)
  | parameter (parameter : Parameter)
  | function (name : Token) (parameters : List Parameter) (body : Node)
  | call (name : Token) (arguments : List Node)
  /-- A node of no form. -/
  | bare
  /-- No node at all. -/
  | missing
  deriving Repr, Inhabited

namespace Node

/-- The name of the form of a node; `none` where there is no node. -/
def form? : Node → Option String
  | program .. => "Program"
  | compound _ => "Compound"
  | noOp => "NoOp"
  | intLiteral _ => "IntLiteral"
  | floatLiteral _ => "FloatLiteral"
  | boolLiteral _ => "BoolLiteral"
  | var _ => "Var"
  | typeName _ => "Type"
  | unary .. => "UnaryOp"
  | binary .. => "BinaryOp"
  | assign .. => "Assign"
  | branch .. => "If"
  | ret _ => "Return"
  | parameter _ => "Parameter"
  | function .. => "FunctionDeclaration"
  | call .. => "FunctionCall"
  | bare => "Node"
  | missing => none

def isReturn : Node → Bool
  | ret _ => true
  | _ => false

/-- The node is a variable or a call, which may stand for a bool as well as for a number. -/
def isReference : Node → Bool
  | var _ | call .. => true
  | _ => false

/-- The nodes up to the first return statement, that one included: what comes after it is never
reached. -/
def throughReturn : List Node → List Node
  | [] => []
  | node :: rest => if node.isReturn then [node] else node :: throughReturn rest

end Node

end LittleLang
