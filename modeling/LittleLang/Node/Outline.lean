import LittleLang.Failure
import LittleLang.Document
import LittleLang.Node

/-!
# The outline of a tree

`Node.outline` writes a tree down as a JSON document: the form of each node under `type`, then its
parts. Of a token only the text is kept.
-/

namespace LittleLang

/-- An object that stands for a node of the given form. -/
def Document.node (form : String) (fields : List (String × Document)) : Document :=
  .object (("type", .text form) :: fields)

def Token.typeOutline (type : Token) : Document :=
  .node "Type" [("name", .text type.text)]

def Token.variableOutline (name : Token) : Document :=
  .node "Var" [("name", .text name.text)]

def Parameter.outline (p : Parameter) : Document :=
  .node "Parameter" [("var_type", p.type.typeOutline), ("name", .text p.name.text)]

namespace Node

/-- The outline of a tree of at most the given depth. -/
def outlineWithin : Nat → Node → Except Failure Document
  | 0, _ => .error .tooDeep
  | depth + 1, node => do
    match node with
    | program name block =>
      return .node "Program" [("name", .text name), ("block", ← outlineWithin depth block)]
    | compound children =>
      return .node "Compound" [("children", .list (← children.mapM (outlineWithin depth)))]
    | noOp => return .node "NoOp" []
    | intLiteral token => return .node "IntLiteral" [("value", .text token.text)]
    | floatLiteral token => return .node "FloatLiteral" [("value", .text token.text)]
    | boolLiteral token => return .node "BoolLiteral" [("value", .text token.text)]
    | var name => return name.variableOutline
    | typeName name => return name.typeOutline
    | unary op operand =>
      return .node "UnaryOp" [("op", .text op.text), ("operand", ← outlineWithin depth operand)]
    | binary op left right =>
      return .node "BinaryOp" [("op", .text op.text), ("left", ← outlineWithin depth left),
        ("right", ← outlineWithin depth right)]
    | assign type target _ value =>
      return .node "Assign" [("target", target.variableOutline),
        ("var_type", (type.map Token.typeOutline).getD .null),
        ("value", ← outlineWithin depth value)]
    | branch _ condition whenTrue whenFalse =>
      return .node "If" [("condition", ← outlineWithin depth condition),
        ("true_block", ← outlineWithin depth whenTrue),
        ("false_block", ← outlineWithin depth whenFalse)]
    | ret value => return .node "Return" [("value", ← outlineWithin depth value)]
    | parameter p => return p.outline
    | function name parameters body =>
      return .node "FunctionDeclaration" [("name", .text name.text),
        ("parameters", .list (parameters.map Parameter.outline)),
        ("body", ← outlineWithin depth body)]
    | call name arguments =>
      return .node "FunctionCall" [("name", .text name.text),
        ("arguments", .list (← arguments.mapM (outlineWithin depth)))]
    | bare => .error (.unknownForm .writing node.form?)
    | missing => return .null

def outline (node : Node) : Except Failure Document :=
  outlineWithin maxDepth node

end Node

end LittleLang
