import LittleLang.Parse.Statement

/-!
# Parsing a text

`parse` reads a whole text as a program. It starts with an empty memo.
-/

namespace LittleLang

/-- Reads a text as a program, following rules to the given depth. -/
def parseWithin (reuse : Parsing.Reuse) (depth : Nat) (text : String) : Except Failure Node :=
  match Stream.ofText text with
  | .error e => .error (.lexical e)
  | .ok s => match Parsing.program reuse depth s [] with
    | .ok tree _ => .ok tree
    | .error e _ => .error e

def parse (text : String) : Except Failure Node :=
  parseWithin .byOffset maxDepth text

end LittleLang
