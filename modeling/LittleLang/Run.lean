import LittleLang.Analysis
import LittleLang.Machine
import LittleLang.Parse

/-!
# Running a text

`run` takes a text through all stages: it is parsed, analyzed and run. Both walks write to one log.
Each stage follows a tree to a depth, which is `maxDepth` unless it is given.
-/

namespace LittleLang

/-! ## Within a depth -/

/-- Analyzes a tree of at most the given depth, with an account of its own of what is known. -/
def analyzeWithin (depth : Nat) (log : Log) (tree : Node) : Except Failure Unit × Log :=
  let (result, state) := (Analysis.start log).analyzeWithin depth tree false
  (result, state.log)

/-- Runs a tree of at most the given depth. -/
def interpretWithin (depth : Nat) (log : Log) (tree : Node) : Except Failure Value × Log :=
  let (result, m) := (Machine.start log).interpretWithin depth tree
  (result, m.log)

/-- Parses, analyzes and runs a text to the given depth. -/
def runWithin (depth : Nat) (log : Log) (source : String) : Except Failure Value × Log :=
  match parseWithin .byOffset depth source with
  | .error e => (.error e, log)
  | .ok tree => match analyzeWithin depth log tree with
    | (.error e, log) => (.error e, log)
    | (.ok _, log) => interpretWithin depth log tree

/-! ## Within the depth of the program -/

def analyze (log : Log) (tree : Node) : Except Failure Unit × Log :=
  analyzeWithin maxDepth log tree

def interpret (log : Log) (tree : Node) : Except Failure Value × Log :=
  interpretWithin maxDepth log tree

def run (log : Log) (source : String) : Except Failure Value × Log :=
  runWithin maxDepth log source

end LittleLang
