import LittleLang.Proofs.Likeness.Run

/-!
# What follows a return

Trees that differ only in what follows a return in their lists of nodes, at any depth, run alike:
with the same result or the same failure, the same variables and the same messages. The lists may
stand in the block of the program, in the bodies of functions and in the branches of conditionals;
so the two runs may declare different functions. In particular a run does not notice if every list
is cut after its first return, as the parser does it (`interpret_unreached`).
-/

namespace LittleLang

namespace Node

/-- Trees that are the same but for what follows a return in a list of nodes. -/
inductive SameToReturn : Node → Node → Prop where
  | node {n n' : Node} :
      Layer .identity SameToReturn SameToReturn SameToReturn n n' → SameToReturn n n'

theorem SameToReturn.layer {n n' : Node} (h : n.SameToReturn n') :
    Layer .identity SameToReturn SameToReturn SameToReturn n n' := by
  obtain ⟨h⟩ := h
  exact h

/-! ## Cutting lists of nodes -/

mutual

/-- The tree with nothing after a return. -/
def trimmed : Node → Node
  | program name block => program name block.trimmed
  | compound children => compound (throughReturn (trimmedAll children))
  | unary op operand => unary op operand.trimmed
  | binary op left right => binary op left.trimmed right.trimmed
  | assign type target op value => assign type target op value.trimmed
  | branch keyword condition whenTrue whenFalse =>
    branch keyword condition.trimmed whenTrue.trimmed whenFalse.trimmed
  | ret value => ret value.trimmed
  | function name parameters body => function name parameters body.trimmed
  | call name arguments => call name (trimmedAll arguments)
  | node => node

def trimmedAll : List Node → List Node
  | [] => []
  | node :: rest => node.trimmed :: trimmedAll rest

end

theorem isReturn_trimmed (n : Node) : n.trimmed.isReturn = n.isReturn := by
  cases n <;> rfl

theorem reaching_throughReturn {ns : List Node}
    (h : ns.Forall₂ SameToReturn (trimmedAll ns)) :
    Reaching SameToReturn ns (throughReturn (trimmedAll ns)) := by
  induction ns with
  | nil => exact .nil
  | cons n ns ih =>
    obtain ⟨hn, hns⟩ := List.forall₂_cons.mp h
    unfold trimmedAll throughReturn
    rw [isReturn_trimmed]
    split
    · exact .ret hn ‹_›
    · exact .cons hn (ih hns)

theorem sameToReturn_trimmed : ∀ n : Node, n.SameToReturn n.trimmed
  | .program name block => .node (.program name (sameToReturn_trimmed block))
  | .compound children => .node (.compound (reaching_throughReturn (all children)))
  | .noOp => .node .noOp
  | .intLiteral _ => .node (.intLiteral rfl)
  | .floatLiteral _ => .node (.floatLiteral rfl)
  | .boolLiteral _ => .node (.boolLiteral rfl)
  | .var _ => .node (.var rfl)
  | .typeName _ => .node (.typeName rfl)
  | .unary _ operand => .node (.unary rfl (sameToReturn_trimmed operand))
  | .binary _ left right =>
    .node (.binary rfl (sameToReturn_trimmed left) (sameToReturn_trimmed right))
  | .assign type _ _ value =>
    .node (.assign (Likeness.identity.optional (fun _ => rfl) type) rfl rfl
      (sameToReturn_trimmed value))
  | .branch keyword c t f =>
    .node (.branch (Likeness.identity.optional (fun _ => rfl) keyword)
      (sameToReturn_trimmed c) (sameToReturn_trimmed t) (sameToReturn_trimmed f))
  | .ret value => .node (.ret (sameToReturn_trimmed value))
  | .parameter _ => .node (.parameter ⟨rfl, rfl⟩)
  | .function _ _ body => .node (.function rfl
      (List.forall₂_same.mpr fun _ _ => ⟨rfl, rfl⟩) (sameToReturn_trimmed body))
  | .call _ arguments => .node (.call rfl (all arguments))
  | .bare => .node .bare
  | .missing => .node .missing
where
  all : ∀ ns : List Node, ns.Forall₂ SameToReturn (trimmedAll ns)
    | [] => .nil
    | n :: ns => .cons (sameToReturn_trimmed n) (all ns)

end Node

/-! ## Runs -/

namespace Machine

/-- Runs that cannot be told apart but by the functions they declared. -/
structure SameRun (r r' : Except Failure Value × Machine) : Prop where
  result : r.1 = r'.1
  lastProgram : r.2.lastProgram = r'.2.lastProgram
  stack : r.2.stack = r'.2.stack
  log : r.2.log = r'.2.log

/-- A run is the same whatever follows the returns of the tree, and also if nothing does. -/
theorem interpret_unreached (m : Machine) (depth : Nat) (tree : Node) :
    (∀ tree', tree.SameToReturn tree' →
        SameRun (m.interpretWithin depth tree) (m.interpretWithin depth tree')) ∧
      SameRun (m.interpretWithin depth tree) (m.interpretWithin depth tree.trimmed) := by
  have hrun (tree' : Node) (h : tree.SameToReturn tree') :
      SameRun (m.interpretWithin depth tree) (m.interpretWithin depth tree') := by
    have hwalk := (Running.like_walk Log.lasting_eq (fun _ _ h => h.layer) depth).1 tree tree' h
    obtain ⟨hresult, hm⟩ := Running.like_perform (m := { m with functions := {} }) hwalk
      ⟨⟨rfl, Table.aligned_empty, rfl, rfl⟩, .inl Log.tied_eq⟩
    exact ⟨hresult.eq, hm.lastProgram, hm.stack, hm.log⟩
  exact ⟨hrun, hrun _ tree.sameToReturn_trimmed⟩

/-- A function with nodes of no form after its return, called in a branch that returns, too. -/
theorem interpret_unreached_bare : ∃ tree tree' : Node, tree ≠ tree' ∧ tree.SameToReturn tree' ∧
    ((start (.start 3 false)).interpretWithin 9 tree).1 = .ok (.int 7) ∧
    SameRun ((start (.start 3 false)).interpretWithin 9 tree)
      ((start (.start 3 false)).interpretWithin 9 tree') := by
  let name : Token := ⟨.identifier, "f", 1, 6⟩
  let seven : Node := .intLiteral ⟨.intLiteral, "7", 1, 19⟩
  let holds : Node := .boolLiteral ⟨.kwTrue, "true", 1, 28⟩
  let block (after : List Node) : Node := .compound [
    .function name [] (.compound (.ret seven :: after)),
    .branch (some ⟨.kwIf, "if", 1, 25⟩) holds (.compound (.ret (.call name []) :: after)) .noOp]
  have hsame :
      Node.SameToReturn (.program "main" (block [])) (.program "main" (block [.bare])) := by
    refine ⟨.program "main" ⟨.compound (.cons ?_ (.cons ?_ .nil))⟩⟩
    · exact ⟨.function rfl .nil ⟨.compound (.ret ⟨.ret ⟨.intLiteral rfl⟩⟩ rfl)⟩⟩
    · exact ⟨.branch (.some rfl) ⟨.boolLiteral rfl⟩
        ⟨.compound (.ret ⟨.ret ⟨.call rfl .nil⟩⟩ rfl)⟩ ⟨.noOp⟩⟩
  refine ⟨_, _, ?_, hsame, by rfl, (interpret_unreached _ 9 _).1 _ hsame⟩
  intro h
  simp [block] at h

end Machine

end LittleLang
