import LittleLang.Parse
import LittleLang.Proofs.Analysis.Accepted
import LittleLang.Proofs.Safety.Names
import LittleLang.Proofs.Shape

/-!
# Variables are found

An analysis counts a variable as declared from its first assignment on, in textual order; a run sets
it when it gets there. The two differ where a branch is skipped. If no `if` assigns to a variable
that is new, a run of an accepted program finds every variable it asks for, in the program and in
every call (`interpretWithin_ne_variableNotFound`). -/

namespace LittleLang

open Analyzing (Rules)
open Running

/-- If any call may be late, the parts are in order. -/
theorem inOrder_of_parts {P : Token → Prop} {parts : List Node}
    (h : ∀ n ∈ parts, n.IsPart P) (known : String → Prop) :
    InOrder (fun _ => True) known parts := by
  induction parts generalizing known with
  | nil => exact .nil
  | cons n parts ih =>
    have hrest := ih fun n hn => h n (by simp [hn])
    cases h n (by simp) with
    | function _ _ hbody => exact .function (hbody.imp fun _ _ _ => trivial) (hrest _)
    | statements hn => exact .statements (hn.imp fun _ _ _ => trivial) (hrest _)

/-- A text is analyzed under the rule that a variable which is assigned inside of an `if` is known
when the outermost `if` around it is visited. If it passes, no run of it asks for a variable that is
not there, whatever machine it is run in and however deep its calls go. -/
theorem interpretWithin_ne_variableNotFound {text : String} {tree : Node} {log : Log}
    {depth depth' : Nat} (hparse : parseWithin .byOffset depth text = .ok tree)
    (hpass : ({ settled := true } : Rules).passes depth' log tree = true) {m : Machine}
    (hm : m.stack = []) (depth'' : Nat) (name : String) (token : Option Token) :
    (m.interpretWithin depth'' tree).1 ≠ .error (.runtime (.variableNotFound name) token) := by
  obtain ⟨parts, rfl, hparts⟩ := parts_of_parseWithin hparse
  obtain ⟨type, state, hvisit, -⟩ := Rules.exists_of_passes hpass
  obtain ⟨scope, -, hacc⟩ := Analyzing.finds_program hparts type state hvisit
  have hseen : ∀ n m r, Resolves (fun _ => True) (fun _ _ => True) m.functions n →
      (fun _ _ r => r : Node → Monitor) n m r = r := fun _ _ _ _ => rfl
  intro hfail
  have hexcused := (named_program hseen hacc (inOrder_of_parts hparts _)
    (fun _ _ _ _ => trivial) hm depth'' "main").2 _ hfail
  exact hexcused.vars rfl name token rfl

/-- A variable that is set before an `if` and in it, in a function that calls itself. -/
theorem interpretWithin_ne_variableNotFound_recursion :
    ∃ tree, parseWithin .byOffset 60 ("func f(int n) \x7b r := n; if n > 0 \x7b r := f(n - 1); \x7d " ++
        "return r; \x7d x := f(3);") = .ok tree ∧
      ({ settled := true } : Rules).passes 60 { level := 0 } tree = true ∧
      ∀ depth name token, ((Machine.start { level := 1 }).interpretWithin depth tree).1 ≠
        .error (.runtime (.variableNotFound name) token) := by
  have hcheck : parsesTo 60 ("func f(int n) \x7b r := n; if n > 0 \x7b r := f(n - 1); \x7d " ++
      "return r; \x7d x := f(3);") (({ settled := true } : Rules).passes 60 { level := 0 }) =
      true := by decide +kernel
  obtain ⟨tree, hparse, hpass⟩ := exists_of_parsesTo hcheck
  exact ⟨tree, hparse, hpass, interpretWithin_ne_variableNotFound hparse hpass rfl⟩

end LittleLang
