import LittleLang.Proofs.Analysis.Rules
import Mathlib.Logic.Relation

/-!
# Moments of an analysis

The walk of an analysis visits nodes, each in a scope and in a state. A visit makes another one if
what happens there can make a difference to it (`Visit.Makes`); so the visits of an analysis are
those that its first one leads to (`Visit.Reaches`). Where the analysis of a program succeeds, it
visits every part of the program, and the body of every function in a scope of its own.
-/

namespace LittleLang

namespace Analyzing

/-- A node that is visited in a scope and in a state. -/
structure Visit where
  depth : Nat
  node : Node
  scope : Option Nat
  state : Analysis

namespace Visit

def outcome (v : Visit) : EStateM.Result Failure Analysis (Option Symbol) :=
  visit v.depth v.node v.scope v.state

/-- A visit makes another one: a walk that differs only there can end in another way. -/
def Makes (v w : Visit) : Prop :=
  v.depth = w.depth + 1 ∧ ∃ walk : Node → Option Nat → Analyzing (Option Symbol),
    (∀ node scope s, ¬(node = w.node ∧ scope = w.scope ∧ s = w.state) →
      walk node scope s = visit w.depth node scope s) ∧
    visitNode walk v.node v.scope v.state ≠ v.outcome

/-- A visit leads to another one. -/
abbrev Reaches : Visit → Visit → Prop :=
  Relation.ReflTransGen Makes

variable {v w : Visit}

/-- What holds of every visit that may make a difference. -/
theorem Makes.of_passes {Q : Node → Option Nat → Analysis → Prop} (h : v.Makes w)
    (hQ : ∀ walk : Node → Option Nat → Analyzing (Option Symbol),
      (∀ node scope s, Q node scope s → walk node scope s = visit w.depth node scope s) →
      visitNode walk v.node v.scope v.state =
        visitNode (visit w.depth) v.node v.scope v.state) : Q w.node w.scope w.state := by
  obtain ⟨hdepth, walk, hpass, hne⟩ := h
  refine Classical.byContradiction fun hq => hne ?_
  rw [outcome, hdepth, visit_succ]
  refine hQ walk fun node scope s hs => hpass node scope s ?_
  rintro ⟨rfl, rfl, rfl⟩
  exact hq hs

open Classical in
/-- A visit makes another one that it cannot succeed without. -/
theorem makes_of_needed {type : Option Symbol} {s : Analysis} (hdepth : v.depth = w.depth + 1)
    (hok : v.outcome = .ok type s)
    (h : ∀ walk : Node → Option Nat → Analyzing (Option Symbol),
      (∀ node scope, Refines (walk node scope) (visit w.depth node scope)) →
      ∀ type s, visitNode walk v.node v.scope v.state = .ok type s →
        ∃ type' s', walk w.node w.scope w.state = .ok type' s') : v.Makes w := by
  let stop (node : Node) (scope : Option Nat) : Analyzing (Option Symbol) := fun s =>
    if node = w.node ∧ scope = w.scope ∧ s = w.state then .error .tooDeep s
    else visit w.depth node scope s
  refine ⟨hdepth, stop, fun _ _ _ hne => if_neg hne, fun heq => ?_⟩
  have hrefines (node : Node) (scope : Option Nat) :
      Refines (stop node scope) (visit w.depth node scope) := by
    intro s type s' hs
    by_cases hat : node = w.node ∧ scope = w.scope ∧ s = w.state
    · simp [stop, hat] at hs
    · simpa only [stop, if_neg hat] using hs
  obtain ⟨type', s', hs⟩ := h stop hrefines type s (heq.trans hok)
  simp [stop] at hs

/-! ## What a visit goes on to -/

def programOpened (name : String) : Analyzing Nat := do
  let root ← changeWith (·.push name none)
  modify fun state => { state with root := some root }
  change (·.addBuiltins root)
  return root

def functionOpened (scope : Option Nat) (name : Token) (parameters : List Parameter) :
    Analyzing Nat := do
  let i ← here scope
  let symbols ← announce i name parameters
  note 2 s!"define function {name.text}"
  let child ← changeWith (·.push name.text (some i))
  symbols.forM fun symbol => change (·.update child (·.insertVariable symbol))
  return child

section

variable {walk : Node → Option Nat → Analyzing (Option Symbol)} {scope : Option Nat}
  {type : Option Symbol} {s t : Analysis}

theorem visitNode_program (name : String) (block : Node) :
    visitNode walk (.program name block) scope = (do
      discard (walk block (some (← programOpened name)))
      noteScope (← get).root
      return none) := by
  simp only [visitNode, programOpened, bind_assoc, pure_bind]

theorem program_eq_ok {name : String} {block : Node}
    (h : visitNode walk (.program name block) scope s = .ok type t) :
    ∃ root s₁ type' s₂, programOpened name s = .ok root s₁ ∧
      walk block (some root) s₁ = .ok type' s₂ := by
  rw [visitNode_program] at h
  obtain ⟨root, s₁, hopen, h⟩ := bind_eq_ok h
  obtain ⟨_, s₂, h, -⟩ := bind_eq_ok h
  obtain ⟨type', s₃, hwalk, -⟩ := bind_eq_ok h
  exact ⟨root, s₁, type', s₃, hopen, hwalk⟩

theorem forM_append_eq_ok {before after : List Node} {f : Node → Analyzing Unit}
    (h : (before ++ after).forM f s = .ok () t) :
    ∃ s₁, before.forM f s = .ok () s₁ ∧ after.forM f s₁ = .ok () t := by
  induction before generalizing s with
  | nil => exact ⟨s, rfl, h⟩
  | cons n before ih =>
    obtain ⟨_, s₁, hn, h⟩ := bind_eq_ok h
    obtain ⟨s₂, hbefore, hafter⟩ := ih h
    exact ⟨s₂, (bind_of_ok hn).trans hbefore, hafter⟩

theorem compound_eq_ok {before after : List Node} {node : Node}
    (h : visitNode walk (.compound (before ++ node :: after)) scope s = .ok type t) :
    ∃ s₁ type' s₂, before.forM (fun n => discard (walk n scope)) s = .ok () s₁ ∧
      walk node scope s₁ = .ok type' s₂ := by
  obtain ⟨_, s₁, h, -⟩ := bind_eq_ok h
  obtain ⟨s₂, hbefore, h⟩ := forM_append_eq_ok h
  obtain ⟨_, s₃, h, -⟩ := bind_eq_ok h
  obtain ⟨type', s₄, h, -⟩ := bind_eq_ok h
  exact ⟨s₂, type', s₄, hbefore, h⟩

theorem function_eq_ok {name : Token} {parameters : List Parameter} {body : Node}
    (h : visitNode walk (.function name parameters body) scope s = .ok type t) :
    ∃ child s₁ type' s₂, functionOpened scope name parameters s = .ok child s₁ ∧
      walk body (some child) s₁ = .ok type' s₂ := by
  obtain ⟨_, s₀, h, -⟩ := bind_eq_ok h
  cases scope with
  | none => cases h
  | some i =>
    rw [declareFunction_eq] at h
    obtain ⟨symbols, s₁, hannounce, h⟩ := bind_eq_ok h
    obtain ⟨_, s₂, hnote, h⟩ := bind_eq_ok h
    obtain ⟨child, s₃, hpush, h⟩ := bind_eq_ok h
    obtain ⟨s₄, h, -⟩ := ensuring_eq_ok h
    obtain ⟨_, s₅, hinsert, h⟩ := bind_eq_ok h
    obtain ⟨_, s₆, h, -⟩ := bind_eq_ok h
    obtain ⟨type', s₇, h, -⟩ := bind_eq_ok h
    refine ⟨child, s₅, type', s₇, ?_, h⟩
    refine (bind_of_ok hannounce).trans ?_
    rw [bind_of_ok hnote, bind_of_ok hpush, bind_of_ok hinsert]
    rfl

end

section

variable {depth : Nat} {scope : Option Nat} {type : Option Symbol} {s t : Analysis}

theorem makes_block {name : String} {block : Node}
    (h : visit (depth + 1) (.program name block) scope s = .ok type t) :
    ∃ root s₁ type' s₂, programOpened name s = .ok root s₁ ∧
      visit depth block (some root) s₁ = .ok type' s₂ ∧
      Makes ⟨depth + 1, .program name block, scope, s⟩ ⟨depth, block, some root, s₁⟩ := by
  have hnode := h
  rw [visit_succ] at hnode
  obtain ⟨root, s₁, type', s₂, hopen, hblock⟩ := program_eq_ok hnode
  refine ⟨root, s₁, type', s₂, hopen, hblock, makes_of_needed rfl h fun walk _ type t hwalk => ?_⟩
  obtain ⟨root', s₁', type'', s₂', hopen', hblock'⟩ := program_eq_ok hwalk
  cases hopen.symm.trans hopen'
  exact ⟨type'', s₂', hblock'⟩

theorem makes_child {before after : List Node} {node : Node}
    (h : visit (depth + 1) (.compound (before ++ node :: after)) scope s = .ok type t) :
    ∃ s₁ type' s₂, before.forM (fun n => discard (visit depth n scope)) s = .ok () s₁ ∧
      visit depth node scope s₁ = .ok type' s₂ ∧
      Makes ⟨depth + 1, .compound (before ++ node :: after), scope, s⟩ ⟨depth, node, scope, s₁⟩ := by
  have hnode := h
  rw [visit_succ] at hnode
  obtain ⟨s₁, type', s₂, hbefore, hchild⟩ := compound_eq_ok hnode
  refine ⟨s₁, type', s₂, hbefore, hchild,
    makes_of_needed rfl h fun walk hrefines type t hwalk => ?_⟩
  obtain ⟨s₁', type'', s₂', hbefore', hchild'⟩ := compound_eq_ok hwalk
  have hsame := refines_forM before (fun n => (hrefines n scope).discard) _ _ _ hbefore'
  cases hbefore.symm.trans hsame
  exact ⟨type'', s₂', hchild'⟩

theorem makes_body {name : Token} {parameters : List Parameter} {body : Node}
    (h : visit (depth + 1) (.function name parameters body) scope s = .ok type t) :
    ∃ child s₁ type' s₂, functionOpened scope name parameters s = .ok child s₁ ∧
      visit depth body (some child) s₁ = .ok type' s₂ ∧
      Makes ⟨depth + 1, .function name parameters body, scope, s⟩
        ⟨depth, body, some child, s₁⟩ := by
  have hnode := h
  rw [visit_succ] at hnode
  obtain ⟨child, s₁, type', s₂, hopen, hbody⟩ := function_eq_ok hnode
  refine ⟨child, s₁, type', s₂, hopen, hbody, makes_of_needed rfl h fun walk _ type t hwalk => ?_⟩
  obtain ⟨child', s₁', type'', s₂', hopen', hbody'⟩ := function_eq_ok hwalk
  cases hopen.symm.trans hopen'
  exact ⟨type'', s₂', hbody'⟩

end

end Visit

end Analyzing

end LittleLang
