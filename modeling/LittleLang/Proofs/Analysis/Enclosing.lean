import LittleLang.Proofs.Analysis.Invariants
import LittleLang.Proofs.Analysis.Live

/-!
# The scopes around a walk

Whatever a walk visits, it changes no scope that it comes back to but the one that it stands in
(`sparing_visit`), and that one only by the symbols and variables that are put into it. So every
visit of an analysis stands in a scope that the walk comes back to (`Visit.Reaches.placed`).

By the walk over the body of a function, which is in a scope of its own, none of the scopes around
it is changed (`sparing_enclose`). -/

namespace LittleLang

/-! ## Steps that spare the scopes around them -/

namespace Analyzing

variable {α : Type} {s₀ s s' : Analysis} {current : Option Nat} {scopes : List Nat}

/-- The scopes are live, and spared since an earlier state. -/
structure Spared (s₀ : Analysis) (current : Option Nat) (scopes : List Nat) (s : Analysis) :
    Prop where
  live : s.Live scopes
  spares : Arena.Spares current scopes s₀.arena s.arena

theorem Spared.start (h : s.Live scopes) : Spared s current scopes s :=
  ⟨h, .refl _⟩

theorem Spared.next (h : Spared s₀ current scopes s)
    (hspares : Arena.Spares current scopes s.arena s'.arena) (hlast : s'.lastScope = s.lastScope) :
    Spared s₀ current scopes s' :=
  ⟨h.live.next hspares hlast, h.spares.trans hspares⟩

/-- Two steps that come to the same and spare the scopes, also if they fail. -/
abbrev Sparing (s₀ : Analysis) (current : Option Nat) (scopes : List Nat) (p p' : Analyzing α) :
    Prop :=
  Holding (Spared s₀ current scopes) p p'

theorem Sparing.weaken {p p' : Analyzing α} (h : ∀ s₁, Sparing s₁ none scopes p p') :
    Sparing s₀ current scopes p p' := by
  refine holding_of_eq (fun s hs => ?_) fun s hs => (h s).eq (.start hs.live)
  refine ((h s).keeps s (.start hs.live)).imp fun t ht => ?_
  exact ⟨ht.live, hs.spares.trans ht.spares.weaken⟩

theorem spared_change {step : Arena → Except Failure Arena}
    (h : ∀ a a', step a = .ok a' → Arena.Spares current scopes a a') :
    Keeps (Spared s₀ current scopes) (change step) :=
  keeps_change fun _ a hs hstep => hs.next (h _ a hstep) rfl

theorem spared_note (level : Int) (text : String) :
    Keeps (Spared s₀ current scopes) (note level text) :=
  keeps_modify fun _ hs => hs.next (.refl _) rfl

theorem spared_noteScope (scope : Option Nat) :
    Keeps (Spared s₀ current scopes) (noteScope scope) :=
  keeps_noteScope (spared_note 1) scope

theorem spared_parameterSymbol (scope : Option Nat) (p : Parameter) :
    Keeps (Spared s₀ current scopes) (parameterSymbol scope p) :=
  keeps_parameterSymbol
    (fun _ hs => hs.next (Arena.spares_of_same (fun _ _ => rfl) (Nat.le_refl _)) rfl) p

theorem spared_add (kind : TableKind) (i : Nat) (make : Nat → Symbol) :
    Keeps (Spared s₀ (some i) scopes) (change (·.add kind i make)) :=
  spared_change fun _ _ h => Arena.spares_add h

theorem spared_declare (i : Nat) (name : String) (type : Option Symbol) :
    Keeps (Spared s₀ (some i) scopes) (declare i name type) :=
  (spared_add .variables i (.var · name type)).bind fun _ => spared_note 2 _

theorem spared_announce (i : Nat) (name : Token) (parameters : List Parameter) :
    Keeps (Spared s₀ (some i) scopes) (announce i name parameters) :=
  keeps_announce (keeps_putFunction (spared_parameterSymbol (some i))
    (fun symbols => spared_add .symbols i (.function · name.text symbols)) parameters)

/-! ## Scopes inside of others -/

/-- A scope is opened, and what is done in it spares the others. -/
theorem sparing_within {body body' : Nat → Analyzing α} {name : String} {parent : Option Int}
    (hparent : ∀ p, parent = some p → ∃ q ∈ scopes, p = (q : Int))
    (h : ∀ s₁ child, (∀ k ∈ scopes, k < child) → s₁.Live (child :: scopes) →
      body child s₁ = body' child s₁ ∧ After (Spared s₁ none scopes) (body child s₁)) :
    Sparing s₀ none scopes (changeWith (·.push name parent) >>= body)
      (changeWith (·.push name parent) >>= body') := by
  have hrun (s : Analysis) (hs : Spared s₀ none scopes s) :
      (changeWith (·.push name parent) >>= body) s =
          (changeWith (·.push name parent) >>= body') s ∧
        After (Spared s₀ none scopes) ((changeWith (·.push name parent) >>= body) s) := by
    cases hpush : s.arena.push name parent with
    | ok found =>
      obtain ⟨hchild, hlive, hspares⟩ := hs.live.push hparent hpush
      obtain ⟨heq, hafter⟩ := h _ found.1 hchild hlive
      rw [bind_of_ok (changeWith_eq hpush), bind_of_ok (changeWith_eq hpush)]
      refine ⟨heq, hafter.imp fun t ht => ?_⟩
      exact ⟨ht.live, hs.spares.trans (hspares.trans ht.spares)⟩
    | error e =>
      rw [bind_of_error (changeWith_error hpush), bind_of_error (changeWith_error hpush)]
      exact ⟨rfl, hs⟩
  exact holding_of_eq (fun s hs => (hrun s hs).2) fun s hs => (hrun s hs).1

theorem sparing_root {body body' : Nat → Analyzing α} (name : String)
    (h : ∀ s₁ root, Sparing s₁ (some root) (root :: scopes) (body root) (body' root)) :
    Sparing s₀ none scopes (changeWith (·.push name none) >>= body)
      (changeWith (·.push name none) >>= body') := by
  refine sparing_within (fun _ hp => by cases hp) fun s₁ root hroot hlive => ?_
  refine ⟨(h s₁ root).eq (.start hlive), ((h s₁ root).keeps s₁ (.start hlive)).imp fun t ht => ?_⟩
  exact ⟨ht.live.tail hroot, ht.spares.outside fun hmem => Nat.lt_irrefl _ (hroot root hmem)⟩

theorem sparing_enclosed {body body' : Nat → Analyzing α} (name : String) {i : Nat}
    (hi : i ∈ scopes)
    (h : ∀ s₁ child, Sparing s₁ (some child) (child :: scopes) (body child) (body' child)) :
    Sparing s₀ none scopes
      (changeWith (·.push name (some (i : Int))) >>= fun child => ensuring (body child) (leave child))
      (changeWith (·.push name (some (i : Int))) >>=
        fun child => ensuring (body' child) (leave child)) := by
  have hparent (p : Int) (hp : some (i : Int) = some p) : ∃ q ∈ scopes, p = (q : Int) :=
    ⟨i, hi, (Option.some.inj hp).symm⟩
  refine sparing_within hparent fun s₁ child hchild hlive => ⟨?_, ?_⟩
  · unfold ensuring
    rw [(h s₁ child).eq (.start hlive)]
  · refine after_ensuring ((h s₁ child).keeps s₁ (.start hlive)) fun t ht => ?_
    -- the scope of the function is still open, however the walk over the body ended
    obtain ⟨t', ht', hlive', hspares', -⟩ := ht.live.leave hchild ht.spares
    rw [ht']
    exact ⟨hlive', hspares'⟩

/-! ## Declarations of functions -/

theorem sparing_walkInside {walk walk' : Option Nat → Analyzing (Option Symbol)} {child : Nat}
    (h : Sparing s₀ (some child) scopes (walk (some child)) (walk' (some child)))
    (symbols : List Symbol) :
    Sparing s₀ (some child) scopes (walkInside symbols walk child)
      (walkInside symbols walk' child) := by
  have hparent (symbol : Symbol) (scope : Scope) :
      (scope.insertVariable symbol).parent = scope.parent := rfl
  refine InStep.next (holding_of_keeps (keeps_forM fun symbol => ?_)) fun _ => ?_
  · exact spared_change fun _ _ h => Arena.spares_update (hparent symbol) h
  · exact h.discard.next fun _ => holding_of_keeps (spared_noteScope _)

theorem sparing_enclose {walk walk' : Option Nat → Analyzing (Option Symbol)} {i : Nat}
    (hi : i ∈ scopes)
    (h : ∀ s₁ child, Sparing s₁ (some child) (child :: scopes) (walk (some child))
      (walk' (some child))) (name : String) (symbols : List Symbol) :
    Sparing s₀ none scopes (enclose i name symbols walk) (enclose i name symbols walk') :=
  InStep.next (holding_of_keeps (spared_note 2 _)) fun _ =>
    sparing_enclosed name hi fun s₁ child => sparing_walkInside (h s₁ child) symbols

theorem sparing_declareFunction {walk walk' : Option Nat → Analyzing (Option Symbol)}
    (hcurrent : ∀ i, current = some i → i ∈ scopes)
    (h : ∀ s₁ child, Sparing s₁ (some child) (child :: scopes) (walk (some child))
      (walk' (some child))) (name : Token) (parameters : List Parameter) :
    Sparing s₀ current scopes (declareFunction current name parameters walk)
      (declareFunction current name parameters walk') := by
  cases current with
  | none => exact holding_of_keeps (keeps_throw _)
  | some i =>
    rw [declareFunction_eq, declareFunction_eq]
    refine InStep.next (holding_of_keeps (spared_announce i name parameters)) fun symbols => ?_
    exact Sparing.weaken fun s₁ => sparing_enclose (hcurrent i rfl) h name.text symbols

/-! ## The walk -/

theorem sparing_visitNode {walk walk' : Node → Option Nat → Analyzing (Option Symbol)}
    (h : ∀ s₁ current scopes node, (∀ i, current = some i → i ∈ scopes) →
      Sparing s₁ current scopes (walk node current) (walk' node current))
    (hcurrent : ∀ i, current = some i → i ∈ scopes) (node : Node) :
    Sparing s₀ current scopes (visitNode walk node current) (visitNode walk' node current) := by
  have hinner (node : Node) (s₁ : Analysis) (child : Nat) :
      Sparing s₁ (some child) (child :: scopes) (walk node (some child))
        (walk' node (some child)) :=
    h s₁ (some child) (child :: scopes) node fun _ hi => Option.some.inj hi ▸ List.mem_cons_self
  refine holding_visitNode (fun node => h s₀ current scopes node hcurrent)
    (spared_parameterSymbol current) (keeps_declareTarget fun i hi => hi ▸ spared_declare i)
    (fun name parameters body => sparing_declareFunction hcurrent (hinner body) name parameters)
    (fun name block => ?_) node
  refine Sparing.weaken fun s₁ => sparing_root name fun s₂ root => ?_
  have hroot : Keeps (Spared s₂ (some root) (root :: scopes))
      (modify fun s : Analysis => { s with root := some root } : Analyzing PUnit) :=
    keeps_modify fun _ hs => hs.next (.refl _) rfl
  refine InStep.next (holding_of_keeps hroot) fun _ => ?_
  refine InStep.next (holding_of_keeps (spared_change fun _ _ h => Arena.spares_addBuiltins h))
    fun _ => ?_
  refine (hinner block s₂ root).discard.next fun _ => ?_
  exact holding_of_keeps (keeps_get.bind fun s =>
    (spared_noteScope s.root).bind fun _ => keeps_pure _)

/-- A walk changes none of the scopes that it comes back to but the one it stands in. -/
theorem sparing_visit (depth : Nat) (hcurrent : ∀ i, current = some i → i ∈ scopes) (node : Node) :
    Sparing s₀ current scopes (visit depth node current) (visit depth node current) := by
  induction depth generalizing s₀ current scopes node with
  | zero => exact holding_of_keeps (keeps_throw _)
  | succ depth ih =>
    rw [visit_succ]
    exact sparing_visitNode (fun _ _ _ node hcurrent => ih hcurrent node) hcurrent node

namespace Visit

variable {v w : Visit}

/-- A visit stands in a scope that the walk can come back to, or in none. -/
def Placed (v : Visit) : Prop :=
  ∃ scopes, v.state.Live scopes ∧ ∀ i, v.scope = some i → i ∈ scopes

theorem Makes.placed (h : v.Makes w) (hv : v.Placed) : w.Placed := by
  obtain ⟨scopes, hlive, hscope⟩ := hv
  refine h.of_passes (Q := fun _ scope s => ∃ scopes, s.Live scopes ∧ ∀ i, scope = some i → i ∈ scopes)
    fun walk hwalk => ?_
  have hsparing : Sparing v.state v.scope scopes (visitNode walk v.node v.scope)
      (visitNode (visit w.depth) v.node v.scope) := by
    refine sparing_visitNode (fun s₁ current scopes node hcurrent => ?_) hscope v.node
    rintro _ s ⟨rfl, hs⟩
    rw [hwalk node current s ⟨scopes, hs.live, hcurrent⟩]
    exact sparing_visit w.depth hcurrent node s s ⟨rfl, hs⟩
  exact hsparing.eq (.start hlive)

theorem Reaches.placed {depth : Nat} {tree : Node} {log : Log} {keep : Bool}
    (h : Reaches ⟨depth, tree, none, { log, keep }⟩ v) : v.Placed := by
  induction h with
  | refl =>
    refine ⟨[], ⟨fun _ hk => absurd hk List.not_mem_nil, fun _ hl => by cases hl⟩, fun _ hi => ?_⟩
    cases hi
  | tail _ hmakes ih => exact hmakes.placed ih

end Visit

end Analyzing

end LittleLang
