import LittleLang.Proofs.Analysis.Objections
import LittleLang.Proofs.Analysis.Paths
import LittleLang.Proofs.Analysis.Rules
import LittleLang.Proofs.Forms
import LittleLang.Proofs.Likeness.Steps

/-!
# Scopes are released

However an analysis ends, it leaves no scope open but that of the program; or, if it is to keep the
scope of a function, that of the program and that of the function left last (`scopes_released`).
What it keeps changes neither its verdict nor its log.

Which scopes a walk leaves, and in which order, is told by an account of it (`Account`): the walk
over a declaration opens a scope, walks over the body inside of it, and leaves it. The two ways to
leave a scope are compared by taking both walks side by side (`Both`), with arenas that match on the
path of scopes that the walks stand in. -/

namespace LittleLang

open Analyzing

/-! ## Accounts -/

structure Analysis.Unmoved (s s' : Analysis) : Prop where
  arena : s.arena.Undisturbed s'.arena
  lastScope : s'.lastScope = s.lastScope
  keep : s'.keep = s.keep

/-- Between two states, a walk that stands in the scope `i` leaves the scopes `left`, in this
order. -/
inductive Account : Nat → Analysis → List Nat → Analysis → Prop where
  | start (i : Nat) (s : Analysis) : Account i s [] s
  | step {i : Nat} {s s₁ s₂ : Analysis} {left : List Nat} : Account i s left s₁ →
      s₁.Unmoved s₂ → Account i s left s₂
  | function {i child : Nat} {s s₁ s₂ s₃ : Analysis} {left inner : List Nat} {name : String}
      {arena : Arena} : Account i s left s₁ →
      s₁.arena.push name (some (i : Int)) = .ok (child, arena) →
      Account child { s₁ with arena } inner s₂ → leave child s₂ = .ok () s₃ →
      Account i s (left ++ (inner ++ [child])) s₃

theorem Arena.size_push {a a' : Arena} {name : String} {parent : Option Int} {child : Nat}
    (h : a.push name parent = .ok (child, a')) :
    child = a.slots.size ∧ a'.slots.size = a.slots.size + 1 := by
  obtain ⟨rfl, level, rfl⟩ := push_inv h
  exact ⟨rfl, Array.size_push _⟩

theorem Arena.size_close {a a' : Arena} {i : Int} {parent : Option Int}
    (h : a.close i = .ok (parent, a')) : a'.slots.size = a.slots.size := by
  unfold Arena.close at h
  cases hl : a.locate i with
  | error e =>
    rw [hl] at h
    cases h
  | ok found =>
    rw [hl] at h
    cases h
    simp

namespace Analyzing

/-! ## Leaving a scope -/

section

variable {s s' : Analysis} {i : Nat} {parent : Option Int} {arena : Arena}

theorem discard_changeWith_eq {α : Type} {step : Arena → Except Failure (α × Arena)} {a : α}
    (h : step s.arena = .ok (a, arena)) :
    discard (changeWith step) s = .ok () { s with arena } :=
  bind_of_ok (changeWith_eq h)

theorem leave_closing (hk : s.keep = false) (h : s.arena.close i = .ok (parent, arena)) :
    leave i s = .ok () { s with arena } := by
  unfold leave
  simp only [bind, EStateM.bind, get_apply]
  rw [if_neg (by simp [hk])]
  exact discard_changeWith_eq h

theorem leave_keeping (hk : s.keep = true) (hl : s.lastScope = none) :
    leave i s = .ok () { s with lastScope := some i } := by
  unfold leave
  simp only [bind, EStateM.bind, get_apply, hl]
  rw [if_pos hk]
  rfl

theorem leave_replacing {l : Nat} (hk : s.keep = true) (hl : s.lastScope = some l)
    (hopen : s.arena.isOpen l = true) (h : s.arena.close l = .ok (parent, arena)) :
    leave i s = .ok () { s with arena, lastScope := some i } := by
  have hclose : discard (changeWith (·.close l)) s = .ok () { s with arena } :=
    discard_changeWith_eq h
  unfold leave
  simp only [bind, EStateM.bind, get_apply, hl]
  rw [if_pos hk, if_pos hopen]
  exact bind_of_ok hclose

end

/-! ## Both walks -/

/-- Both walks stand at the end of a path of scopes. The first closes the scopes it leaves and the
second keeps the last one; up to here they have left the same scopes. -/
structure Abreast (i : Nat) (rest : List Nat) (s₀ t₀ s t : Analysis) : Prop where
  arenas : Arena.Matched (i :: rest) t.lastScope s.arena t.arena
  keep : s.keep = false
  keep' : t.keep = true
  root : s.root = some 0
  root' : t.root = some 0
  log : t.log = s.log
  accounts : ∃ left, Account i s₀ left s ∧ Account i t₀ left t

structure FailAlike (i : Nat) (rest : List Nat) (s₀ t₀ : Analysis) (e e' : Failure)
    (s t : Analysis) : Prop where
  same : e' = e
  sound : ∀ fault, e ≠ .scope fault
  abreast : Abreast i rest s₀ t₀ s t

def Both {α : Type} (i : Nat) (rest : List Nat) (p : Analyzing α) : Prop :=
  ∀ s₀ t₀, InStep (Abreast i rest s₀ t₀) (FailAlike i rest s₀ t₀) p p Eq

variable {α β : Type} {i : Nat} {rest : List Nat}

section

variable {s₀ t₀ s t s' t' : Analysis}

theorem Abreast.step (h : Abreast i rest s₀ t₀ s t)
    (harenas : Arena.Matched (i :: rest) t.lastScope s'.arena t'.arena) (hs : s.Unmoved s')
    (ht : t.Unmoved t') (hroot : s'.root = s.root) (hroot' : t'.root = t.root)
    (hlog : t'.log = s'.log) : Abreast i rest s₀ t₀ s' t' := by
  obtain ⟨left, haccount, haccount'⟩ := h.accounts
  exact ⟨by rw [ht.lastScope]; exact harenas, hs.keep.trans h.keep, ht.keep.trans h.keep',
    hroot.trans h.root, hroot'.trans h.root', hlog, left, haccount.step hs, haccount'.step ht⟩

end

theorem both_pure (a : α) : Both i rest (pure a) :=
  fun _ _ => inStep_pure rfl

theorem Both.bind {p : Analyzing α} {f : α → Analyzing β} (h : Both i rest p)
    (hf : ∀ a, Both i rest (f a)) : Both i rest (p >>= f) :=
  fun s₀ t₀ => (h s₀ t₀).next fun a => hf a s₀ t₀

theorem Both.discard {p : Analyzing α} (h : Both i rest p) : Both i rest (discard p) :=
  fun s₀ t₀ => (h s₀ t₀).discard

theorem Both.ite {c : Prop} [Decidable c] {p q : Analyzing α} (h : Both i rest p)
    (h' : Both i rest q) : Both i rest (if c then p else q) :=
  fun s₀ t₀ => InStep.ite (fun _ => h s₀ t₀) fun _ => h' s₀ t₀

theorem both_throw {e : Failure} (h : ∀ fault, e ≠ .scope fault) :
    Both i rest (throw e : Analyzing α) :=
  fun _ _ => inStep_throw fun _ _ hs => ⟨rfl, h, hs⟩

theorem both_blame (token : Token) (cause : SemanticCause) :
    Both i rest (blame token cause : Analyzing α) :=
  both_throw nofun

theorem both_blameKeyword (keyword : Option Token) (cause : SemanticCause) :
    Both i rest (blameKeyword keyword cause : Analyzing α) := by
  cases keyword with
  | some token => exact both_blame token cause
  | none => exact both_throw nofun

theorem both_forM {f : α → Analyzing PUnit} {as : List α} (h : ∀ a ∈ as, Both i rest (f a)) :
    Both i rest (as.forM f) := by
  induction as with
  | nil => exact both_pure _
  | cons a as ih => exact (h a (by simp)).bind fun _ => ih fun b hb => h b (by simp [hb])

theorem both_mapM {f : α → Analyzing β} {as : List α} (h : ∀ a ∈ as, Both i rest (f a)) :
    Both i rest (as.mapM f) := by
  induction as with
  | nil => exact both_pure _
  | cons a as ih =>
    rw [List.mapM_cons]
    refine (h a (by simp)).bind fun b => ?_
    exact (ih fun b hb => h b (by simp [hb])).bind fun bs => both_pure _

/-! ### Single steps -/

theorem both_note (level : Int) (text : String) : Both i rest (note level text) := by
  intro s₀ t₀ s t h
  refine .ok rfl (h.step h.arenas ⟨.refl _, rfl, rfl⟩ ⟨.refl _, rfl, rfl⟩ rfl rfl ?_)
  show t.log.write level text = s.log.write level text
  rw [h.log]

theorem both_ask {query : Arena → Except Failure α}
    (h : ∀ kept a b, Arena.Matched (i :: rest) kept a b → ∃ x, query a = .ok x ∧ query b = .ok x) :
    Both i rest (ask query) := by
  intro s₀ t₀ s t hs
  obtain ⟨x, hx, hx'⟩ := h _ _ _ hs.arenas
  rw [ask_eq hx, ask_eq hx']
  exact .ok rfl hs

theorem both_changeWith {step : Arena → Except Failure (α × Arena)}
    (h : ∀ kept a b, Arena.Matched (i :: rest) kept a b → ∃ x a' b', step a = .ok (x, a') ∧
      step b = .ok (x, b') ∧ Arena.Matched (i :: rest) kept a' b' ∧ a.Undisturbed a' ∧
      b.Undisturbed b') : Both i rest (changeWith step) := by
  intro s₀ t₀ s t hs
  obtain ⟨x, a', b', hx, hx', harenas, ha, hb⟩ := h _ _ _ hs.arenas
  rw [changeWith_eq hx, changeWith_eq hx']
  exact .ok rfl (hs.step harenas ⟨ha, rfl, rfl⟩ ⟨hb, rfl, rfl⟩ rfl rfl hs.log)

theorem both_change {step : Arena → Except Failure Arena}
    (h : ∀ kept a b, Arena.Matched (i :: rest) kept a b → ∃ a' b', step a = .ok a' ∧
      step b = .ok b' ∧ Arena.Matched (i :: rest) kept a' b' ∧ a.Undisturbed a' ∧
      b.Undisturbed b') : Both i rest (change step) := by
  intro s₀ t₀ s t hs
  obtain ⟨a', b', hx, hx', harenas, ha, hb⟩ := h _ _ _ hs.arenas
  rw [change_eq hx, change_eq hx']
  exact .ok rfl (hs.step harenas ⟨ha, rfl, rfl⟩ ⟨hb, rfl, rfl⟩ rfl rfl hs.log)

theorem Both.here {f : Nat → Analyzing β} (h : Both i rest (f i)) :
    Both i rest (here (some i) >>= f) :=
  h

theorem both_lookup (name : String) : Both i rest (lookup (some i) name) :=
  .here (both_ask fun _ _ _ h => h.lookup name)

theorem both_fetch : Both i rest (ask (·.fetch i)) :=
  both_ask fun _ _ _ h => h.fetch

theorem both_noteScope : Both i rest (noteScope (some i)) :=
  .here (both_fetch.bind fun scope => both_note 1 scope.text)

/-! ### Checks -/

theorem both_checkOperator (op : Token) (operand : Option Symbol) :
    Both i rest (checkOperator op operand) := by
  unfold checkOperator
  cases operand with
  | none => exact both_pure _
  | some type => exact .ite (both_blame _ _) (.ite (both_blame _ _) (both_pure _))

theorem both_checkCondition (keyword : Option Token) (type : Option Symbol) :
    Both i rest (checkCondition keyword type) := by
  cases type with
  | none => exact both_pure _
  | some type => exact .ite (both_blameKeyword _ _) (both_pure _)

theorem both_agree (op : Token) (left right : Option Symbol) :
    Both i rest (agree op left right) := by
  unfold agree
  match left, right with
  | some l, some r => exact .ite (both_pure _) (both_blame _ _)
  | some l, none => exact both_pure _
  | none, right => exact both_pure _

theorem both_checkArguments (name : Token) (parameters : List Symbol)
    (arguments : List (Option Symbol)) : Both i rest (checkArguments name parameters arguments) := by
  unfold checkArguments
  refine .ite (both_blame _ _) (both_forM fun pair _ => ?_)
  obtain ⟨parameter, argument⟩ := pair
  cases argument with
  | none => exact both_pure _
  | some type => exact .ite (both_blame _ _) (both_pure _)

/-! ### Declarations -/

theorem both_typeOf (type : Token) : Both i rest (typeOf (some i) type) := by
  refine (both_lookup type.text).bind fun found => ?_
  cases found with
  | some symbol => exact both_pure _
  | none => exact both_blame _ _

theorem both_parameterSymbol (p : Parameter) : Both i rest (parameterSymbol (some i) p) := by
  refine (both_typeOf p.type).bind fun type => both_changeWith fun kept a b h => ?_
  obtain ⟨hsymbol, harenas⟩ := h.create (.var · p.name.text (some type))
  exact ⟨_, _, _, rfl, congrArg (fun symbol => Except.ok (symbol, _)) hsymbol, harenas,
    ⟨rfl, fun _ => rfl⟩, ⟨rfl, fun _ => rfl⟩⟩

theorem both_parameterSymbols (known : List Symbol) (ps : List Parameter) :
    Both i rest (parameterSymbols (some i) known ps) := by
  induction ps generalizing known with
  | nil => exact both_pure _
  | cons p ps ih =>
    unfold parameterSymbols
    exact .ite (both_blame _ _) ((both_parameterSymbol p).bind fun symbol => ih _)

theorem both_addSymbol (make : Nat → Symbol) : Both i rest (change (·.addSymbol i make)) :=
  both_change fun _ _ _ h => h.add .symbols make

theorem both_declare (name : String) (type : Option Symbol) : Both i rest (declare i name type) :=
  (both_change fun _ _ _ h => h.add .variables (.var · name type)).bind fun _ => both_note 2 _

theorem both_declareTarget (type : Option Token) (target op : Token) (valueType : Option Symbol) :
    Both i rest (declareTarget (some i) type target op valueType) := by
  refine .here (both_fetch.bind fun table => ?_)
  cases type with
  | none => exact .ite (both_pure _) (both_declare _ _)
  | some type =>
    refine (both_typeOf type).bind fun declared => ?_
    cases valueType with
    | none => exact both_declare _ _
    | some given => exact .ite (both_declare _ _) (both_blame _ _)

theorem Abreast.leave {p : Nat} {s₀ t₀ s t : Analysis} (h : Abreast i (p :: rest) s₀ t₀ s t) :
    ∃ s' t', Analyzing.leave i s = .ok () s' ∧ Analyzing.leave i t = .ok () t' ∧
      Arena.Matched (p :: rest) t'.lastScope s'.arena t'.arena ∧ s'.keep = false ∧
      t'.keep = true ∧ s'.root = some 0 ∧ t'.root = some 0 ∧ t'.log = s'.log := by
  obtain ⟨parent, a', b', hclose, harenas, hkept⟩ := h.arenas.leave
  rcases hkept with ⟨hnone, rfl⟩ | ⟨l, parent', hsome, hopen, hclose'⟩
  · exact ⟨_, _, leave_closing h.keep hclose, leave_keeping h.keep' hnone, harenas, h.keep,
      h.keep', h.root, h.root', h.log⟩
  · exact ⟨_, _, leave_closing h.keep hclose, leave_replacing h.keep' hsome hopen hclose', harenas,
      h.keep, h.keep', h.root, h.root', h.log⟩

/-- A scope is opened, walked over and left, however the walk ends. -/
theorem both_enclosed {body : Nat → Analyzing α} (h : ∀ child, Both child (i :: rest) (body child))
    (name : String) :
    Both i rest (do
      let child ← changeWith (·.push name (some (i : Int)))
      ensuring (body child) (leave child)) := by
  intro s₀ t₀ s t hs
  obtain ⟨a', b', hpush, hpush', harenas⟩ := hs.arenas.push name
  have hopen : Abreast s.arena.slots.size (i :: rest) { s with arena := a' } { t with arena := b' }
      { s with arena := a' } { t with arena := b' } :=
    ⟨harenas, hs.keep, hs.keep', hs.root, hs.root', hs.log, [], .start _ _, .start _ _⟩
  have hbody := h s.arena.slots.size _ _ _ _ hopen
  simp only [bind, EStateM.bind]
  rw [changeWith_eq hpush, changeWith_eq hpush']
  obtain ⟨left, haccount, haccount'⟩ := hs.accounts
  -- The two ends of the walk over the body come to the same: the scope is left.
  have hleave {s₁ t₁ : Analysis} (habreast : Abreast s.arena.slots.size (i :: rest)
      { s with arena := a' } { t with arena := b' } s₁ t₁) :
      ∃ s₂ t₂, leave s.arena.slots.size s₁ = .ok () s₂ ∧
        leave s.arena.slots.size t₁ = .ok () t₂ ∧ Abreast i rest s₀ t₀ s₂ t₂ := by
    obtain ⟨s₂, t₂, hs₂, ht₂, hmatch, hkeep, hkeep', hroot, hroot', hlog⟩ := habreast.leave
    obtain ⟨inner, hinner, hinner'⟩ := habreast.accounts
    exact ⟨s₂, t₂, hs₂, ht₂, hmatch, hkeep, hkeep', hroot, hroot', hlog, _,
      haccount.function hpush hinner hs₂, haccount'.function hpush' hinner' ht₂⟩
  unfold ensuring
  dsimp only
  generalize body s.arena.slots.size { s with arena := a' } = r at hbody
  generalize body s.arena.slots.size { t with arena := b' } = r' at hbody
  cases hbody with
  | ok ha hab =>
    obtain ⟨s₂, t₂, hs₂, ht₂, habreast⟩ := hleave hab
    simp only [hs₂, ht₂]
    exact .ok ha habreast
  | error he =>
    obtain ⟨s₂, t₂, hs₂, ht₂, habreast⟩ := hleave he.abreast
    simp only [hs₂, ht₂]
    exact .error ⟨he.same, he.sound, habreast⟩

theorem both_announce (name : Token) (parameters : List Parameter) :
    Both i rest (announce i name parameters) := by
  rw [announce_eq]
  refine both_fetch.bind fun scope => .ite (both_blame _ _) ?_
  refine (both_parameterSymbols [] parameters).bind fun symbols => ?_
  exact (both_addSymbol _).bind fun _ => both_pure _

theorem both_walkInside {walk : Option Nat → Analyzing (Option Symbol)}
    (h : Both i rest (walk (some i))) (symbols : List Symbol) :
    Both i rest (walkInside symbols walk i) := by
  have hinsert (symbol : Symbol) : Both i rest (change (·.update i (·.insertVariable symbol))) :=
    both_change fun _ _ _ h => h.update fun _ => rfl
  exact (both_forM fun symbol _ => hinsert symbol).bind fun _ =>
    h.discard.bind fun _ => both_noteScope

theorem both_declareFunction {walk : Option Nat → Analyzing (Option Symbol)}
    (h : ∀ child, Both child (i :: rest) (walk (some child))) (name : Token)
    (parameters : List Parameter) : Both i rest (declareFunction (some i) name parameters walk) := by
  rw [declareFunction_eq]
  refine (both_announce name parameters).bind fun symbols => (both_note 2 _).bind fun _ => ?_
  exact both_enclosed (fun child => both_walkInside (h child) symbols) name.text

end Analyzing

/-! ## The walk -/

def Node.ProgramFree (n : Node) : Prop :=
  ∀ name block, .program name block ∉ n.nodes

theorem Node.ProgramFree.child {m n : Node} (h : n.ProgramFree) (hm : m.Child n) : m.ProgramFree :=
  fun name block hmem => h name block (hm.mem_nodes hmem)

namespace Analyzing

/-- Any tree without a program in it is walked over alike, in whatever scope. The induction is on
the depth, for all paths at once, since the body of a function is walked over in a scope of its own.
-/
theorem both_visit {depth : Nat} {node : Node} (h : node.ProgramFree) (i : Nat)
    (rest : List Nat) : Both i rest (visit depth node (some i)) := by
  induction depth generalizing node i rest with
  | zero =>
    unfold visit
    exact both_throw fun _ h => by cases h
  | succ depth ih =>
    rw [visit_succ]
    cases node with
    | program name block => exact absurd List.mem_cons_self (h name block)
    | compound children =>
      refine (both_forM fun child hc => ?_).bind fun _ => both_pure _
      exact (ih (h.child (.statement hc)) i rest).discard
    | noOp => exact both_pure _
    | intLiteral token => exact both_lookup _
    | floatLiteral token => exact both_lookup _
    | boolLiteral token => exact both_lookup _
    | var name =>
      refine .here ((both_ask fun _ _ _ h => h.lookupVariable name.text).bind fun found => ?_)
      cases found with
      | some symbol => exact both_pure _
      | none => exact both_blame _ _
    | typeName name => exact (both_typeOf name).bind fun _ => both_pure _
    | unary op operand =>
      refine (ih (h.child .operand) i rest).bind fun type => ?_
      exact (both_checkOperator op type).bind fun _ => both_pure _
    | binary op left right =>
      refine (ih (h.child .left) i rest).bind fun leftType => ?_
      refine (ih (h.child .right) i rest).bind fun rightType => ?_
      refine (both_agree op leftType rightType).bind fun type => ?_
      exact (both_checkOperator op type).bind fun _ => .ite (both_lookup _) (both_pure _)
    | assign type target op value =>
      refine (ih (h.child .assigned) i rest).bind fun valueType => ?_
      exact (both_declareTarget type target op valueType).bind fun _ => both_pure _
    | branch keyword condition whenTrue whenFalse =>
      rw [visitNode_branch]
      refine (ih (h.child .condition) i rest).bind fun type => ?_
      refine (both_checkCondition keyword type).bind fun _ => ?_
      refine (ih (h.child .whenTrue) i rest).discard.bind fun _ => ?_
      refine (ih (h.child .whenFalse) i rest).discard.bind fun _ => ?_
      exact both_pure _
    | ret value => exact ih (h.child .returned) i rest
    | parameter p => exact (both_parameterSymbol p).bind fun _ => both_pure _
    | function name parameters body =>
      have hbody (child : Nat) := ih (h.child .body) child (i :: rest)
      exact (both_declareFunction hbody name parameters).bind fun _ => both_pure _
    | call name arguments =>
      refine (both_mapM fun a ha => ih (h.child (.argument ha)) i rest).bind fun types => ?_
      refine (both_lookup name.text).bind fun found => ?_
      split
      · exact (both_checkArguments name _ types).bind fun _ => both_pure _
      · exact both_pure _
    | bare => exact both_throw fun _ h => by cases h
    | missing => exact both_throw fun _ h => by cases h

theorem both_block {depth : Nat} {block : Node} (h : block.ProgramFree) :
    Both 0 [] (do
      change (·.addBuiltins (0 : Nat))
      discard (visit depth block (some 0))
      noteScope (← get).root
      return (none : Option Symbol)) := by
  refine (both_change fun _ _ _ h => h.addBuiltins).bind fun _ => ?_
  refine (both_visit h 0 []).discard.bind fun _ => ?_
  intro s₀ t₀ s t hs
  show Paired _ _ _ ((noteScope s.root >>= fun _ => pure none) s)
    ((noteScope t.root >>= fun _ => pure none) t)
  rw [hs.root, hs.root']
  exact (both_noteScope.bind fun _ => both_pure _) s₀ t₀ s t hs

end Analyzing

/-! ## What is left at the end -/

namespace Analysis

/-- An analysis that has just opened the scope of a program. -/
def opened (log : Log) (name : String) (keep : Bool) : Analysis :=
  { arena := { slots := #[some { name, level := 0, parent := none }] }, keep, log }

theorem visit_program (depth : Nat) (log : Log) (name : String) (block : Node) (keep : Bool) :
    visit (depth + 1) (.program name block) none { log, keep } = (do
      change (·.addBuiltins (0 : Nat))
      discard (visit depth block (some 0))
      noteScope (← get).root
      return (none : Option Symbol) : Analyzing (Option Symbol))
        { opened log name keep with root := some 0 } := by
  have hpush : changeWith (·.push name none) { log, keep } = .ok 0 (opened log name keep) :=
    changeWith_eq rfl
  rw [visit_succ]
  exact bind_of_ok hpush

theorem opened_slot {log : Log} {name : String} {keep : Bool} {j : Nat} {scope : Scope}
    (h : (opened log name keep).arena.slots[j]? = some (some scope)) : j = 0 := by
  obtain ⟨hlt, -⟩ := Array.getElem?_eq_some_iff.mp h
  exact Nat.lt_one_iff.mp hlt

/-- Both analyses of a program end alike, next to each other in the scope of that program. -/
theorem abreast_program (log : Log) (name : String) {block : Node} (h : block.ProgramFree)
    (depth : Nat) :
    Paired (Abreast 0 [] (opened log name false) (opened log name true))
      (FailAlike 0 [] (opened log name false) (opened log name true)) Eq
      (visit (depth + 1) (.program name block) none { log, keep := false })
      (visit (depth + 1) (.program name block) none { log, keep := true }) := by
  have harenas : Arena.Matched [0] none (opened log name false).arena
      (opened log name true).arena :=
    ⟨.root rfl rfl, fun _ _ => rfl, rfl, rfl,
      fun j scope hj => List.mem_singleton.mpr (opened_slot hj),
      fun j scope hj => .inl (List.mem_singleton.mpr (opened_slot hj)), nofun⟩
  rw [visit_program, visit_program]
  refine both_block h _ _ _ _ ⟨harenas, rfl, rfl, rfl, rfl, rfl, [], ?_, ?_⟩
  · exact (Account.start _ _).step ⟨.refl _, rfl, rfl⟩
  · exact (Account.start _ _).step ⟨.refl _, rfl, rfl⟩

end Analysis

namespace Analyzing

theorem ask_inv {α : Type} {query : Arena → Except Failure α} {s s' : Analysis} {a : α}
    (h : ask query s = .ok a s') : query s.arena = .ok a ∧ s' = s := by
  unfold ask at h
  rw [bind_of_ok (get_apply s)] at h
  cases hq : query s.arena with
  | ok x =>
    simp only [hq] at h
    cases h
    exact ⟨rfl, rfl⟩
  | error e =>
    simp only [hq] at h
    cases h

theorem discard_close_inv {j : Nat} {s s' : Analysis}
    (h : discard (changeWith (·.close j)) s = .ok () s') :
    ∃ arena, s' = { s with arena } ∧ arena.slots.size = s.arena.slots.size := by
  obtain ⟨_, s₁, h, hend⟩ := bind_eq_ok h
  cases hend
  obtain ⟨found, s₂, hask, hset⟩ := bind_eq_ok h
  obtain ⟨hclose, rfl⟩ := ask_inv hask
  cases hset
  exact ⟨found.2, rfl, Arena.size_close hclose⟩

/-- What leaving a scope does to the size of the arena and to the kept scope. -/
theorem leave_inv {i : Nat} {s s' : Analysis} (h : leave i s = .ok () s') :
    s'.keep = s.keep ∧ s'.arena.slots.size = s.arena.slots.size ∧
      (s.keep = true → s'.lastScope = some i) := by
  unfold leave at h
  rw [bind_of_ok (get_apply s)] at h
  by_cases hk : s.keep = true
  · rw [if_pos hk] at h
    cases hl : s.lastScope with
    | none =>
      simp only [hl] at h
      cases h
      exact ⟨rfl, rfl, fun _ => rfl⟩
    | some last =>
      simp only [hl] at h
      by_cases ho : s.arena.isOpen last = true
      · rw [if_pos ho] at h
        obtain ⟨_, s₁, hd, hset⟩ := bind_eq_ok h
        obtain ⟨arena, rfl, hsize⟩ := discard_close_inv hd
        cases hset
        exact ⟨rfl, hsize, fun _ => rfl⟩
      · rw [if_neg ho] at h
        cases h
        exact ⟨rfl, rfl, fun _ => rfl⟩
  · rw [if_neg hk] at h
    obtain ⟨arena, rfl, hsize⟩ := discard_close_inv h
    exact ⟨rfl, hsize, fun htrue => absurd htrue hk⟩

end Analyzing

namespace Account

variable {i : Nat} {s s' : Analysis} {left : List Nat}

/-- A walk that keeps the scope of a function keeps the one it has left last. -/
theorem lastScope_eq (h : Account i s left s') (hk : s.keep = true) :
    s'.keep = true ∧ s'.lastScope = left.getLast?.or s.lastScope := by
  induction h with
  | start => exact ⟨hk, rfl⟩
  | step _ hstep ih =>
    obtain ⟨hkeep, hlast⟩ := ih hk
    exact ⟨hstep.keep.trans hkeep, hstep.lastScope.trans hlast⟩
  | function _ _ _ hleave ih ihinner =>
    obtain ⟨hkeep, -⟩ := ih hk
    obtain ⟨hkeep, -⟩ := ihinner hkeep
    obtain ⟨hsame, -, hlast⟩ := leave_inv hleave
    refine ⟨hsame.trans hkeep, ?_⟩
    rw [hlast hkeep, ← List.append_assoc, List.getLast?_concat]
    rfl

theorem perm (h : Account i s left s') : s.arena.slots.size ≤ s'.arena.slots.size ∧
    left.Perm (List.range' s.arena.slots.size (s'.arena.slots.size - s.arena.slots.size)) := by
  induction h with
  | start => simp
  | step _ hstep ih => rwa [hstep.arena.size]
  | @function i child s s₁ s₂ s₃ left inner name arena _ hpush _ hleave ih ihinner =>
    obtain ⟨hle, hleft⟩ := ih
    obtain ⟨rfl, hsize⟩ := Arena.size_push hpush
    obtain ⟨hle', hinner⟩ := ihinner
    obtain ⟨-, hsame, -⟩ := leave_inv hleave
    dsimp only at hle' hinner
    rw [hsize] at hle' hinner
    rw [hsame]
    refine ⟨by omega, ?_⟩
    have hsplit : List.range' s.arena.slots.size (s₂.arena.slots.size - s.arena.slots.size) =
        List.range' s.arena.slots.size (s₁.arena.slots.size - s.arena.slots.size) ++
          (s₁.arena.slots.size :: List.range' (s₁.arena.slots.size + 1)
            (s₂.arena.slots.size - (s₁.arena.slots.size + 1))) := by
      rw [← List.range'_succ, ← Nat.sub_add_comm hle', Nat.add_sub_add_right]
      have happend := @List.range'_append_1 s.arena.slots.size
        (s₁.arena.slots.size - s.arena.slots.size) (s₂.arena.slots.size - s₁.arena.slots.size)
      rw [Nat.add_sub_cancel' hle] at happend
      rw [happend]
      congr 1
      omega
    rw [hsplit]
    refine hleft.append ?_
    exact (List.perm_append_singleton _ _).trans (hinner.cons _)

end Account

theorem Analyzing.Abreast.released {log : Log} {name : String} {s t : Analysis}
    (h : Abreast 0 [] (.opened log name false) (.opened log name true) s t) :
    ∃ left, Account 0 (.opened log name false) left s ∧
      Account 0 (.opened log name true) left t ∧
      left.Perm (List.range' 1 (t.arena.slots.size - 1)) ∧
      s.root = some 0 ∧ (∀ i : Nat, s.arena.isOpen i = true ↔ i = 0) ∧
      t.root = some 0 ∧ t.lastScope = left.getLast? ∧
      (∀ i : Nat, t.arena.isOpen i = true ↔ i = 0 ∨ t.lastScope = some i) ∧
      ∀ last, t.lastScope = some last →
        ∃ scope, t.arena.fetch last = .ok scope ∧ scope.parent = some 0 := by
  obtain ⟨left, haccount, haccount'⟩ := h.accounts
  obtain ⟨hroot, hs⟩ := h.arenas.enclosed.get List.mem_cons_self
  have ht := (h.arenas.same 0 List.mem_cons_self).trans hs
  have hlast : t.lastScope = left.getLast? := by
    have hlast := (haccount'.lastScope_eq rfl).2
    rwa [show (Analysis.opened log name true).lastScope = none from rfl, Option.or_none] at hlast
  refine ⟨left, haccount, haccount', haccount'.perm.2, h.root, fun i => ?_, h.root', hlast,
    fun i => ?_, fun last hl => ?_⟩
  · rw [Arena.isOpen_iff]
    constructor
    · rintro ⟨scope, hi⟩
      exact List.mem_singleton.mp (h.arenas.first i scope hi)
    · rintro rfl
      exact ⟨_, hs⟩
  · rw [Arena.isOpen_iff]
    constructor
    · rintro ⟨scope, hi⟩
      exact (h.arenas.second i scope hi).imp_left List.mem_singleton.mp
    · rintro (rfl | hi)
      · exact ⟨_, ht⟩
      · obtain ⟨-, scope, -, hscope, -⟩ := h.arenas.last i hi
        exact ⟨scope, hscope⟩
  · obtain ⟨-, scope, p, hscope, hparent, hp⟩ := h.arenas.last last hl
    refine ⟨scope, Arena.fetch_eq hscope, ?_⟩
    rw [hparent, List.mem_singleton.mp hp]
    rfl

/-- An analysis releases the scopes it opens, on every tree whose only program is its root and
whether it succeeds or fails; it never fails for want of a scope. If it closes the scopes of
functions it leaves that of the program open and no other. If it is to keep one, it leaves besides
the scope of the function left last, inside of that of the program: `left` are the scopes of all
functions in the order in which they are left. Both ways have one verdict and one log. -/
theorem scopes_released (state : Analysis) (depth : Nat) (name : String) {block : Node}
    (h : ∀ name' block', .program name' block' ∉ block.nodes) :
    ∃ result closed kept left,
      state.analyzeWithin (depth + 1) (.program name block) false = (result, closed) ∧
      state.analyzeWithin (depth + 1) (.program name block) true = (result, kept) ∧
      (∀ fault, result ≠ .error (.scope fault)) ∧ kept.log = closed.log ∧
      Account 0 (.opened state.log name false) left closed ∧
      Account 0 (.opened state.log name true) left kept ∧
      left.Perm (List.range' 1 (kept.arena.slots.size - 1)) ∧
      closed.root = some 0 ∧ (∀ i : Nat, closed.arena.isOpen i = true ↔ i = 0) ∧
      kept.root = some 0 ∧ kept.lastScope = left.getLast? ∧
      (∀ i : Nat, kept.arena.isOpen i = true ↔ i = 0 ∨ kept.lastScope = some i) ∧
      ∀ last, kept.lastScope = some last →
        ∃ scope, kept.arena.fetch last = .ok scope ∧ scope.parent = some 0 := by
  have hpaired := Analysis.abreast_program state.log name h depth
  unfold Analysis.analyzeWithin
  generalize visit (depth + 1) (.program name block) none { log := state.log, keep := false } = r
    at hpaired
  generalize visit (depth + 1) (.program name block) none { log := state.log, keep := true } = r'
    at hpaired
  cases hpaired with
  | ok _ hab =>
    obtain ⟨left, hleft⟩ := hab.released
    exact ⟨_, _, _, left, rfl, rfl, nofun, hab.log, hleft⟩
  | error he =>
    obtain ⟨left, hleft⟩ := he.abreast.released
    obtain rfl := he.same
    exact ⟨_, _, _, left, rfl, rfl, fun fault hf => he.sound fault (Except.error.inj hf),
      he.abreast.log, hleft⟩

/-- Two functions one inside of the other, and then a variable that is not known. -/
def nestedFunctions : Node :=
  .compound [
    .function ⟨.identifier, "f", 1, 6⟩ []
      (.compound [.function ⟨.identifier, "g", 1, 17⟩ [] (.compound [.noOp])]),
    .var ⟨.identifier, "x", 2, 1⟩]

/-- The inner function is left first, and closed when the outer one is left. -/
theorem scopes_released_nested :
    (∀ name block, .program name block ∉ nestedFunctions.nodes) ∧
    ∃ kept, (Analysis.start { level := 0 }).analyzeWithin 9 (.program "main" nestedFunctions) true =
        (.error (.semantic (.identifierNotFound "x") ⟨.identifier, "x", 2, 1⟩), kept) ∧
      kept.arena.slots.size = 3 ∧ kept.lastScope = some 1 ∧
      ∀ i : Nat, kept.arena.isOpen i = true ↔ i = 0 ∨ i = 1 := by
  have hfree : ∀ name block, .program name block ∉ nestedFunctions.nodes := by
    simp [nestedFunctions, Node.nodes, Node.nodesOf]
  obtain ⟨result, -, kept, left, -, hkept, -, -, -, -, -, -, -, -, -, hopen, -⟩ :=
    scopes_released (.start { level := 0 }) 8 "main" hfree
  have hrun : ((Analysis.start { level := 0 }).analyzeWithin 9 (.program "main" nestedFunctions)
      true).1 = .error (.semantic (.identifierNotFound "x") ⟨.identifier, "x", 2, 1⟩) ∧
      ((Analysis.start { level := 0 }).analyzeWithin 9 (.program "main" nestedFunctions)
        true).2.arena.slots.size = 3 ∧
      ((Analysis.start { level := 0 }).analyzeWithin 9 (.program "main" nestedFunctions)
        true).2.lastScope = some 1 := by
    decide +kernel
  have hkept : (Analysis.start { level := 0 }).analyzeWithin 9 (.program "main" nestedFunctions)
      true = (result, kept) := hkept
  rw [hkept] at hrun
  obtain ⟨hresult, hsize, hlast⟩ := hrun
  refine ⟨hfree, kept, hkept.trans (by rw [← hresult]), hsize, hlast, fun i => ?_⟩
  rw [hopen i, hlast, Option.some.injEq, @eq_comm _ 1]

end LittleLang
