import LittleLang.Proofs.Analysis.Walk
import LittleLang.Proofs.Likeness.Trees

/-!
# Trees that are alike are analyzed alike

What an analysis records are names and types, which it takes from the texts of tokens. So two
analyses of trees that are alike come to the same, record for record, and object alike
(`like_visit`). Only their logs may differ from the start, and these get the same messages.
-/

namespace LittleLang

/-! ## Failures of an arena -/

namespace Arena

theorem placeless_locate (a : Arena) (i : Int) : Placeless (a.locate i) := by
  unfold locate
  split
  · exact placeless_error rfl
  · split
    · exact placeless_error rfl
    · exact placeless_ok _

theorem placeless_fetch (a : Arena) (i : Int) : Placeless (a.fetch i) :=
  (a.placeless_locate i).map Prod.snd

theorem placeless_push (a : Arena) (name : String) (parent : Option Int) :
    Placeless (a.push name parent) := by
  unfold push
  cases parent with
  | none => exact placeless_ok _
  | some i => exact (a.placeless_fetch i).bind fun _ => placeless_ok _

theorem placeless_close (a : Arena) (i : Int) : Placeless (a.close i) :=
  (a.placeless_locate i).bind fun _ => placeless_ok _

theorem placeless_update (a : Arena) (i : Int) (change : Scope → Scope) :
    Placeless (a.update i change) :=
  (a.placeless_locate i).bind fun _ => placeless_ok _

theorem placeless_addSymbol (a : Arena) (i : Int) (make : Nat → Symbol) :
    Placeless (a.addSymbol i make) :=
  (a.create make).2.placeless_update i (·.insertSymbol (a.create make).1)

theorem placeless_addVariable (a : Arena) (i : Int) (make : Nat → Symbol) :
    Placeless (a.addVariable i make) :=
  (a.create make).2.placeless_update i (·.insertVariable (a.create make).1)

theorem placeless_addBuiltins (a : Arena) (i : Int) : Placeless (a.addBuiltins i) :=
  placeless_foldlM (fun a name => a.placeless_addSymbol i (.builtin · name)) builtinTypes a

theorem placeless_lookupFrom (a : Arena) (name : String) (rounds : Nat) (scope : Scope) :
    Placeless (a.lookupFrom name rounds scope) := by
  induction rounds generalizing scope with
  | zero => exact placeless_error rfl
  | succ rounds ih =>
    unfold lookupFrom
    split
    · exact placeless_ok _
    · refine Placeless.bind ?_ fun parent => ?_
      · unfold parentScope
        split
        · exact placeless_ok none
        · exact (a.placeless_fetch _).map some
      · cases parent with
        | none => exact placeless_ok none
        | some parent => exact ih parent

theorem placeless_lookup (a : Arena) (i : Int) (name : String) : Placeless (a.lookup i name) :=
  (a.placeless_fetch i).bind fun _ => a.placeless_lookupFrom name _ _

theorem placeless_lookupVariable (a : Arena) (i : Int) (name : String) :
    Placeless (a.lookupVariable i name) :=
  (a.placeless_fetch i).bind fun _ => placeless_ok _

end Arena

namespace Analyzing

variable {α : Type} {l : Likeness} {L : Log → Log → Prop} {A : α → α → Prop}

/-! ## The contract of a step -/

structure States (L : Log → Log → Prop) (state state' : Analysis) : Prop where
  arena : state.arena = state'.arena
  root : state.root = state'.root
  lastScope : state.lastScope = state'.lastScope
  keep : state.keep = state'.keep
  log : L state.log state'.log

abbrev Like (l : Likeness) (L : Log → Log → Prop) (p p' : Analyzing α) (A : α → α → Prop) :
    Prop :=
  InStep (States L) (fun e e' state state' => l.Failures e e' ∧ States L state state') p p' A

/-! ## Single steps -/

theorem like_throw {e e' : Failure} (h : l.Failures e e') : Like l L (throw e) (throw e') A :=
  inStep_throw fun _ _ hs => ⟨h, hs⟩

theorem like_blame {t t' : Token} (ht : l.token t t') (cause : SemanticCause) :
    Like l L (blame t cause) (blame t' cause) A :=
  like_throw (.semantic cause ht)

theorem like_blameKeyword {t t' : Option Token} (ht : t.Rel l.token t') (cause : SemanticCause) :
    Like l L (blameKeyword t cause) (blameKeyword t' cause) A := by
  cases ht with
  | some ht => exact like_blame ht cause
  | none => exact like_throw (.placeless rfl)

theorem like_get : Like l L get get (States L) :=
  fun _ _ hs => .ok hs hs

theorem like_modify {change change' : Analysis → Analysis}
    (h : ∀ s s', States L s s' → States L (change s) (change' s')) :
    Like l L (modify change) (modify change') Eq :=
  fun s s' hs => .ok rfl (h s s' hs)

theorem like_note (hL : Log.Lasting L) {level : Int} (h : 0 < level) (text : String) :
    Like l L (note level text) (note level text) Eq :=
  like_modify fun _ _ hs =>
    ⟨hs.arena, hs.root, hs.lastScope, hs.keep, hL _ _ level text h hs.log⟩

theorem like_ask {query : Arena → Except Failure α} (h : ∀ a, Placeless (query a)) :
    Like l L (ask query) (ask query) Eq := by
  refine like_get.bind fun state state' hs => ?_
  rw [hs.arena]
  have hquery := h state'.arena
  cases hq : query state'.arena with
  | ok a => exact inStep_pure rfl
  | error e => exact like_throw (.placeless (hquery e hq))

theorem like_setArena (arena : Arena) :
    Like l L (modify fun state : Analysis => { state with arena })
      (modify fun state => { state with arena }) Eq :=
  like_modify fun _ _ hs => ⟨rfl, hs.root, hs.lastScope, hs.keep, hs.log⟩

theorem like_change {step : Arena → Except Failure Arena}
    (h : ∀ a, Placeless (step a)) : Like l L (change step) (change step) Eq :=
  (like_ask h).next fun arena => like_setArena arena

theorem like_changeWith {step : Arena → Except Failure (α × Arena)}
    (h : ∀ a, Placeless (step a)) : Like l L (changeWith step) (changeWith step) Eq :=
  (like_ask h).next fun r => (like_setArena r.2).next fun _ => inStep_pure rfl

theorem like_here (scope : Option Nat) : Like l L (here scope) (here scope) Eq := by
  cases scope with
  | some i => exact inStep_pure rfl
  | none => exact like_throw (.placeless rfl)

theorem like_lookup (scope : Option Nat) (name : String) :
    Like l L (lookup scope name) (lookup scope name) Eq :=
  (like_here scope).next fun i => like_ask fun a => a.placeless_lookup i name

theorem like_fetch (i : Int) : Like l L (ask (·.fetch i)) (ask (·.fetch i)) Eq :=
  like_ask fun a => a.placeless_fetch i

theorem like_noteScope (hL : Log.Lasting L) (scope : Option Nat) :
    Like l L (noteScope scope) (noteScope scope) Eq :=
  (like_here scope).next fun i => (like_fetch i).next fun s => like_note hL (by decide) s.text

/-- The final step is taken in both, however the steps before it end. -/
theorem like_ensuring {p p' : Analyzing α} {final final' : Analyzing Unit}
    (h : Like l L p p' A) (hfinal : Like l L final final' Eq) :
    Like l L (ensuring p final) (ensuring p' final') A := by
  intro s s' hs
  have h := h s s' hs
  unfold ensuring
  generalize p s = r at h
  generalize p' s' = r' at h
  cases h with
  | ok ha hs =>
    have hfinal := hfinal _ _ hs
    dsimp only
    generalize final _ = r at hfinal
    generalize final' _ = r' at hfinal
    cases hfinal with
    | ok _ hs => exact .ok ha hs
    | error he => exact .error he
  | error he =>
    have hfinal := hfinal _ _ he.2
    dsimp only
    generalize final _ = r at hfinal
    generalize final' _ = r' at hfinal
    cases hfinal with
    | ok _ hs => exact .error ⟨he.1, hs⟩
    | error he => exact .error he

/-! ## Checks -/

theorem like_checkOperator {op op' : Token} (hop : l.token op op') (operand : Option Symbol) :
    Like l L (checkOperator op operand) (checkOperator op' operand) Eq := by
  unfold checkOperator
  rw [l.kind_eq hop, l.text_eq hop]
  cases operand with
  | none => exact inStep_pure rfl
  | some type =>
    exact InStep.ite (fun _ => like_blame hop _) fun _ =>
      InStep.ite (fun _ => like_blame hop _) fun _ => inStep_pure rfl

theorem like_checkCondition {keyword keyword' : Option Token}
    (hk : keyword.Rel l.token keyword') (type : Option Symbol) :
    Like l L (checkCondition keyword type) (checkCondition keyword' type) Eq := by
  cases type with
  | none => exact inStep_pure rfl
  | some type => exact InStep.ite (fun _ => like_blameKeyword hk _) fun _ => inStep_pure rfl

theorem like_agree {op op' : Token} (hop : l.token op op') (left right : Option Symbol) :
    Like l L (agree op left right) (agree op' left right) Eq := by
  unfold agree
  rw [l.text_eq hop]
  match left, right with
  | some _, some _ =>
    exact InStep.ite (fun _ => inStep_pure rfl) fun _ => like_blame hop _
  | some _, none => exact inStep_pure rfl
  | none, _ => exact inStep_pure rfl

theorem like_checkArguments {name name' : Token} (hn : l.token name name')
    (parameters : List Symbol) (arguments : List (Option Symbol)) :
    Like l L (checkArguments name parameters arguments)
      (checkArguments name' parameters arguments) Eq := by
  unfold checkArguments
  rw [l.text_eq hn]
  refine InStep.ite (fun _ => like_blame hn _) fun _ => ?_
  refine inStep_forM (List.forall₂_same.mpr fun _ _ => rfl) ?_
  rintro ⟨parameter, argument⟩ _ rfl
  cases argument with
  | none => exact inStep_pure rfl
  | some type => exact InStep.ite (fun _ => like_blame hn _) fun _ => inStep_pure rfl

/-! ## Declarations -/

theorem like_typeOf (scope : Option Nat) {type type' : Token} (ht : l.token type type') :
    Like l L (typeOf scope type) (typeOf scope type') Eq := by
  unfold typeOf
  rw [l.text_eq ht]
  refine (like_lookup scope _).next fun symbol => ?_
  cases symbol with
  | some symbol => exact inStep_pure rfl
  | none => exact like_blame ht _

theorem like_parameterSymbol (scope : Option Nat) {p p' : Parameter} (hp : l.Parameters p p') :
    Like l L (parameterSymbol scope p) (parameterSymbol scope p') Eq := by
  unfold parameterSymbol
  rw [l.text_eq hp.name]
  exact (like_typeOf scope hp.type).next fun _ => like_changeWith fun _ => placeless_ok _

theorem like_parameterSymbols (scope : Option Nat) {ps ps' : List Parameter}
    (hps : ps.Forall₂ l.Parameters ps') (known : List Symbol) :
    Like l L (parameterSymbols scope known ps) (parameterSymbols scope known ps') Eq := by
  induction hps generalizing known with
  | nil => exact inStep_pure rfl
  | cons hp _ ih =>
    unfold parameterSymbols
    rw [l.text_eq hp.name]
    refine InStep.ite (fun _ => like_blame hp.name _) fun _ => ?_
    exact (like_parameterSymbol scope hp).next fun symbol => ih (known ++ [symbol])

theorem like_declare (hL : Log.Lasting L) (scope : Nat) (name : String) (type : Option Symbol) :
    Like l L (declare scope name type) (declare scope name type) Eq :=
  (like_change fun a => a.placeless_addVariable scope _).next fun _ => like_note hL (by decide) _

theorem like_declareTarget (hL : Log.Lasting L) (scope : Option Nat)
    {type type' : Option Token} {target target' op op' : Token} (ht : type.Rel l.token type')
    (htarget : l.token target target') (hop : l.token op op') (valueType : Option Symbol) :
    Like l L (declareTarget scope type target op valueType)
      (declareTarget scope type' target' op' valueType) Eq := by
  unfold declareTarget
  rw [l.text_eq htarget]
  refine (like_here scope).next fun i => (like_fetch i).next fun table => ?_
  cases ht with
  | none =>
    exact InStep.ite (fun _ => inStep_pure rfl) fun _ => like_declare hL i _ _
  | some ht =>
    refine (like_typeOf scope ht).next fun declared => ?_
    cases valueType with
    | none => exact like_declare hL i _ _
    | some given =>
      exact InStep.ite (fun _ => like_declare hL i _ _) fun _ => like_blame hop _

theorem like_close (scope : Nat) :
    Like l L (discard (changeWith (·.close scope))) (discard (changeWith (·.close scope))) Eq :=
  (like_changeWith fun a => a.placeless_close scope).discard

theorem like_leave (scope : Nat) : Like l L (leave scope) (leave scope) Eq := by
  unfold leave
  refine like_get.bind fun state state' hs => ?_
  rw [hs.keep, hs.lastScope, hs.arena]
  refine InStep.ite (fun _ => ?_) fun _ => like_close scope
  have hset : Like l L (modify fun state : Analysis => { state with lastScope := some scope })
      (modify fun state => { state with lastScope := some scope }) Eq :=
    like_modify fun _ _ hs => ⟨hs.arena, hs.root, rfl, hs.keep, hs.log⟩
  cases state'.lastScope with
  | none => exact hset
  | some last =>
    exact InStep.ite (fun _ => (like_close last).next fun _ => hset) fun _ => hset

theorem like_announce (i : Nat) {name name' : Token} {ps ps' : List Parameter}
    (hn : l.token name name') (hps : ps.Forall₂ l.Parameters ps') :
    Like l L (announce i name ps) (announce i name' ps') Eq := by
  rw [announce_eq, announce_eq, l.text_eq hn]
  refine (like_fetch i).next fun scope => InStep.ite (fun _ => like_blame hn _) fun _ => ?_
  refine (like_parameterSymbols (some i) hps []).next fun symbols => ?_
  exact (like_change fun a => a.placeless_addSymbol i _).next fun _ => inStep_pure rfl

theorem like_enclose (hL : Log.Lasting L) (i : Nat) (name : String) (symbols : List Symbol)
    {walk walk' : Option Nat → Analyzing (Option Symbol)}
    (h : ∀ scope, Like l L (walk scope) (walk' scope) Eq) :
    Like l L (enclose i name symbols walk) (enclose i name symbols walk') Eq := by
  refine (like_note hL (by decide) _).next fun _ => ?_
  refine (like_changeWith fun a => a.placeless_push _ _).next fun child => ?_
  refine like_ensuring ?_ (like_leave child)
  refine (inStep_forM (List.forall₂_same.mpr fun _ _ => rfl) ?_).next fun _ =>
    (h (some child)).discard.next fun _ => like_noteScope hL (some child)
  rintro symbol _ rfl
  exact like_change fun a => a.placeless_update child _

theorem like_declareFunction (hL : Log.Lasting L) (scope : Option Nat) {name name' : Token}
    {ps ps' : List Parameter} {walk walk' : Option Nat → Analyzing (Option Symbol)}
    (hn : l.token name name') (hps : ps.Forall₂ l.Parameters ps')
    (h : ∀ scope, Like l L (walk scope) (walk' scope) Eq) :
    Like l L (declareFunction scope name ps walk) (declareFunction scope name' ps' walk') Eq := by
  cases scope with
  | none => exact like_throw (.placeless rfl)
  | some i =>
    rw [declareFunction_eq, declareFunction_eq, l.text_eq hn]
    exact (like_announce i hn hps).next fun symbols => like_enclose hL i name'.text symbols h

/-! ## The walk -/

theorem like_visitNode (hL : Log.Lasting L)
    {visit : Node → Option Nat → Analyzing (Option Symbol)}
    (h : ∀ n n' scope, l.Trees n n' → Like l L (visit n scope) (visit n' scope) Eq)
    {n n' : Node} (hn : l.Trees n n') (scope : Option Nat) :
    Like l L (visitNode visit n scope) (visitNode visit n' scope) Eq := by
  cases hn with
  | program name hb =>
    refine (like_changeWith fun a => a.placeless_push name none).next fun root => ?_
    refine InStep.next (like_modify fun _ _ hs => ⟨hs.arena, rfl, hs.lastScope, hs.keep, hs.log⟩)
      fun _ => ?_
    refine (like_change fun a => a.placeless_addBuiltins root).next fun _ => ?_
    refine (h _ _ _ hb).discard.next fun _ => like_get.bind fun s s' hs => ?_
    rw [hs.root]
    exact (like_noteScope hL _).next fun _ => inStep_pure rfl
  | compound hc =>
    exact (inStep_forM hc fun _ _ hn => (h _ _ scope hn).discard).next fun _ => inStep_pure rfl
  | noOp => exact inStep_pure rfl
  | intLiteral => exact like_lookup scope intType
  | floatLiteral => exact like_lookup scope floatType
  | boolLiteral => exact like_lookup scope boolType
  | var ht =>
    unfold visitNode
    dsimp only
    rw [l.text_eq ht]
    refine (like_here scope).next fun i => ?_
    refine (like_ask fun a => a.placeless_lookupVariable i _).next fun symbol => ?_
    cases symbol with
    | some symbol => exact inStep_pure rfl
    | none => exact like_blame ht _
  | typeName ht => exact (like_typeOf scope ht).next fun _ => inStep_pure rfl
  | unary hop ho =>
    refine (h _ _ scope ho).next fun type => ?_
    exact (like_checkOperator hop type).next fun _ => inStep_pure rfl
  | binary hop hl hr =>
    unfold visitNode
    dsimp only
    rw [l.kind_eq hop]
    refine (h _ _ scope hl).next fun left => (h _ _ scope hr).next fun right => ?_
    refine (like_agree hop left right).next fun type => ?_
    refine (like_checkOperator hop type).next fun _ => ?_
    exact InStep.ite (fun _ => like_lookup scope boolType) fun _ => inStep_pure rfl
  | assign ht htarget hop hv =>
    refine (h _ _ scope hv).next fun type => ?_
    exact (like_declareTarget hL scope ht htarget hop type).next fun _ => inStep_pure rfl
  | branch hk hc ht hf =>
    rw [visitNode_branch, visitNode_branch]
    refine (h _ _ scope hc).next fun type => (like_checkCondition hk type).next fun _ => ?_
    refine (h _ _ scope ht).discard.next fun _ => (h _ _ scope hf).discard.next fun _ => ?_
    exact inStep_pure rfl
  | ret hv => exact h _ _ scope hv
  | parameter hp => exact (like_parameterSymbol scope hp).next fun _ => inStep_pure rfl
  | function ht hps hb =>
    refine (like_declareFunction hL scope ht hps fun scope => h _ _ scope hb).next fun _ => ?_
    exact inStep_pure rfl
  | call ht ha =>
    unfold visitNode
    dsimp only
    rw [l.text_eq ht]
    refine (inStep_mapM ha fun _ _ hn => h _ _ scope hn).bind fun types types' htypes => ?_
    rw [List.forall₂_eq_eq_eq] at htypes
    subst htypes
    refine (like_lookup scope _).next fun symbol => ?_
    match symbol with
    | some (.function _ _ parameters) =>
      exact (like_checkArguments ht parameters types).next fun _ => inStep_pure rfl
    | some (.builtin ..) => exact inStep_pure rfl
    | some (.plain ..) => exact inStep_pure rfl
    | some (.var ..) => exact inStep_pure rfl
    | none => exact inStep_pure rfl
  | bare => exact like_throw (.placeless rfl)
  | missing => exact like_throw (.placeless rfl)

theorem like_visit (hL : Log.Lasting L) (depth : Nat) {n n' : Node} (hn : l.Trees n n')
    (scope : Option Nat) : Like l L (visit depth n scope) (visit depth n' scope) Eq := by
  induction depth generalizing n n' scope with
  | zero => exact like_throw (.placeless rfl)
  | succ depth ih =>
    rw [visit_succ, visit_succ]
    exact like_visitNode hL (fun _ _ scope hn => ih hn scope) hn scope

end Analyzing

end LittleLang
