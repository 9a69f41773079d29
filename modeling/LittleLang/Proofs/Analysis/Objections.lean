import LittleLang.Proofs.Analysis.Scopes
import LittleLang.Proofs.Analysis.Walk
import LittleLang.Proofs.Shape

/-!
# What an analysis can fail with

On a tree of the shape that the grammar gives, an analysis fails only with a semantic error, or for
its depth (`Objection`): never for a scope that is not there. A walk stands in an open scope, and
what was open before a step is open after it, also if the step fails (`Grows`); so the scope of a
function can be closed however the walk over its body ends. -/

namespace LittleLang.Analyzing

variable {α β : Type} {i : Nat}

/-! ## The contract of a step -/

inductive Objection : Failure → Prop where
  | semantic (cause : SemanticCause) (token : Token) : Objection (.semantic cause token)
  | tooDeep : Objection .tooDeep

/-- What was open before is open after. -/
structure Grows (state state' : Analysis) : Prop where
  keep : state'.keep = state.keep
  root : state'.root = state.root
  opened : ∀ i, state.arena.Open i → state'.arena.Open i

theorem Grows.refl (state : Analysis) : Grows state state :=
  ⟨rfl, rfl, fun _ h => h⟩

theorem Grows.trans {s₁ s₂ s₃ : Analysis} (h : Grows s₁ s₂) (h' : Grows s₂ s₃) : Grows s₁ s₃ :=
  ⟨h'.keep.trans h.keep, h'.root.trans h.root, fun i hi => h'.opened i (h.opened i hi)⟩

/-- A walk may stand in the scope. The scopes of functions are not kept. -/
structure Ready (i : Nat) (state : Analysis) : Prop where
  keep : state.keep = false
  opened : state.arena.Open i

theorem Ready.next {state state' : Analysis} (h : Ready i state) (hg : Grows state state') :
    Ready i state' :=
  ⟨hg.keep.trans h.keep, hg.opened i h.opened⟩

def Leaves (state : Analysis) (post : α → Prop) : EStateM.Result Failure Analysis α → Prop
  | .ok a state' => Grows state state' ∧ post a
  | .error e state' => Grows state state' ∧ Objection e

def Safely (i : Nat) (step : Analyzing α) (post : α → Prop) : Prop :=
  ∀ state, Ready i state → Leaves state post (step state)

section

variable {step : Analyzing α} {post : α → Prop}

theorem Leaves.bind {f : α → Analyzing β} {post : β → Prop} {mid : α → Prop} {state : Analysis}
    (h : Leaves state mid (step state))
    (hf : ∀ a state', Grows state state' → mid a → Leaves state' post (f a state')) :
    Leaves state post ((step >>= f) state) := by
  simp only [Bind.bind, EStateM.bind]
  cases hr : step state with
  | error e state' =>
    rw [hr] at h
    exact h
  | ok a state' =>
    rw [hr] at h
    have h' := hf a state' h.1 h.2
    dsimp only
    match f a state', h' with
    | .ok b _, h' => exact ⟨h.1.trans h'.1, h'.2⟩
    | .error _ _, h' => exact ⟨h.1.trans h'.1, h'.2⟩

theorem Safely.bind {f : α → Analyzing β} {post : β → Prop} {mid : α → Prop}
    (h : Safely i step mid) (hf : ∀ a, mid a → Safely i (f a) post) :
    Safely i (step >>= f) post :=
  fun state hs => (h state hs).bind fun a state' hg ha => hf a ha state' (hs.next hg)

theorem safely_pure {a : α} (h : post a) : Safely i (pure a) post :=
  fun state _ => ⟨.refl state, h⟩

theorem safely_throw {e : Failure} (h : Objection e) : Safely i (throw e) post :=
  fun state _ => ⟨.refl state, h⟩

theorem safely_blame (token : Token) (cause : SemanticCause) : Safely i (blame token cause) post :=
  safely_throw (.semantic cause token)

theorem Safely.ite {c : Prop} [Decidable c] {step' : Analyzing α} (h : c → Safely i step post)
    (h' : ¬c → Safely i step' post) : Safely i (if c then step else step') post := by
  split
  · exact h ‹c›
  · exact h' ‹¬c›

theorem Safely.discard (h : Safely i step post) : Safely i (discard step) fun _ => True :=
  h.bind fun _ _ => safely_pure trivial

end

/-! ## Single steps -/

theorem safely_note (level : Int) (text : String) : Safely i (note level text) fun _ => True :=
  fun _ _ => ⟨⟨rfl, rfl, fun _ h => h⟩, trivial⟩

theorem get_apply (state : Analysis) : (get : Analyzing Analysis) state = .ok state state := rfl

theorem ask_eq {query : Arena → Except Failure α} {state : Analysis} {a : α}
    (h : query state.arena = .ok a) : ask query state = .ok a state := by
  unfold ask
  simp only [bind, EStateM.bind, get_apply, h]
  rfl

theorem change_eq {step : Arena → Except Failure Arena} {state : Analysis} {arena : Arena}
    (h : step state.arena = .ok arena) : change step state = .ok () { state with arena } := by
  unfold change
  simp only [bind, EStateM.bind, ask_eq h]
  rfl

theorem changeWith_eq {step : Arena → Except Failure (α × Arena)} {state : Analysis} {a : α}
    {arena : Arena} (h : step state.arena = .ok (a, arena)) :
    changeWith step state = .ok a { state with arena } := by
  unfold changeWith
  simp only [bind, EStateM.bind, ask_eq h]
  rfl

theorem safely_ask {query : Arena → Except Failure α}
    (h : ∀ arena, arena.Open i → ∃ a, query arena = .ok a) :
    Safely i (ask query) fun _ => True := by
  intro state hs
  obtain ⟨a, ha⟩ := h state.arena hs.opened
  rw [ask_eq ha]
  exact ⟨.refl state, trivial⟩

theorem safely_change {step : Arena → Except Failure Arena}
    (h : ∀ arena, arena.Open i → ∃ arena', step arena = .ok arena' ∧
      ∀ j, arena.Open j → arena'.Open j) : Safely i (change step) fun _ => True := by
  intro state hs
  obtain ⟨arena', heq, hkeep⟩ := h state.arena hs.opened
  rw [change_eq heq]
  exact ⟨⟨rfl, rfl, hkeep⟩, trivial⟩

theorem safely_add (kind : TableKind) (make : Nat → Symbol) :
    Safely i (change (·.add kind i make)) fun _ => True :=
  safely_change fun _ h => Arena.exists_add h kind make

theorem safely_fetch : Safely i (ask (·.fetch i)) fun _ => True :=
  safely_ask fun arena h => by
    obtain ⟨scope, hs⟩ := h.get
    exact ⟨scope, Arena.fetch_eq hs⟩

theorem safely_here : Safely i (here (some i)) fun j => i = j :=
  safely_pure rfl

theorem safely_lookup (name : String) : Safely i (lookup (some i) name) fun _ => True := by
  unfold lookup
  refine safely_here.bind ?_
  rintro _ rfl
  exact safely_ask fun arena h => Arena.lookup_eq h name

theorem safely_lookupVariable (name : String) :
    Safely i (ask (·.lookupVariable i name)) fun _ => True :=
  safely_ask fun arena h => by
    obtain ⟨scope, hs⟩ := h.get
    unfold Arena.lookupVariable
    rw [Arena.fetch_eq hs]
    exact ⟨_, rfl⟩

theorem safely_noteScope : Safely i (noteScope (some i)) fun _ => True := by
  unfold noteScope
  refine safely_here.bind ?_
  rintro _ rfl
  exact safely_fetch.bind fun scope _ => safely_note 1 _

/-! ## Checks -/

theorem safely_checkOperator (op : Token) (operand : Option Symbol) :
    Safely i (checkOperator op operand) fun _ => True := by
  unfold checkOperator
  cases operand with
  | none => exact safely_pure trivial
  | some type =>
    refine Safely.ite (fun _ => safely_blame _ _) fun _ => ?_
    exact Safely.ite (fun _ => safely_blame _ _) fun _ => safely_pure trivial

theorem safely_checkCondition (keyword : Token) (type : Option Symbol) :
    Safely i (checkCondition (some keyword) type) fun _ => True := by
  cases type with
  | none => exact safely_pure trivial
  | some type => exact Safely.ite (fun _ => safely_blame _ _) fun _ => safely_pure trivial

theorem safely_agree (op : Token) (left right : Option Symbol) :
    Safely i (agree op left right) fun _ => True := by
  unfold agree
  match left, right with
  | some l, some r => exact Safely.ite (fun _ => safely_pure trivial) fun _ => safely_blame _ _
  | some l, none => exact safely_pure trivial
  | none, right => exact safely_pure trivial

theorem safely_forM {f : α → Analyzing PUnit} {as : List α}
    (h : ∀ a ∈ as, Safely i (f a) fun _ => True) : Safely i (as.forM f) fun _ => True := by
  induction as with
  | nil => exact safely_pure trivial
  | cons a as ih =>
    exact (h a (by simp)).bind fun _ _ => ih fun a ha => h a (by simp [ha])

theorem safely_mapM {f : α → Analyzing β} {as : List α}
    (h : ∀ a ∈ as, Safely i (f a) fun _ => True) : Safely i (as.mapM f) fun _ => True := by
  induction as with
  | nil => exact safely_pure trivial
  | cons a as ih =>
    rw [List.mapM_cons]
    refine (h a (by simp)).bind fun b _ => ?_
    exact (ih fun a ha => h a (by simp [ha])).bind fun bs _ => safely_pure trivial

theorem safely_checkArguments (name : Token) (parameters : List Symbol)
    (arguments : List (Option Symbol)) :
    Safely i (checkArguments name parameters arguments) fun _ => True := by
  unfold checkArguments
  refine Safely.ite (fun _ => safely_blame _ _) fun _ => safely_forM fun p _ => ?_
  obtain ⟨parameter, argument⟩ := p
  cases argument with
  | none => exact safely_pure trivial
  | some type => exact Safely.ite (fun _ => safely_blame _ _) fun _ => safely_pure trivial

/-! ## Declarations -/

theorem safely_typeOf (type : Token) : Safely i (typeOf (some i) type) fun _ => True := by
  unfold typeOf
  refine (safely_lookup _).bind fun found _ => ?_
  cases found with
  | some symbol => exact safely_pure trivial
  | none => exact safely_blame _ _

theorem safely_parameterSymbol (p : Parameter) :
    Safely i (parameterSymbol (some i) p) fun _ => True := by
  unfold parameterSymbol
  refine (safely_typeOf p.type).bind fun type _ => ?_
  intro state hs
  rw [changeWith_eq rfl]
  exact ⟨⟨rfl, rfl, fun j hj => hj.of_slots rfl⟩, trivial⟩

theorem safely_parameterSymbols (known : List Symbol) (parameters : List Parameter) :
    Safely i (parameterSymbols (some i) known parameters) fun _ => True := by
  induction parameters generalizing known with
  | nil => exact safely_pure trivial
  | cons p parameters ih =>
    unfold parameterSymbols
    refine Safely.ite (fun _ => safely_blame _ _) fun _ => ?_
    exact (safely_parameterSymbol p).bind fun symbol _ => ih _

theorem safely_declare (name : String) (type : Option Symbol) :
    Safely i (declare i name type) fun _ => True := by
  unfold declare
  exact (safely_add .variables (.var · name type)).bind fun _ _ => safely_note 2 _

theorem safely_declareTarget (type : Option Token) (target op : Token) (valueType : Option Symbol) :
    Safely i (declareTarget (some i) type target op valueType) fun _ => True := by
  unfold declareTarget
  refine safely_here.bind ?_
  rintro _ rfl
  refine safely_fetch.bind fun table _ => ?_
  cases type with
  | some type =>
    refine (safely_typeOf type).bind fun declared _ => ?_
    cases valueType with
    | some given => exact Safely.ite (fun _ => safely_declare _ _) fun _ => safely_blame _ _
    | none => exact safely_declare _ _
  | none => exact Safely.ite (fun _ => safely_pure trivial) fun _ => safely_declare _ _

/-! ## Functions -/

theorem leave_eq {state : Analysis} (h : Ready i state) :
    ∃ arena, leave i state = .ok () { state with arena } ∧
      ∀ j < i, state.arena.Open j → arena.Open j := by
  obtain ⟨parent, arena, heq, hkeep⟩ := Arena.close_eq h.opened
  refine ⟨arena, ?_, hkeep⟩
  have hclose : changeWith (·.close i) state = .ok parent { state with arena } := changeWith_eq heq
  have hdiscard : (discard (changeWith (·.close i)) : Analyzing Unit) state =
      .ok () { state with arena } := by
    show EStateM.map _ _ _ = _
    simp only [EStateM.map, hclose]
  unfold leave
  simp only [bind, EStateM.bind, get_apply]
  rw [if_neg (by simp [h.keep])]
  exact hdiscard

/-- A step in a scope of its own. That scope can be closed however the step ends, and those that
were open before it was opened have smaller indices. -/
theorem safely_enclosed {body : Nat → Analyzing α} {post : α → Prop}
    (h : ∀ child, Safely child (body child) post) (name : String) :
    Safely i (do
      let child ← changeWith (·.push name (some (i : Int)))
      ensuring (body child) (leave child)) post := by
  intro state hs
  obtain ⟨arena, hpush, hchild, hkeep⟩ := Arena.push_some hs.opened name
  have hs' : Ready state.arena.slots.size { state with arena } := ⟨hs.keep, hchild⟩
  have hbody := h state.arena.slots.size _ hs'
  have hopen : changeWith (·.push name (some (i : Int))) state =
      .ok state.arena.slots.size { state with arena } := changeWith_eq hpush
  simp only [bind, EStateM.bind, hopen]
  unfold ensuring
  generalize body state.arena.slots.size { state with arena } = r at hbody
  have hleave {state' : Analysis} (hg : Grows { state with arena } state') :
      ∃ state'', leave state.arena.slots.size state' = .ok () state'' ∧ Grows state state'' := by
    obtain ⟨arena', heq, hbelow⟩ := leave_eq (hs'.next hg)
    refine ⟨_, heq, hg.keep, hg.root, fun j hj => ?_⟩
    exact hbelow j hj.lt (hg.opened j (hkeep j hj))
  match r, hbody with
  | .ok a state', ⟨hg, ha⟩ =>
    obtain ⟨state'', heq, hg'⟩ := hleave hg
    simp only [heq]
    exact ⟨hg', ha⟩
  | .error e state', ⟨hg, he⟩ =>
    obtain ⟨state'', heq, hg'⟩ := hleave hg
    simp only [heq]
    exact ⟨hg', he⟩

theorem safely_announce (name : Token) (parameters : List Parameter) :
    Safely i (announce i name parameters) fun _ => True := by
  rw [announce_eq]
  refine safely_fetch.bind fun scope _ => Safely.ite (fun _ => safely_blame _ _) fun _ => ?_
  refine (safely_parameterSymbols [] parameters).bind fun symbols _ => ?_
  exact (safely_add .symbols (.function · name.text symbols)).bind fun _ _ => safely_pure trivial

theorem safely_walkInside {walkBody : Option Nat → Analyzing (Option Symbol)}
    (h : Safely i (walkBody (some i)) fun _ => True) (symbols : List Symbol) :
    Safely i (walkInside symbols walkBody i) fun _ => True := by
  have hinsert (symbol : Symbol) :
      Safely i (change (·.update i (·.insertVariable symbol))) fun _ => True :=
    safely_change fun arena h => Arena.update_eq h fun _ => rfl
  exact (safely_forM fun symbol _ => hinsert symbol).bind fun _ _ =>
    h.discard.bind fun _ _ => safely_noteScope

theorem safely_declareFunction {walkBody : Option Nat → Analyzing (Option Symbol)}
    (h : ∀ j, Safely j (walkBody (some j)) fun _ => True) (name : Token)
    (parameters : List Parameter) :
    Safely i (declareFunction (some i) name parameters walkBody) fun _ => True := by
  rw [declareFunction_eq]
  refine (safely_announce name parameters).bind fun symbols _ => (safely_note 2 _).bind fun _ _ => ?_
  exact safely_enclosed (fun child => safely_walkInside (h child) symbols) name.text

/-! ## The walk -/

/-- An expression or a statement can be walked over in any open scope. The induction is on the
depth, for all scopes at once: the body of a function is walked over in a scope of its own. -/
theorem safely_visit {depth : Nat} {node : Node} (h : Executable node) (i : Nat) :
    Safely i (visit depth node (some i)) fun _ => True := by
  induction depth generalizing node i with
  | zero =>
    unfold visit
    exact safely_throw .tooDeep
  | succ depth ih =>
    rw [visit_succ]
    cases h with
    | compound hs =>
      refine (safely_forM fun child hc => ?_).bind fun _ _ => safely_pure trivial
      exact (ih (hs child hc) i).discard
    | noOp => exact safely_pure trivial
    | assign type target op hv =>
      refine (ih (.expression hv) i).bind fun valueType _ => ?_
      exact (safely_declareTarget type target op valueType).bind fun _ _ => safely_pure trivial
    | @branch keyword condition whenTrue whenFalse hc ht hf =>
      rw [visitNode_branch]
      refine (ih (.expression hc) i).bind fun type _ => ?_
      refine (safely_checkCondition keyword type).bind fun _ _ => ?_
      exact (ih ht i).discard.bind fun _ _ => (ih hf i).discard.bind fun _ _ => safely_pure trivial
    | ret hv => exact ih (.expression hv) i
    | function name parameters hb =>
      refine (safely_declareFunction (fun j => ih hb j) name parameters).bind fun _ _ => ?_
      exact safely_pure trivial
    | expression h =>
      cases h with
      | int => exact safely_lookup _
      | float => exact safely_lookup _
      | bool => exact safely_lookup _
      | var name =>
        refine safely_here.bind ?_
        rintro _ rfl
        refine (safely_lookupVariable _).bind fun found _ => ?_
        cases found with
        | some symbol => exact safely_pure trivial
        | none => exact safely_blame _ _
      | unary op hv =>
        refine (ih (.expression hv) i).bind fun type _ => ?_
        exact (safely_checkOperator op type).bind fun _ _ => safely_pure trivial
      | binary op hl hr =>
        refine (ih (.expression hl) i).bind fun leftType _ => ?_
        refine (ih (.expression hr) i).bind fun rightType _ => ?_
        refine (safely_agree op leftType rightType).bind fun type _ => ?_
        refine (safely_checkOperator op type).bind fun _ _ => ?_
        exact Safely.ite (fun _ => safely_lookup _) fun _ => safely_pure trivial
      | call name hargs =>
        refine (safely_mapM fun a ha => ih (.expression (hargs a ha)) i).bind fun types _ => ?_
        refine (safely_lookup name.text).bind fun found _ => ?_
        split
        · exact (safely_checkArguments name _ types).bind fun _ _ => safely_pure trivial
        · exact safely_pure trivial

theorem leaves_visit_program {depth : Nat} {block : Node} (h : Executable block) (name : String)
    (log : Log) : ∃ state, Leaves state (fun _ => True)
      (visit depth (.program name block) none { log }) := by
  cases depth with
  | zero =>
    unfold visit
    exact ⟨_, .refl _, .tooDeep⟩
  | succ depth =>
    obtain ⟨arena, hpush, hroot, -⟩ := Arena.push_none {} name
    have hopen : changeWith (·.push name none) { log } = .ok 0 { arena, log } := changeWith_eq hpush
    have hs : Ready 0 { arena, root := some 0, log } := ⟨rfl, hroot⟩
    refine ⟨{ arena, root := some 0, log }, ?_⟩
    unfold visit
    simp only [bind, EStateM.bind, hopen]
    refine (safely_change (fun arena h => Arena.addBuiltins_eq h) _ hs).bind fun _ state hg _ => ?_
    refine ((safely_visit h 0).discard state (hs.next hg)).bind fun _ state' hg' _ => ?_
    have hs' : state'.root = some 0 := (hg.trans hg').root
    show Leaves state' _ ((noteScope state'.root >>= fun _ => pure none) state')
    rw [hs']
    exact safely_noteScope.bind (fun _ _ => safely_pure trivial) state' (hs.next (hg.trans hg'))

end LittleLang.Analyzing

theorem LittleLang.Analysis.objection_of_analyzeWithin {state : Analysis} {depth : Nat}
    {name : String} {block : Node} {e : Failure} (h : Executable block)
    (he : (state.analyzeWithin depth (.program name block) false).1 = .error e) :
    Analyzing.Objection e := by
  obtain ⟨start, hleave⟩ := Analyzing.leaves_visit_program h name state.log
  unfold analyzeWithin at he
  cases hr : Analyzing.visit depth (.program name block) none { log := state.log } with
  | ok _ _ =>
    rw [hr] at he
    cases he
  | error e' _ =>
    rw [hr] at he hleave
    cases he
    exact hleave.2
