import LittleLang.Proofs.Analysis.Chains
import LittleLang.Proofs.Analysis.Declarations

/-!
# Functions are checked on their own

Whether a function is accepted depends on the types and functions that are known where it stands,
and on no variable there. Two analyses that stand in scopes with the same symbols, but with whatever
variables, have one verdict on a function (`function_isolated`): they take the same steps over its
body, in scopes of their own, and no lookup of a variable leaves such a scope. What both change in
the scopes around the function is the same as well, the symbol of the function. -/

namespace LittleLang

open LittleLang.Symbol

namespace Analyzing

variable {α : Type} {R : Nat → Nat → Prop} {own : Prop} {i j : Nat} {rest rest' : List Nat}
  {A : α → α → Prop}

/-! ## Steps -/

/-- Two steps, each from the end of its chain, that succeed both or fail alike. -/
abbrev Likewise (R : Nat → Nat → Prop) (own : Prop) (i : Nat) (rest : List Nat) (j : Nat)
    (rest' : List Nat) (p q : Analyzing α) (A : α → α → Prop) : Prop :=
  InStep (Alongside R own i rest j rest') (fun e e' _ _ => e' = e) p q A

theorem likewise_blame (token : Token) {cause cause' : SemanticCause} (h : cause' = cause) :
    Likewise R own i rest j rest' (blame token cause) (blame token cause') A :=
  inStep_throw fun _ _ _ => congrArg (Failure.semantic · token) h

theorem likewise_blameKeyword (keyword : Option Token) (cause : SemanticCause) :
    Likewise R own i rest j rest' (blameKeyword keyword cause) (blameKeyword keyword cause) A := by
  cases keyword with
  | some token => exact likewise_blame token rfl
  | none => exact inStep_throw fun _ _ _ => rfl

theorem likewise_ask {query query' : Arena → Except Failure α}
    (h : ∀ s t, Alongside R own i rest j rest' s t →
      ∃ x y, query s.arena = .ok x ∧ query' t.arena = .ok y ∧ A x y) :
    Likewise R own i rest j rest' (ask query) (ask query') A := by
  intro s t hst
  obtain ⟨x, y, hx, hy, hxy⟩ := h s t hst
  rw [ask_eq hx, ask_eq hy]
  exact .ok hxy hst

theorem likewise_fetch : Likewise R own i rest j rest' (ask (·.fetch i)) (ask (·.fetch j))
    fun x y => x.symbols.Alike (Alike R) y.symbols ∧ (own → x.vars.Alike (AlikeVariable R) y.vars) := by
  refine likewise_ask fun s t h => ?_
  obtain ⟨x, y, hx, hy, hsymbols⟩ := h.chains.get
  exact ⟨x, y, Arena.fetch_eq hx, Arena.fetch_eq hy, hsymbols, fun hown => h.vars hown x y hx hy⟩

theorem likewise_here {f f' : Nat → Analyzing α} (h : Likewise R own i rest j rest' (f i) (f' j) A) :
    Likewise R own i rest j rest' (here (some i) >>= f) (here (some j) >>= f') A :=
  h

theorem likewise_lookup (name : String) :
    Likewise R own i rest j rest' (lookup (some i) name) (lookup (some j) name)
      (Option.Rel (Alike R)) :=
  likewise_here (likewise_ask fun _ _ h => h.chains.lookup name)

/-- Variables are looked up in the last scope alone, so that it has to be the walk's own. -/
theorem likewise_lookupVariable (hown : own) (name : String) :
    Likewise R own i rest j rest' (ask (·.lookupVariable i name)) (ask (·.lookupVariable j name))
      (Option.Rel (AlikeVariable R)) := by
  refine likewise_ask fun s t h => ?_
  obtain ⟨x, y, hx, hy, -⟩ := h.chains.get
  unfold Arena.lookupVariable
  rw [Arena.fetch_eq hx, Arena.fetch_eq hy]
  exact ⟨_, _, rfl, rfl, h.vars hown x y hx hy name⟩

theorem likewise_type (name : String) :
    Likewise R own i rest j rest' (lookup (some i) name) (lookup (some j) name)
      (Option.Rel (AlikeType R)) :=
  (likewise_lookup name).weaken fun _ _ h => rel_imp h fun _ _ _ _ h => h.toAlikeType

theorem likewise_note (level : Int) (text text' : String) :
    Likewise R own i rest j rest' (note level text) (note level text') Eq :=
  fun _ _ h => .ok rfl (h.of_same ⟨h.live.get, h.live.last⟩ ⟨h.live'.get, h.live'.last⟩
    (fun _ _ => rfl) (fun _ _ => rfl) h.fresh)

theorem likewise_noteScope :
    Likewise R own i rest j rest' (noteScope (some i)) (noteScope (some j)) Eq :=
  likewise_here (likewise_fetch.bind fun _ _ _ => likewise_note 1 _ _)

theorem likewise_typeOf (type : Token) :
    Likewise R own i rest j rest' (typeOf (some i) type) (typeOf (some j) type) (Alike R) := by
  refine (likewise_lookup type.text).bind fun found found' hfound => ?_
  cases hfound with
  | some hfound => exact inStep_pure hfound
  | none => exact likewise_blame type rfl

theorem likewise_changeWith {step step' : Arena → Except Failure (α × Arena)}
    (h : ∀ s t, Alongside R own i rest j rest' s t → ∃ x a y b, step s.arena = .ok (x, a) ∧
      step' t.arena = .ok (y, b) ∧ A x y ∧
      Alongside R own i rest j rest' { s with arena := a } { t with arena := b }) :
    Likewise R own i rest j rest' (changeWith step) (changeWith step') A := by
  intro s t hst
  obtain ⟨x, a, y, b, ha, hb, hxy, hnext⟩ := h s t hst
  rw [changeWith_eq ha, changeWith_eq hb]
  exact .ok hxy hnext

theorem likewise_change {step step' : Arena → Except Failure Arena}
    (h : ∀ s t, Alongside R own i rest j rest' s t → ∃ a b, step s.arena = .ok a ∧
      step' t.arena = .ok b ∧
      Alongside R own i rest j rest' { s with arena := a } { t with arena := b }) :
    Likewise R own i rest j rest' (change step) (change step') Eq := by
  intro s t hst
  obtain ⟨a, b, ha, hb, hnext⟩ := h s t hst
  rw [change_eq ha, change_eq hb]
  exact .ok rfl hnext

/-! ## Checks -/

theorem likewise_checkOperator (op : Token) {type type' : Option Symbol}
    (h : type.Rel (AlikeType R) type') :
    Likewise R own i rest j rest' (checkOperator op type) (checkOperator op type') Eq := by
  unfold checkOperator
  cases h with
  | none => exact inStep_pure rfl
  | some h =>
    dsimp only
    rw [h.name]
    exact InStep.ite (fun _ => likewise_blame op rfl) fun _ =>
      InStep.ite (fun _ => likewise_blame op rfl) fun _ => inStep_pure rfl

theorem likewise_checkCondition (keyword : Option Token) {type type' : Option Symbol}
    (h : type.Rel (AlikeType R) type') :
    Likewise R own i rest j rest' (checkCondition keyword type) (checkCondition keyword type')
      Eq := by
  cases h with
  | none => exact inStep_pure rfl
  | some h =>
    unfold checkCondition
    dsimp only
    rw [h.name]
    exact InStep.ite (fun _ => likewise_blameKeyword keyword _) fun _ => inStep_pure rfl

theorem likewise_agree (hR : OneToOne R) (op : Token) {left left' right right' : Option Symbol}
    (hleft : left.Rel (AlikeType R) left') (hright : right.Rel (AlikeType R) right') :
    Likewise R own i rest j rest' (agree op left right) (agree op left' right')
      (Option.Rel (AlikeType R)) := by
  unfold agree
  cases hleft with
  | none => exact inStep_pure hright
  | some hleft =>
    cases hright with
    | none => exact inStep_pure (.some hleft)
    | some hright =>
      dsimp only
      rw [same_eq hR hleft hright, hleft.name, hright.name]
      exact InStep.ite (fun _ => inStep_pure (.some hleft)) fun _ => likewise_blame op rfl

theorem forall₂_zip {β : Type} {B : β → β → Prop} {as as' : List α} {bs bs' : List β}
    (ha : as.Forall₂ A as') (hb : bs.Forall₂ B bs') :
    (as.zip bs).Forall₂ (fun x y => A x.1 y.1 ∧ B x.2 y.2) (as'.zip bs') := by
  induction ha generalizing bs bs' with
  | nil => exact .nil
  | cons ha _ ih =>
    cases hb with
    | nil => exact .nil
    | cons hb hbs => exact .cons ⟨ha, hb⟩ (ih hbs)

theorem likewise_checkArguments (hR : OneToOne R) (name : Token)
    {parameters parameters' : List Symbol} {arguments arguments' : List (Option Symbol)}
    (hparameters : parameters.Forall₂ (AlikeVariable R) parameters')
    (harguments : arguments.Forall₂ (Option.Rel (AlikeType R)) arguments') :
    Likewise R own i rest j rest' (checkArguments name parameters arguments)
      (checkArguments name parameters' arguments') Eq := by
  unfold checkArguments
  rw [hparameters.length_eq, harguments.length_eq]
  refine InStep.ite (fun _ => likewise_blame name rfl) fun _ => ?_
  refine inStep_forM (forall₂_zip hparameters harguments) ?_
  rintro ⟨parameter, argument⟩ ⟨parameter', argument'⟩ ⟨hparameter, hargument⟩
  dsimp only at hparameter hargument
  cases hargument with
  | none => exact inStep_pure rfl
  | some htype =>
    dsimp only
    rw [same?_eq hR (.some htype) hparameter.type, hparameter.name, hparameter.typeName_eq,
      htype.name]
    exact InStep.ite (fun _ => likewise_blame name rfl) fun _ => inStep_pure rfl

/-! ## Declarations -/

theorem Alongside.fresh_succ {s t : Analysis} (h : Alongside R own i rest j rest' s t) (k : Nat) :
    R (s.arena.nextId + 1 + k) (t.arena.nextId + 1 + k) := by
  have hfresh := h.fresh (1 + k)
  rwa [← Nat.add_assoc, ← Nat.add_assoc] at hfresh

theorem likewise_parameterSymbol (p : Parameter) :
    Likewise R own i rest j rest' (parameterSymbol (some i) p) (parameterSymbol (some j) p)
      fun symbol symbol' => AlikeVariable R symbol symbol' ∧ AlikeType R symbol symbol' := by
  refine (likewise_typeOf p.type).bind fun type type' htype => likewise_changeWith fun s t h => ?_
  refine ⟨_, _, _, _, rfl, rfl, ⟨⟨rfl, .some htype.toAlikeType⟩, h.fresh 0, rfl⟩, ?_⟩
  exact h.of_same ⟨h.live.get, h.live.last⟩ ⟨h.live'.get, h.live'.last⟩ (fun _ _ => rfl)
    (fun _ _ => rfl) h.fresh_succ

theorem likewise_parameterSymbols {known known' : List Symbol}
    (h : known.Forall₂ (AlikeVariable R) known') (parameters : List Parameter) :
    Likewise R own i rest j rest' (parameterSymbols (some i) known parameters)
      (parameterSymbols (some j) known' parameters) (List.Forall₂ (AlikeVariable R)) := by
  induction parameters generalizing known known' with
  | nil => exact inStep_pure h
  | cons p ps ih =>
    have hknown : known'.any (·.name = p.name.text) = known.any (·.name = p.name.text) := by
      clear ih
      induction h with
      | nil => rfl
      | cons hsymbol _ ih => rw [List.any_cons, List.any_cons, ih, hsymbol.name]
    unfold parameterSymbols
    rw [hknown]
    refine InStep.ite (fun _ => likewise_blame p.name rfl) fun _ => ?_
    refine (likewise_parameterSymbol p).bind fun symbol symbol' hsymbol => ih ?_
    exact List.rel_append h (.cons hsymbol.1 .nil)

theorem likewise_declare (name : String) {type type' : Option Symbol}
    (h : type.Rel (AlikeType R) type') :
    Likewise R own i rest j rest' (declare i name type) (declare j name type') Eq := by
  refine InStep.next (likewise_change fun s t hst => ?_) fun _ => likewise_note 2 _ _
  obtain ⟨x, y, hx, hy, hsymbols⟩ := hst.chains.get
  refine ⟨_, _, Arena.add_ok hx .variables (.var · name type),
    Arena.add_ok hy .variables (.var · name type'), ?_⟩
  exact hst.set hx hy rfl rfl hsymbols
    (fun hown => (hst.vars hown x y hx hy).insert name ⟨rfl, h⟩) hst.fresh_succ

theorem likewise_insertVariable {symbol symbol' : Symbol} (h : AlikeVariable R symbol symbol') :
    Likewise R own i rest j rest' (change (·.update i (·.insertVariable symbol)))
      (change (·.update j (·.insertVariable symbol'))) Eq := by
  refine likewise_change fun s t hst => ?_
  obtain ⟨x, y, hx, hy, hsymbols⟩ := hst.chains.get
  refine ⟨_, _, Arena.update_ok hx _, Arena.update_ok hy _, ?_⟩
  refine hst.set hx hy rfl rfl hsymbols (fun hown => ?_) hst.fresh
  show (x.vars.insert symbol.name symbol).Alike _ (y.vars.insert symbol'.name symbol')
  rw [h.name]
  exact (hst.vars hown x y hx hy).insert symbol.name h

theorem likewise_addFunction (name : String) {symbols symbols' : List Symbol}
    (h : symbols.Forall₂ (AlikeVariable R) symbols') :
    Likewise R own i rest j rest' (change (·.addSymbol i (.function · name symbols)))
      (change (·.addSymbol j (.function · name symbols'))) Eq := by
  refine likewise_change fun s t hst => ?_
  obtain ⟨x, y, hx, hy, hsymbols⟩ := hst.chains.get
  refine ⟨_, _, Arena.add_ok hx .symbols (.function · name symbols),
    Arena.add_ok hy .symbols (.function · name symbols'), ?_⟩
  have hfunction : Alike R (.function s.arena.nextId name symbols)
      (.function t.arena.nextId name symbols') := ⟨⟨hst.fresh 0, rfl⟩, .some h⟩
  exact hst.set hx hy rfl rfl (hsymbols.insert name hfunction) (fun hown => hst.vars hown x y hx hy)
    hst.fresh_succ

theorem likewise_declareTarget (hR : OneToOne R) (hown : own) (type : Option Token)
    (target op : Token) {valueType valueType' : Option Symbol}
    (hvalue : valueType.Rel (AlikeType R) valueType') :
    Likewise R own i rest j rest' (declareTarget (some i) type target op valueType)
      (declareTarget (some j) type target op valueType') Eq := by
  refine likewise_here (likewise_fetch.bind fun x y hxy => ?_)
  cases type with
  | none =>
    dsimp only
    rw [(hxy.2 hown).contains_eq]
    exact InStep.ite (fun _ => inStep_pure rfl) fun _ => likewise_declare target.text hvalue
  | some type =>
    refine (likewise_typeOf type).bind fun declared declared' hdeclared => ?_
    have hdeclare : Likewise R own i rest j rest' (declare i target.text (some declared))
        (declare j target.text (some declared')) Eq :=
      likewise_declare target.text (.some hdeclared.toAlikeType)
    cases hvalue with
    | none => exact hdeclare
    | some hgiven =>
      dsimp only
      rw [same_eq hR hgiven hdeclared.toAlikeType, hgiven.name, hdeclared.name]
      exact InStep.ite (fun _ => hdeclare) fun _ => likewise_blame op rfl

/-! ## Declarations of functions -/

theorem likewise_announce (name : Token) (parameters : List Parameter) :
    Likewise R own i rest j rest' (announce i name parameters) (announce j name parameters)
      (List.Forall₂ (AlikeVariable R)) := by
  rw [announce_eq, announce_eq]
  refine likewise_fetch.bind fun x y hxy => ?_
  rw [hxy.1.contains_eq]
  refine InStep.ite (fun _ => likewise_blame name rfl) fun _ => ?_
  refine (likewise_parameterSymbols .nil parameters).bind fun symbols symbols' hsymbols => ?_
  exact (likewise_addFunction name.text hsymbols).next fun _ => inStep_pure hsymbols

theorem likewise_walkInside {walk walk' : Option Nat → Analyzing (Option Symbol)}
    (h : Likewise R own i rest j rest' (walk (some i)) (walk' (some j))
      (Option.Rel (AlikeType R))) {symbols symbols' : List Symbol}
    (hsymbols : symbols.Forall₂ (AlikeVariable R) symbols') :
    Likewise R own i rest j rest' (walkInside symbols walk i) (walkInside symbols' walk' j) Eq :=
  InStep.next (inStep_forM hsymbols fun _ _ hsymbol => likewise_insertVariable hsymbol) fun _ =>
    h.discard.next fun _ => likewise_noteScope

/-- The walk over the body of a function, in a scope of its own. Whatever becomes of that scope, the
scopes around it are the same afterwards, and so are their variables. -/
theorem likewise_enclose {walk : Option Nat → Analyzing (Option Symbol)}
    (hsparing : ∀ s₀ scopes child, child ∈ scopes →
      Sparing s₀ (some child) scopes (walk (some child)) (walk (some child)))
    (h : ∀ child child', Likewise R True child (i :: rest) child' (j :: rest') (walk (some child))
      (walk (some child')) (Option.Rel (AlikeType R))) (name : String)
    {symbols symbols' : List Symbol} (hsymbols : symbols.Forall₂ (AlikeVariable R) symbols') :
    Likewise R own i rest j rest' (enclose i name symbols walk) (enclose j name symbols' walk)
      Eq := by
  refine (likewise_note 2 _ _).next fun _ s t hst => ?_
  obtain ⟨child, arena, child', arena', hpush, hpush', hopened, hopened', hinner⟩ := hst.push name
  rw [bind_of_ok (changeWith_eq hpush), bind_of_ok (changeWith_eq hpush')]
  have hbody := likewise_walkInside (h child child') hsymbols _ _ hinner
  have hafter := (sparing_walkInside (hsparing { s with arena } (child :: i :: rest) child
    List.mem_cons_self) symbols).keeps _ (.start hinner.live)
  have hafter' := (sparing_walkInside (hsparing { t with arena := arena' } (child' :: j :: rest')
    child' List.mem_cons_self) symbols').keeps _ (.start hinner.live')
  have hlt (k : Nat) (hk : k ∈ i :: rest) : k < child := hinner.chains.first.lt_head hk
  have hlt' (k : Nat) (hk : k ∈ j :: rest') : k < child' := hinner.chains.second.lt_head hk
  unfold ensuring
  generalize walkInside symbols walk child _ = r at hbody hafter
  generalize walkInside symbols' walk child' _ = r' at hbody hafter'
  cases hbody with
  | ok _ hend =>
    obtain ⟨s', hs', hlive, hspares, hnext⟩ := hafter.live.leave hlt hafter.spares
    obtain ⟨t', ht', hlive', hspares', hnext'⟩ := hafter'.live.leave hlt' hafter'.spares
    simp only [hs', ht']
    refine .ok rfl (hst.of_same hlive hlive' (fun _ => (hopened.trans hspares).unchanged)
      (fun _ => (hopened'.trans hspares').unchanged) ?_)
    rw [hnext, hnext']
    exact hend.fresh
  | error he =>
    -- the scopes are left without a fault, so the failure is still that of the body
    obtain ⟨s', hs', -⟩ := hafter.live.leave hlt hafter.spares
    obtain ⟨t', ht', -⟩ := hafter'.live.leave hlt' hafter'.spares
    simp only [hs', ht']
    exact .error he

theorem likewise_declareFunction {depth : Nat} {body : Node}
    (h : ∀ child child', Likewise R True child (i :: rest) child' (j :: rest')
      (visit depth body (some child)) (visit depth body (some child')) (Option.Rel (AlikeType R)))
    (name : Token) (parameters : List Parameter) :
    Likewise R own i rest j rest' (declareFunction (some i) name parameters (visit depth body))
      (declareFunction (some j) name parameters (visit depth body)) Eq := by
  rw [declareFunction_eq, declareFunction_eq]
  refine (likewise_announce name parameters).bind fun symbols symbols' hsymbols => ?_
  refine likewise_enclose (fun s₀ scopes child hchild => ?_) h name.text hsymbols
  exact sparing_visit depth (fun _ hi => Option.some.inj hi ▸ hchild) body

/-! ## The walk -/

/-- The end of a call: if its name is that of a function, the arguments are checked. -/
def checkFound (name : Token) (types : List (Option Symbol)) (found : Option Symbol) :
    Analyzing (Option Symbol) := do
  match found with
  | some (.function _ _ parameters) => checkArguments name parameters types
  | _ => pure ()
  return none

theorem likewise_checkFound (hR : OneToOne R) (name : Token) {types types' : List (Option Symbol)}
    (htypes : types.Forall₂ (Option.Rel (AlikeType R)) types') {found found' : Option Symbol}
    (hfound : found.Rel (Alike R) found') :
    Likewise R own i rest j rest' (checkFound name types found) (checkFound name types' found')
      (Option.Rel (AlikeType R)) := by
  cases hfound with
  | none => exact inStep_pure .none
  | @some symbol symbol' hsymbol =>
    have hparameters := hsymbol.parameters
    cases symbol with
    | function id name' parameters =>
      cases symbol' with
      | function id' name'' parameters' =>
        cases hparameters with
        | some hparameters =>
          exact (likewise_checkArguments hR name hparameters htypes).next fun _ => inStep_pure .none
      | _ => cases hparameters
    | _ =>
      cases symbol' with
      | function id' name' parameters' => cases hparameters
      | _ => exact inStep_pure .none

/-- A tree without a program in it is walked over alike from both ends. The induction is on the
depth, for all chains at once, since the body of a function is walked over in scopes of its own. -/
theorem likewise_visit (hR : OneToOne R) {depth : Nat} {node : Node} (h : node.ProgramFree)
    (i : Nat) (rest : List Nat) (j : Nat) (rest' : List Nat) :
    Likewise R True i rest j rest' (visit depth node (some i)) (visit depth node (some j))
      (Option.Rel (AlikeType R)) := by
  induction depth generalizing node i rest j rest' with
  | zero => exact inStep_throw fun _ _ _ => rfl
  | succ depth ih =>
    have hsame (nodes : List Node) : List.Forall₂ (fun n m => n = m ∧ n ∈ nodes) nodes nodes :=
      List.forall₂_same.mpr fun _ hn => ⟨rfl, hn⟩
    rw [visit_succ, visit_succ]
    cases node with
    | program name block => exact absurd List.mem_cons_self (h name block)
    | compound children =>
      refine InStep.next (inStep_forM (hsame children) ?_) fun _ => inStep_pure .none
      rintro child _ ⟨rfl, hc⟩
      exact (ih (h.child (.statement hc)) i rest j rest').discard
    | noOp => exact inStep_pure .none
    | intLiteral token => exact likewise_type _
    | floatLiteral token => exact likewise_type _
    | boolLiteral token => exact likewise_type _
    | var name =>
      refine likewise_here ((likewise_lookupVariable trivial name.text).bind
        fun found found' hfound => ?_)
      cases hfound with
      | some hfound => exact inStep_pure hfound.type
      | none => exact likewise_blame name rfl
    | unary op operand =>
      refine (ih (h.child .operand) i rest j rest').bind fun type type' htype => ?_
      exact (likewise_checkOperator op htype).next fun _ => inStep_pure htype
    | binary op left right =>
      refine (ih (h.child .left) i rest j rest').bind fun leftType leftType' hleft => ?_
      refine (ih (h.child .right) i rest j rest').bind fun rightType rightType' hright => ?_
      refine (likewise_agree hR op hleft hright).bind fun type type' htype => ?_
      refine (likewise_checkOperator op htype).next fun _ => ?_
      exact InStep.ite (fun _ => likewise_type _) fun _ => inStep_pure htype
    | assign type target op value =>
      refine (ih (h.child .assigned) i rest j rest').bind fun valueType valueType' hvalue => ?_
      exact (likewise_declareTarget hR trivial type target op hvalue).next fun _ => inStep_pure .none
    | branch keyword condition whenTrue whenFalse =>
      rw [visitNode_branch, visitNode_branch]
      refine (ih (h.child .condition) i rest j rest').bind fun type type' htype => ?_
      refine (likewise_checkCondition keyword htype).next fun _ => ?_
      refine (ih (h.child .whenTrue) i rest j rest').discard.next fun _ => ?_
      exact (ih (h.child .whenFalse) i rest j rest').discard.next fun _ => inStep_pure .none
    | ret value => exact ih (h.child .returned) i rest j rest'
    | typeName name =>
      exact (likewise_typeOf name).bind fun _ _ htype => inStep_pure (.some htype.toAlikeType)
    | parameter p =>
      exact (likewise_parameterSymbol p).bind fun _ _ hsymbol => inStep_pure (.some hsymbol.2)
    | function name parameters body =>
      exact (likewise_declareFunction (fun child child' =>
        ih (h.child .body) child (i :: rest) child' (j :: rest')) name parameters).next fun _ =>
          inStep_pure .none
    | call name arguments =>
      refine InStep.bind (inStep_mapM (B := Option.Rel (AlikeType R)) (hsame arguments) ?_)
        fun types types' htypes => ?_
      · rintro argument _ ⟨rfl, ha⟩
        exact ih (h.child (.argument ha)) i rest j rest'
      · exact (likewise_lookup name.text).bind fun _ _ hfound =>
          likewise_checkFound hR name htypes hfound
    | bare => exact inStep_throw fun _ _ _ => rfl
    | missing => exact inStep_throw fun _ _ _ => rfl

/-! ## Visits in the block of a program -/

/-- An analysis in the block of a program that has declared some variables. -/
def inBlock (vars : List (String × Symbol)) (nextId : Nat) : Analysis where
  arena := ⟨#[some {
    name := "main"
    level := 0
    parent := none
    symbols := ⟨[("int", .builtin 0 "int"), ("float", .builtin 1 "float"),
      ("bool", .builtin 2 "bool")]⟩
    vars := ⟨vars⟩ }], nextId⟩
  root := some 0
  log := { level := 0 }

theorem chains_inBlock (vars vars' : List (String × Symbol)) (m n : Nat) :
    Arena.Chains Eq (inBlock vars m).arena (inBlock vars' n).arena [0] [0] := by
  have halike (id : Nat) (name : String) : Alike Eq (.builtin id name) (.builtin id name) :=
    ⟨⟨rfl, rfl⟩, .none⟩
  refine ⟨.root rfl rfl, .root rfl rfl, .cons ⟨_, _, rfl, rfl, Table.Alike.self ?_⟩ .nil⟩
  simp [halike]

theorem reaches_block {block : Node} {type : Option Symbol} {t : Analysis}
    (h : visit 9 (.program "main" block) none { log := { level := 0 } } = .ok type t) :
    Visit.Reaches ⟨9, .program "main" block, none, { log := { level := 0 } }⟩
      ⟨8, block, some 0, inBlock [] 3⟩ := by
  obtain ⟨root, s₁, _, _, hopened, _, hmakes⟩ := Visit.makes_block h
  have hblock : Visit.programOpened "main" { log := { level := 0 } } = .ok 0 (inBlock [] 3) := rfl
  cases hblock.symm.trans hopened
  exact .single hmakes

/-! ## Verdicts -/

/-- The verdict of a step: that it succeeds, or its failure. -/
def verdict : EStateM.Result Failure Analysis α → Except Failure Unit
  | .ok _ _ => .ok ()
  | .error e _ => .error e

theorem Likewise.verdict_eq {p q : Analyzing α} (h : Likewise R own i rest j rest' p q A)
    {s t : Analysis} (hst : Alongside R own i rest j rest' s t) :
    verdict (p s) = verdict (q t) := by
  have h := h s t hst
  generalize p s = r at h
  generalize q t = r' at h
  cases h with
  | ok _ _ => rfl
  | error he => exact congrArg Except.error he.symm

/-- A function is visited in the current scopes of two analyses, at any moment of either. If the
scopes and those that enclose them have the same symbols, whatever their variables, then the
function is accepted by both or refused by both with the same failure. Each of them changes its
current scope by the symbol of the function, and no scope that encloses it; and it changes no scope
at all if the name or a parameter of the function is refused. -/
theorem function_isolated {depth depth' : Nat} {tree tree' : Node} {log log' : Log}
    {keep keep' : Bool} {v w : Visit} (hv : Visit.Reaches ⟨depth, tree, none, { log, keep }⟩ v)
    (hw : Visit.Reaches ⟨depth', tree', none, { log := log', keep := keep' }⟩ w)
    {i j : Nat} {rest rest' : List Nat} (hi : v.scope = some i) (hj : w.scope = some j)
    {R : Nat → Nat → Prop} (hR : OneToOne R)
    (hchains : Arena.Chains R v.state.arena w.state.arena (i :: rest) (j :: rest'))
    (limit : Nat) (name : Token) (parameters : List Parameter) {body : Node}
    (hbody : ∀ name' block, .program name' block ∉ body.nodes) :
    verdict (visit (limit + 1) (.function name parameters body) (some i) v.state) =
        verdict (visit (limit + 1) (.function name parameters body) (some j) w.state) ∧
      AddsFunction name parameters i rest v.state
        (visit (limit + 1) (.function name parameters body) (some i) v.state) ∧
      AddsFunction name parameters j rest' w.state
        (visit (limit + 1) (.function name parameters body) (some j) w.state) := by
  have hlive {u : Visit} (hu : u.Placed) {k : Nat} {path : List Nat} (hk : u.scope = some k)
      (hpath : u.state.arena.Path (k :: path)) : u.state.Live (k :: path) := by
    obtain ⟨scopes, hlive, hmem⟩ := hu
    exact hlive.of_path hpath fun _ hhead => Option.some.inj hhead ▸ hmem k hk
  have hlive₁ := hlive hv.placed hi hchains.first
  have hlive₂ := hlive hw.placed hj hchains.second
  have hrest {a : Arena} {k : Nat} {path : List Nat} (hpath : a.Path (k :: path)) (l : Nat)
      (hl : l ∈ path) : l ∈ k :: path ∧ l ≠ k :=
    ⟨List.mem_cons_of_mem _ hl, fun hlk => hpath.not_mem (hlk ▸ hl)⟩
  refine ⟨?_, addsFunction_visit hlive₁ List.mem_cons_self (hrest hchains.first) name parameters
    body limit, addsFunction_visit hlive₂ List.mem_cons_self (hrest hchains.second) name parameters
    body limit⟩
  -- the current scopes are not the walks' own: nothing is known of their variables
  have hlikewise : Likewise (Arena.prolonged R v.state.arena w.state.arena) False i rest j rest'
      (visitNode (visit limit) (.function name parameters body) (some i))
      (visitNode (visit limit) (.function name parameters body) (some j)) Eq :=
    InStep.next (likewise_declareFunction (fun child child' => likewise_visit (hR.prolonged _ _)
      hbody child (i :: rest) child' (j :: rest')) name parameters) fun _ => inStep_pure rfl
  rw [visit_succ]
  exact hlikewise.verdict_eq ⟨hlive₁, hlive₂, hchains.prolonged hv.given hw.given,
    fun k => .inr ⟨k, rfl, rfl⟩, fun hfalse => hfalse.elim⟩

def assignsInt : Node :=
  .assign none ⟨.identifier, "x", 1, 1⟩ ⟨.assign, ":=", 1, 3⟩ (.intLiteral ⟨.intLiteral, "1", 1, 6⟩)

def intParameter : List Parameter :=
  [⟨⟨.kwInt, "int", 2, 8⟩, ⟨.identifier, "a", 2, 12⟩⟩]

def assignsBool : Node :=
  .compound [
    .assign none ⟨.identifier, "x", 2, 16⟩ ⟨.assign, ":=", 2, 18⟩
      (.boolLiteral ⟨.kwTrue, "true", 2, 21⟩),
    .ret (.var ⟨.identifier, "a", 2, 34⟩)]

/-- In one program `x` is an integer where the function stands, in the other it is not known. In the
function it is a truth value in either case. -/
theorem function_isolated_shadowing :
    ∃ v w : Visit,
      v.state = inBlock [("x", .var 3 "x" (some (.builtin 0 "int")))] 4 ∧ w.state = inBlock [] 3 ∧
      Visit.Reaches ⟨9, .program "main" (.compound [assignsInt, .noOp]), none,
        { log := { level := 0 } }⟩ v ∧
      Visit.Reaches ⟨9, .program "main" (.compound []), none, { log := { level := 0 } }⟩ w ∧
      v.scope = some 0 ∧ w.scope = some 0 ∧
      OneToOne Eq ∧ Arena.Chains Eq v.state.arena w.state.arena [0] [0] ∧
      (∀ name block, .program name block ∉ assignsBool.nodes) ∧
      verdict (visit 9 (.function ⟨.identifier, "f", 2, 6⟩ intParameter assignsBool) (some 0)
          v.state) =
        verdict (visit 9 (.function ⟨.identifier, "f", 2, 6⟩ intParameter assignsBool) (some 0)
          w.state) ∧
      AddsFunction ⟨.identifier, "f", 2, 6⟩ intParameter 0 [] v.state
        (visit 9 (.function ⟨.identifier, "f", 2, 6⟩ intParameter assignsBool) (some 0) v.state) ∧
      AddsFunction ⟨.identifier, "f", 2, 6⟩ intParameter 0 [] w.state
        (visit 9 (.function ⟨.identifier, "f", 2, 6⟩ intParameter assignsBool) (some 0) w.state) := by
  have hw : Visit.Reaches ⟨9, .program "main" (.compound []), none, { log := { level := 0 } }⟩
      ⟨8, .compound [], some 0, inBlock [] 3⟩ := reaches_block rfl
  have hv : Visit.Reaches ⟨9, .program "main" (.compound [assignsInt, .noOp]), none,
      { log := { level := 0 } }⟩
      ⟨7, .noOp, some 0, inBlock [("x", .var 3 "x" (some (.builtin 0 "int")))] 4⟩ := by
    have hblock : visit 8 (.compound ([assignsInt] ++ .noOp :: [])) (some 0) (inBlock [] 3) =
        .ok none (inBlock [("x", .var 3 "x" (some (.builtin 0 "int")))] 4) := rfl
    have hassign : [assignsInt].forM (fun n => discard (visit 7 n (some 0))) (inBlock [] 3) =
        .ok () (inBlock [("x", .var 3 "x" (some (.builtin 0 "int")))] 4) := rfl
    obtain ⟨s₁, _, _, hbefore, -, hmakes⟩ := Visit.makes_child hblock
    cases hassign.symm.trans hbefore
    exact (reaches_block rfl).tail hmakes
  have hR : OneToOne Eq := by
    rintro x _ x' _ rfl rfl
    exact Iff.rfl
  have hfree : ∀ name block, .program name block ∉ assignsBool.nodes := by
    simp [assignsBool, Node.nodes, Node.nodesOf]
  exact ⟨_, _, rfl, rfl, hv, hw, rfl, rfl, hR, chains_inBlock .., hfree,
    function_isolated hv hw rfl rfl hR (chains_inBlock ..) 8 _ _ hfree⟩

/-- A function in which another one is declared twice. -/
def declaredTwice : Node :=
  .compound [.function ⟨.identifier, "g", 1, 17⟩ [] (.compound [.noOp]),
    .function ⟨.identifier, "g", 1, 28⟩ [] (.compound [.noOp])]

/-- The declaration of a function may fail for a name that is declared twice, and yet add the
function to its scope: that name is not its own. -/
theorem duplicate_inside_adds :
    ∃ v : Visit, Visit.Reaches ⟨9, .program "main" (.compound []), none, { log := { level := 0 } }⟩ v ∧
      v.scope = some 0 ∧ (∀ name block, .program name block ∉ declaredTwice.nodes) ∧
      ∃ t scope scope',
        visit 9 (.function ⟨.identifier, "f", 1, 6⟩ [] declaredTwice) (some 0) v.state =
          .error (.semantic (.alreadyDeclared "g") ⟨.identifier, "g", 1, 28⟩) t ∧
        v.state.arena.slots[0]? = some (some scope) ∧ scope.symbols.contains "f" = false ∧
        t.arena.slots[0]? = some (some scope') ∧ scope'.symbols.contains "f" = true := by
  refine ⟨_, reaches_block rfl, rfl, ?_, _, _, _, rfl, rfl, ?_, rfl, ?_⟩
  · simp [declaredTwice, Node.nodes, Node.nodesOf]
  · decide
  · decide

end Analyzing

end LittleLang
