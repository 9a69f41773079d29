import LittleLang.Proofs.Analysis.Finds
import LittleLang.Proofs.Analysis.Moments

/-!
# What an analysis accepts is accepted

Where the walk of an analysis comes to its end, under rules or without any, the tree is accepted in
the sense of `Accepts`, from what the scope knows before the walk to what it knows after it
(`finds_program`). A statement changes only the variables of the scope that it stands in
(`Declares`). A function has a scope of its own, which is closed again; what is left of it in the
scope of the program is its name. -/

namespace LittleLang

namespace Analyzing

variable {α β : Type} {s s' : Analysis} {i : Nat} {scope : Scope} {S : String → Option Symbol}

/-! ## Declarations of variables -/

/-- The walk has changed the variables of its scope, and nothing else that is looked at. -/
structure Declares (i : Nat) (scope : Scope) (s : Analysis) (vars : Table Symbol)
    (s' : Analysis) : Prop where
  slots : s'.arena.slots = s.arena.slots.setIfInBounds i (some { scope with vars })
  root : s'.root = s.root
  keep : s'.keep = s.keep

theorem Declares.refl_of_slot (h : s.arena.slots[i]? = some (some scope)) :
    Declares i scope s scope.vars s := by
  refine ⟨Array.ext_getElem? fun j => ?_, rfl, rfl⟩
  obtain ⟨hlt, -⟩ := Array.getElem?_eq_some_iff.mp h
  by_cases hj : i = j
  · subst hj
    rw [h]
    simp [hlt]
  · rw [Array.getElem?_setIfInBounds_ne hj]

theorem Declares.refl (h : Stands s i scope S) : Declares i scope s scope.vars s :=
  .refl_of_slot h.sees.slot

theorem Declares.trans {vars vars' : Table Symbol} {s'' : Analysis}
    (h : Declares i scope s vars s') (h' : Declares i { scope with vars } s' vars' s'') :
    Declares i scope s vars' s'' := by
  refine ⟨?_, h'.root.trans h.root, h'.keep.trans h.keep⟩
  rw [h'.slots, h.slots, Array.setIfInBounds_setIfInBounds]

theorem Declares.stands {vars : Table Symbol} (h : Declares i scope s vars s')
    (hs : Stands s i scope S) (ht : Typed vars) : Stands s' i { scope with vars } S :=
  ⟨hs.sees.setVars h.slots, hs.types, ht⟩

theorem update_of_slot {a : Arena} (h : a.slots[i]? = some (some scope))
    (change : Scope → Scope) :
    a.update i change = .ok { a with slots := a.slots.setIfInBounds i (some (change scope)) } := by
  unfold Arena.update
  rw [Arena.locate_eq h]
  rfl

theorem finds_declare (h : Stands s i scope S) (name : String) (type : Option Symbol) :
    Finds s (declare i name type) fun _ s' =>
      ∃ id, Declares i scope s (scope.vars.insert name (.var id name type)) s' := by
  unfold declare
  refine (finds_change _).bind ?_
  rintro _ _ ⟨arena, harena, rfl⟩
  refine (finds_note 2 _).weaken ?_
  rintro _ _ ⟨log, rfl⟩
  have hslot : (s.arena.create (.var · name type)).2.slots[i]? = some (some scope) := h.sees.slot
  have hadd := (update_of_slot hslot (·.insertVariable (.var s.arena.nextId name type))).symm.trans
    harena
  cases hadd
  exact ⟨s.arena.nextId, rfl, rfl, rfl⟩

theorem finds_declaration (h : Stands s i scope S) {type : Option Symbol}
    (ht : ∀ t ∈ type, t ∈ typeSymbols) (name : String) :
    Finds s (declare i name type) fun _ s' => ∃ vars, Declares i scope s vars s' ∧ Typed vars ∧
      contextOf S vars = (contextOf S scope.vars).declare name (type.map Symbol.name) := by
  refine (finds_declare h name type).weaken ?_
  rintro _ s' ⟨id, hd⟩
  exact ⟨_, hd, h.typed.insert ht, contextOf_insert S scope.vars id name type⟩

theorem finds_declareTyped (h : Stands s i scope S) {given : Token}
    (hgiven : given.text ∈ builtinTypes) (target op : Token) {type : Option Symbol}
    (ht : ∀ t ∈ type, t ∈ typeSymbols) :
    Finds s (declareTarget (some i) (some given) target op type) fun _ s' =>
      (∀ name ∈ type.map Symbol.name, name = given.text) ∧
      ∃ vars, Declares i scope s vars s' ∧ Typed vars ∧
        contextOf S vars = (contextOf S scope.vars).declare target.text (some given.text) := by
  unfold declareTarget
  refine finds_here.next ?_
  rintro _ rfl
  refine (finds_fetch h).next fun table htable => ?_
  refine (finds_typeOf h hgiven).next fun declared ⟨hmem, hname⟩ => ?_
  have hdecl := finds_declaration h (mem_typeSymbols_some hmem) target.text
  rw [Option.map_some, hname] at hdecl
  cases type with
  | none => exact hdecl.weaken fun _ s' hd => ⟨nofun, hd⟩
  | some type =>
    refine Finds.ite (fun hsame => ?_) fun _ => finds_blame _ _
    obtain rfl := eq_of_same (ht type rfl) hmem hsame
    refine hdecl.weaken fun _ s' hd => ⟨?_, hd⟩
    rintro _ ⟨⟩
    exact hname

theorem finds_declareUntyped (h : Stands s i scope S) (target op : Token) {type : Option Symbol}
    (ht : ∀ t ∈ type, t ∈ typeSymbols) :
    Finds s (declareTarget (some i) none target op type) fun _ s' =>
      ∃ vars, Declares i scope s vars s' ∧ Typed vars ∧
        ((contextOf S scope.vars).Knows target.text ∧
            contextOf S vars = contextOf S scope.vars ∨
          (contextOf S scope.vars).vars target.text = none ∧
            contextOf S vars =
              (contextOf S scope.vars).declare target.text (type.map Symbol.name)) := by
  unfold declareTarget
  refine finds_here.next ?_
  rintro _ rfl
  refine (finds_fetch h).next fun table htable => ?_
  subst htable
  refine Finds.ite (fun hknown => ?_) fun hnew => ?_
  · exact finds_pure ⟨_, .refl h, h.typed, .inl ⟨knows_contextOf.mpr hknown, rfl⟩⟩
  · refine (finds_declaration h ht target.text).weaken ?_
    rintro _ s' ⟨vars, hd, htyped, hctx⟩
    refine ⟨vars, hd, htyped, .inr ⟨?_, hctx⟩⟩
    have hnone : table.vars.get? target.text = none := by simpa [Table.contains] using hnew
    simp [contextOf, hnone]

/-! ## Rules -/

/-- The variables from before the outermost `if`, if there is one around. -/
structure Fits (rules : Rules) (known : Option (List String)) (inside : Bool) (Γ : Context) :
    Prop where
  names : ∀ names ∈ known, ∀ name ∈ names, Γ.Knows name
  inside : rules.settled = true → inside = true → known.isSome = true

theorem Fits.outside (rules : Rules) (Γ : Context) : Fits rules none false Γ :=
  ⟨nofun, nofun⟩

theorem Fits.next {rules : Rules} {known : Option (List String)} {inside : Bool} {Γ Γ' : Context}
    (h : Fits rules known inside Γ) (hΓ : ∀ name, Γ.Knows name → Γ'.Knows name) :
    Fits rules known inside Γ' :=
  ⟨fun names hn name hname => hΓ name (h.names names hn name hname), h.inside⟩

theorem eq_of_same? {given recorded : Option Symbol} (hg : ∀ t ∈ given, t ∈ typeSymbols)
    (hr : ∀ t ∈ recorded, t ∈ typeSymbols) (h : Symbol.same? given recorded = true) :
    given = recorded := by
  cases given with
  | none =>
    cases recorded with
    | none => rfl
    | some r => cases h
  | some g =>
    cases recorded with
    | none => cases h
    | some r => rw [eq_of_same (hg g rfl) (hr r rfl) h]

section

variable {rules : Rules} {known : Option (List String)} {inside : Bool} {depth : Nat}

theorem finds_assignedType {P : Token → Prop} (h : Stands s i scope S) {type : Option Token}
    (hty : ∀ t ∈ type, t.text ∈ builtinTypes) {value : Node} (hv : value.IsExpression P) :
    Finds s (assignedType (visit depth) (some i) type value) fun given s' => s' = s ∧
      (∀ t ∈ given, t ∈ typeSymbols) ∧
      (∀ t, type = some t → given.map Symbol.name = some t.text) ∧
      (type = none → visit depth value (some i) s = .ok given s) := by
  cases type with
  | some t =>
    refine (finds_typeOf h (hty t rfl)).bind ?_
    rintro symbol _ ⟨rfl, hmem, hname⟩
    refine finds_pure ⟨rfl, mem_typeSymbols_some hmem, ?_, nofun⟩
    rintro _ ⟨⟩
    simp [hname]
  | none =>
    intro given s' hg
    have hg : visit depth value (some i) s = .ok given s' := hg
    obtain ⟨rfl, hmem, -⟩ := finds_expression hv h depth given s' hg
    exact ⟨rfl, hmem, nofun, fun _ => hg⟩

theorem finds_checkAssignment {P : Token → Prop} (h : Stands s i scope S)
    (hf : Fits rules known inside (contextOf S scope.vars)) {type : Option Token}
    (hty : ∀ t ∈ type, t.text ∈ builtinTypes) {value : Node} (hv : value.IsExpression P)
    (target op : Token) :
    Finds s (rules.checkAssignment (visit depth) known (some i) type target op value) fun _ _ =>
      (∀ given, type = some given →
        Allows rules inside (contextOf S scope.vars) target.text (some given.text)) ∧
      ∀ found, type = none → visit depth value (some i) s = .ok found s →
        Allows rules inside (contextOf S scope.vars) target.text (found.map Symbol.name) := by
  unfold Rules.checkAssignment
  refine Finds.ite (fun _ => finds_refuse _ _) fun hknown => ?_
  have hsettled : rules.settled = true → inside = true →
      (contextOf S scope.vars).Knows target.text := by
    intro hr hi
    obtain ⟨names, hnames⟩ := Option.isSome_iff_exists.mp (hf.inside hr hi)
    refine hf.names names hnames target.text ?_
    simpa [hr, hnames] using hknown
  refine Finds.ite (fun hstable => ?_) fun hstable => ?_
  · refine finds_here.next ?_
    rintro _ rfl
    refine (finds_lookupVariable h target.text).next fun found hfound => ?_
    have hrecorded : (contextOf S scope.vars).vars target.text =
        found.map fun symbol => symbol.type?.map Symbol.name := by rw [hfound]; rfl
    cases found with
    | none =>
      have hallow (type : Option String) :
          Allows rules inside (contextOf S scope.vars) target.text type :=
        ⟨fun _ _ hr => by simp [hrecorded] at hr, hsettled⟩
      exact finds_pure ⟨fun _ _ => hallow _, fun _ _ _ => hallow _⟩
    | some symbol =>
      refine (finds_assignedType h hty hv).next fun given ⟨hmem, hgiven, hvalue⟩ => ?_
      refine Finds.ite (fun _ => finds_blame _ _) fun hsame => ?_
      have hsame : Symbol.same? given symbol.type? = true := by simpa using hsame
      obtain rfl := eq_of_same? hmem (fun t ht => h.typed _ _ t hfound.symm ht) hsame
      have hallow : Allows rules inside (contextOf S scope.vars) target.text
          (symbol.type?.map Symbol.name) := by
        refine ⟨fun _ recorded hr => ?_, hsettled⟩
        rw [hrecorded] at hr
        exact (Option.some.inj hr).symm
      refine finds_pure ⟨fun t ht => hgiven t ht ▸ hallow, fun found ht hfound' => ?_⟩
      rw [hvalue ht] at hfound'
      cases hfound'
      exact hallow
  · have hallow (type : Option String) :
        Allows rules inside (contextOf S scope.vars) target.text type :=
      ⟨fun hr => absurd hr hstable, hsettled⟩
    exact finds_pure ⟨fun _ _ => hallow _, fun _ _ _ => hallow _⟩

theorem finds_aside {step : Analyzing α} {post : α → Analysis → Prop} (h : Finds s step post) :
    Finds s (aside step) fun a s' => s' = s ∧ ∃ s'', post a s'' := by
  intro a s' ha
  obtain ⟨hs, s'', hstep⟩ := aside_eq_ok ha
  exact ⟨hs, s'', h a s'' hstep⟩

theorem finds_inspectBranch (h : Stands s i scope S)
    (hf : Fits rules known inside (contextOf S scope.vars)) (keyword : Option Token)
    (condition whenTrue whenFalse : Node) :
    Finds s (aside (rules.inspect (visit depth) known
        (.branch keyword condition whenTrue whenFalse) (some i))) fun known' s' => s' = s ∧
      Fits rules known' true (contextOf S scope.vars) := by
  have hinspect : Finds s (rules.inspect (visit depth) known
      (.branch keyword condition whenTrue whenFalse) (some i)) fun known' _ =>
        Fits rules known' true (contextOf S scope.vars) := by
    cases known with
    | some names => exact finds_pure ⟨hf.names, fun _ _ => rfl⟩
    | none =>
      refine Finds.ite (fun _ => ?_) fun hr => finds_pure ⟨nofun, fun hr' => absurd hr' hr⟩
      refine finds_here.next ?_
      rintro _ rfl
      refine (finds_fetch h).next fun table htable => finds_pure ⟨?_, fun _ _ => rfl⟩
      rintro _ ⟨⟩ name hname
      subst htable
      exact knows_contextOf.mpr ((Table.mem_names _ _).mp hname)
  exact (finds_aside hinspect).weaken fun known' s' ⟨hs, _, hfits⟩ => ⟨hs, hfits⟩

/-- A statement of a scope is accepted, from what the scope knew before it to what it knows after.
Of the scope only the variables have changed. -/
def AcceptedIn (rules : Rules) (inside : Bool) (S : String → Option Symbol) (i : Nat)
    (scope : Scope) (node : Node) (s s' : Analysis) : Prop :=
  ∃ vars, Declares i scope s vars s' ∧ Typed vars ∧
    Accepts rules inside (contextOf S scope.vars) node (contextOf S vars)

theorem finds_statements {walk : Node → Analyzing (Option Symbol)} {nodes : List Node}
    (hwalk : ∀ n ∈ nodes, ∀ s scope, Stands s i scope S →
      Fits rules known inside (contextOf S scope.vars) →
      Finds s (walk n) fun _ s' => AcceptedIn rules inside S i scope n s s')
    (h : Stands s i scope S) (hf : Fits rules known inside (contextOf S scope.vars)) :
    Finds s (nodes.forM fun n => discard (walk n)) fun _ s' =>
      AcceptedIn rules inside S i scope (.compound nodes) s s' := by
  induction nodes generalizing s scope with
  | nil => exact finds_pure ⟨_, .refl h, h.typed, .nil⟩
  | cons n nodes ih =>
    refine (hwalk n (by simp) s scope h hf).discard.bind ?_
    rintro _ s₁ ⟨_, vars, hd, ht, hacc⟩
    refine (ih (fun n hn => hwalk n (by simp [hn])) (hd.stands h ht)
      (hf.next fun _ => hacc.knows)).weaken ?_
    rintro _ s₂ ⟨vars', hd', ht', hacc'⟩
    exact ⟨vars', hd.trans hd', ht', .cons hacc hacc'⟩

/-- An assignment declares its target with the type that is given, or else with the one found,
unless it is known. -/
theorem finds_assign {P : Token → Prop} (h : Stands s i scope S)
    (hf : Fits rules known inside (contextOf S scope.vars)) {type : Option Token}
    (hty : ∀ t ∈ type, t.text ∈ builtinTypes) {value : Node} (hv : value.IsExpression P)
    (target op : Token) :
    Finds s (visitUnder rules (depth + 1) known (.assign type target op value) (some i))
      fun _ s' => AcceptedIn rules inside S i scope (.assign type target op value) s s' := by
  have hinspect : Finds s (rules.inspect (visit depth) known (.assign type target op value)
      (some i)) fun known' _ => known' = known ∧ _ :=
    (finds_checkAssignment h hf hty hv target op).bind fun _ _ hallow => finds_pure ⟨rfl, hallow⟩
  refine (finds_aside hinspect).bind ?_
  rintro _ _ ⟨rfl, _, rfl, hgiven, hfound⟩
  refine (finds_expressionUnder hv h rules depth _).bind ?_
  rintro found _ ⟨rfl, hvisit, hmem, htype⟩
  cases type with
  | some given =>
    refine (finds_declareTyped h (hty given rfl) target op hmem).bind ?_
    rintro _ s' ⟨hname, vars, hd, ht, hctx⟩
    refine finds_pure ⟨vars, hd, ht, ?_⟩
    rw [hctx]
    exact .typed htype hname (hgiven given rfl)
  | none =>
    have hallow := hfound found rfl hvisit
    refine (finds_declareUntyped h target op hmem).bind ?_
    rintro _ s' ⟨vars, hd, ht, ⟨hknown, hctx⟩ | ⟨hnew, hctx⟩⟩
    · refine finds_pure ⟨vars, hd, ht, ?_⟩
      rw [hctx]
      exact .kept htype hknown hallow
    · refine finds_pure ⟨vars, hd, ht, ?_⟩
      rw [hctx]
      exact .fresh htype hallow hnew

/-- An `if` is accepted if its blocks are. The second one is visited with all that the first one has
declared. -/
theorem finds_branch {P : Token → Prop} (h : Stands s i scope S)
    (hf : Fits rules known inside (contextOf S scope.vars)) (keyword : Option Token)
    {condition whenTrue whenFalse : Node} (hc : condition.IsExpression P)
    (hblock : ∀ n ∈ [whenTrue, whenFalse], ∀ s scope known', Stands s i scope S →
      Fits rules known' true (contextOf S scope.vars) →
      Finds s (visitUnder rules depth known' n (some i)) fun _ s' =>
        AcceptedIn rules true S i scope n s s') :
    Finds s (visitUnder rules (depth + 1) known (.branch keyword condition whenTrue whenFalse)
      (some i)) fun _ s' =>
        AcceptedIn rules inside S i scope (.branch keyword condition whenTrue whenFalse) s s' := by
  refine (finds_inspectBranch h hf keyword condition whenTrue whenFalse).next fun known' hf' => ?_
  rw [visitNode_branch]
  refine (finds_expressionUnder hc h rules depth known').bind ?_
  rintro type _ ⟨rfl, -, -, ht⟩
  refine (finds_checkCondition keyword type).next fun _ hbool => ?_
  refine (hblock _ (by simp) _ scope known' h hf').discard.bind ?_
  rintro _ s₁ ⟨_, vars₁, hd₁, ht₁, hacc₁⟩
  refine (hblock _ (by simp) s₁ _ known' (hd₁.stands h ht₁)
    (hf'.next fun _ => hacc₁.knows)).discard.bind ?_
  rintro _ s₂ ⟨_, vars₂, hd₂, ht₂, hacc₂⟩
  exact finds_pure ⟨vars₂, hd₁.trans hd₂, ht₂, .branch ht hbool hacc₁ hacc₂⟩

/-- A statement changes the variables of its scope only, and is accepted. The induction is on the
depth of the walk. -/
theorem finds_statement {node : Node} (hn : node.IsStatement Spelled) (h : Stands s i scope S)
    (hf : Fits rules known inside (contextOf S scope.vars)) :
    Finds s (visitUnder rules depth known node (some i)) fun _ s' =>
      AcceptedIn rules inside S i scope node s s' := by
  induction depth generalizing node s scope known inside with
  | zero => exact finds_throw _
  | succ depth ih =>
    cases hn with
    | expression hn =>
      refine (finds_expressionUnder hn h rules (depth + 1) known).weaken ?_
      rintro type _ ⟨rfl, -, -, ht⟩
      exact ⟨_, .refl h, h.typed, .expression ht⟩
    | compound hs =>
      show Finds s (visitNode (visitUnder rules depth known) (.compound _) (some i)) _
      refine (finds_statements (fun n hn s scope h hf => ih (hs n hn) h hf) h hf).bind ?_
      exact fun _ s' hs' => finds_pure hs'
    | noOp => exact finds_pure ⟨_, .refl h, h.typed, .noOp⟩
    | assign hty _ _ hv =>
      exact finds_assign h hf (fun t ht => (hty t ht).1.type (hty t ht).2) hv _ _
    | branch _ hc htrue hfalse =>
      refine finds_branch h hf _ hc fun n hn s scope known' h hf' => ?_
      simp only [List.mem_cons, List.not_mem_nil, or_false] at hn
      rcases hn with rfl | rfl
      · exact ih htrue h hf'
      · exact ih hfalse h hf'
    | ret hv =>
      refine (finds_expressionUnder hv h rules depth known).weaken ?_
      rintro type _ ⟨rfl, -, -, ht⟩
      exact ⟨_, .refl h, h.typed, .ret ht⟩

end

/-! ## Functions -/

def putAll (vars : Table Symbol) (symbols : List Symbol) : Table Symbol :=
  symbols.foldl (fun vars symbol => vars.insert symbol.name symbol) vars

def OfParameters (symbols : List Symbol) (parameters : List Parameter) : Prop :=
  symbols.length = parameters.length ∧ ∀ vars, Typed vars → Typed (putAll vars symbols) ∧
    ∀ S, contextOf S (putAll vars symbols) =
      parameters.foldl (fun Γ p => Γ.declare p.name.text (some p.type.text)) (contextOf S vars)

theorem OfParameters.cons {symbols : List Symbol} {parameters : List Parameter}
    (h : OfParameters symbols parameters) {p : Parameter} {id : Nat} {type : Symbol}
    (ht : type ∈ typeSymbols) (hname : type.name = p.type.text) :
    OfParameters (.var id p.name.text (some type) :: symbols) (p :: parameters) := by
  refine ⟨by simp [h.1], fun vars hvars => ?_⟩
  obtain ⟨htyped, hctx⟩ := h.2 _ (hvars.insert (mem_typeSymbols_some ht))
  refine ⟨htyped, fun S => (hctx S).trans ?_⟩
  rw [contextOf_insert, Option.map_some, hname]
  rfl

theorem finds_parameterSymbols (h : Stands s i scope S) {parameters : List Parameter}
    (hp : ∀ p ∈ parameters, p.type.text ∈ builtinTypes) (known : List Symbol) :
    Finds s (parameterSymbols (some i) known parameters) fun symbols s' =>
      (s'.arena.slots = s.arena.slots ∧ s'.root = s.root ∧ s'.keep = s.keep) ∧
      ∃ new, symbols = known ++ new ∧ OfParameters new parameters := by
  induction parameters generalizing s known with
  | nil =>
    refine finds_pure ⟨⟨rfl, rfl, rfl⟩, [], by simp, rfl, fun vars hvars => ⟨hvars, fun S => rfl⟩⟩
  | cons p parameters ih =>
    unfold parameterSymbols
    refine Finds.ite (fun _ => finds_blame _ _) fun _ => ?_
    have hsymbol : Finds s (parameterSymbol (some i) p) fun symbol s' =>
        s'.arena.slots = s.arena.slots ∧ s'.root = s.root ∧ s'.keep = s.keep ∧
        ∃ id type, symbol = .var id p.name.text (some type) ∧ type ∈ typeSymbols ∧
          type.name = p.type.text := by
      unfold parameterSymbol
      refine (finds_typeOf h (hp p (by simp))).next ?_
      rintro type ⟨hmem, hname⟩
      refine (finds_changeWith _).weaken ?_
      rintro symbol _ ⟨arena, ⟨⟩, rfl⟩
      exact ⟨rfl, rfl, rfl, _, type, rfl, hmem, hname⟩
    refine hsymbol.bind ?_
    rintro _ s₁ ⟨hslots, hroot, hkeep, id, type, rfl, hmem, hname⟩
    refine (ih (h.of_slots hslots) (fun p hp' => hp p (by simp [hp'])) _).weaken ?_
    rintro symbols s₂ ⟨⟨hslots', hroot', hkeep'⟩, new, rfl, hnew⟩
    refine ⟨⟨hslots'.trans hslots, hroot'.trans hroot, hkeep'.trans hkeep⟩,
      .var id p.name.text (some type) :: new, ?_, hnew.cons hmem hname⟩
    exact List.append_assoc known [_] new

theorem Declares.slot {vars : Table Symbol} (h : Declares i scope s vars s')
    (hs : s.arena.slots[i]? = some (some scope)) :
    s'.arena.slots[i]? = some (some { scope with vars }) := by
  obtain ⟨hlt, -⟩ := Array.getElem?_eq_some_iff.mp hs
  simp [h.slots, hlt]

theorem Declares.slot_ne {vars : Table Symbol} {j : Nat} (h : Declares i scope s vars s')
    (hj : i ≠ j) : s'.arena.slots[j]? = s.arena.slots[j]? := by
  rw [h.slots, Array.getElem?_setIfInBounds_ne hj]

theorem finds_insertVariables (h : s.arena.slots[i]? = some (some scope)) (symbols : List Symbol) :
    Finds s (symbols.forM fun symbol => change (·.update i (·.insertVariable symbol)))
      fun _ s' => Declares i scope s (putAll scope.vars symbols) s' := by
  induction symbols generalizing s scope with
  | nil => exact finds_pure (.refl_of_slot h)
  | cons symbol symbols ih =>
    have hinsert : Finds s (change (·.update i (·.insertVariable symbol))) fun _ s' =>
        Declares i scope s (scope.vars.insert symbol.name symbol) s' := by
      refine (finds_change _).weaken ?_
      rintro _ _ ⟨arena, harena, rfl⟩
      rw [update_of_slot h] at harena
      cases harena
      exact ⟨rfl, rfl, rfl⟩
    refine hinsert.bind fun _ s₁ hd => ?_
    exact (ih (hd.slot h)).weaken fun _ s₂ hd' => hd.trans hd'

/-- The walk stands in the scope of the program. The scopes of functions are not kept. -/
structure IsRoot (s : Analysis) (i : Nat) (scope : Scope) : Prop where
  stands : Stands s i scope fun name => scope.symbols.get? name
  parent : scope.parent = none
  keep : s.keep = false

def rootContext (scope : Scope) : Context :=
  contextOf (fun name => scope.symbols.get? name) scope.vars

theorem finds_noteScope (scope : Option Nat) :
    Finds s (noteScope scope) fun _ s' => ∃ log, s' = { s with log } := by
  unfold noteScope
  cases scope with
  | none => exact (finds_throw _ : Finds s _ fun _ _ => False).bind fun _ _ h => h.elim
  | some i =>
    refine finds_here.next ?_
    rintro _ rfl
    exact (finds_ask _).next fun scope _ => finds_note 1 _

theorem finds_leave (hk : s.keep = false) (h : s.arena.slots[i]? = some (some scope)) :
    Finds s (leave i) fun _ s' => s'.arena.slots = s.arena.slots.setIfInBounds i none ∧
      s'.root = s.root ∧ s'.keep = s.keep := by
  have hclose : Finds s (discard (changeWith (·.close i)) : Analyzing Unit) fun _ s' =>
      s'.arena.slots = s.arena.slots.setIfInBounds i none ∧ s'.root = s.root ∧
        s'.keep = s.keep := by
    refine (finds_changeWith _).discard.weaken ?_
    rintro _ _ ⟨_, arena, harena, rfl⟩
    unfold Arena.close at harena
    rw [Arena.locate_eq h] at harena
    cases harena
    exact ⟨rfl, rfl, rfl⟩
  unfold leave
  intro a s' hs
  simp only [bind, EStateM.bind, get_apply] at hs
  rw [if_neg (by simp [hk])] at hs
  exact hclose a s' hs

theorem rootContext_insert (scope : Scope) (id : Nat) (name : String) (symbols : List Symbol) :
    rootContext (scope.insertSymbol (.function id name symbols)) =
      (rootContext scope).define name symbols.length := by
  refine Context.ext (funext fun x => ?_) rfl
  by_cases hx : x = name
  · simp [rootContext, contextOf, Context.define, Scope.insertSymbol, Symbol.name,
      Table.get?_insert, hx]
  · simp [rootContext, contextOf, Context.define, Scope.insertSymbol, Symbol.name,
      Table.get?_insert, hx]

/-- The name of a function is none of a type: those are known before. -/
theorem IsRoot.insert {id : Nat} {name : String} {symbols : List Symbol} (h : IsRoot s i scope)
    (hnew : scope.symbols.get? name = none)
    (hs : s'.arena.slots[i]? = some (some (scope.insertSymbol (.function id name symbols))))
    (hk : s'.keep = s.keep) : IsRoot s' i (scope.insertSymbol (.function id name symbols)) := by
  refine ⟨⟨.root hs h.parent, fun type ht => ?_, h.stands.typed⟩, h.parent, hk.trans h.keep⟩
  have htype := h.stands.types type ht
  have hne : type.name ≠ name := by
    intro heq
    rw [heq, hnew] at htype
    cases htype
  show (scope.symbols.insert name _).get? type.name = some type
  rw [Table.get?_insert, if_neg hne]
  exact htype

/-- The walk over the body of a function, in a scope of its own. What is around is seen from it. -/
theorem finds_body {body : Node} {rules : Rules} {depth : Nat} (hbody : body.IsStatement Spelled)
    {child : Nat} {level : Int} {name : String} (hroot : IsRoot s i scope) (hne : i ≠ child)
    (hslot : s.arena.slots[child]? = some (some { name, level, parent := some (i : Int) }))
    {symbols : List Symbol} {parameters : List Parameter} (hp : OfParameters symbols parameters) :
    Finds s (do
      symbols.forM fun symbol => change (·.update child (·.insertVariable symbol))
      discard (visitUnder rules depth none body (some child))
      noteScope (some child)) fun _ s' =>
        ∃ vars, Declares child { name, level, parent := some (i : Int) } s vars s' ∧
          ∃ Γ', Accepts rules false ((rootContext scope).enter parameters) body Γ' := by
  refine (finds_insertVariables hslot symbols).bind fun _ s₁ hd => ?_
  obtain ⟨htyped, hctx⟩ := hp.2 {} fun _ _ _ h => by cases h
  have hparent : s₁.arena.slots[i]? = some (some scope) := by
    rw [hd.slot_ne hne.symm]
    exact hroot.stands.sees.slot
  have hstands : Stands s₁ child
      { name, level, parent := some (i : Int), vars := putAll {} symbols }
      fun name => scope.symbols.get? name :=
    ⟨.child (hd.slot hslot) rfl hne hparent hroot.parent, hroot.stands.types, htyped⟩
  refine (finds_statement hbody hstands (.outside rules _)).discard.bind ?_
  rintro _ s₂ ⟨_, vars, hd', -, hacc⟩
  refine (finds_noteScope _).weaken ?_
  rintro _ _ ⟨log, rfl⟩
  rw [show (contextOf _ _ : Context) = (rootContext scope).enter parameters from hctx _] at hacc
  exact ⟨vars, ⟨(hd.trans hd').slots, (hd.trans hd').root, (hd.trans hd').keep⟩, _, hacc⟩

theorem finds_addFunction (hroot : IsRoot s i scope) {name : String} (symbols : List Symbol)
    (hnew : scope.symbols.get? name = none) :
    Finds s (change (·.addSymbol i (.function · name symbols))) fun _ s' =>
      s'.root = s.root ∧ ∃ scope', IsRoot s' i scope' ∧
        rootContext scope' = (rootContext scope).define name symbols.length := by
  refine (finds_change _).weaken ?_
  rintro _ _ ⟨arena, harena, rfl⟩
  have hslot : (s.arena.create (.function · name symbols)).2.slots[i]? = some (some scope) :=
    hroot.stands.sees.slot
  obtain ⟨hlt, -⟩ := Array.getElem?_eq_some_iff.mp hslot
  have hupdate := update_of_slot hslot (·.insertSymbol (.function s.arena.nextId name symbols))
  cases hupdate.symm.trans harena
  refine ⟨rfl, scope.insertSymbol (.function s.arena.nextId name symbols),
    hroot.insert hnew ?_ rfl, rootContext_insert scope _ name symbols⟩
  simp [hlt]

theorem finds_announce (hroot : IsRoot s i scope) (name : Token) {parameters : List Parameter}
    (hp : ∀ p ∈ parameters, p.type.text ∈ builtinTypes) :
    Finds s (announce i name parameters) fun symbols s' =>
      OfParameters symbols parameters ∧ scope.symbols.get? name.text = none ∧ s'.root = s.root ∧
        ∃ scope', IsRoot s' i scope' ∧
          rootContext scope' = (rootContext scope).define name.text symbols.length := by
  have h := hroot.stands
  rw [announce_eq]
  refine (finds_fetch h).next fun table htable => ?_
  subst htable
  refine Finds.ite (fun _ => finds_blame _ _) fun hnew => ?_
  have hnew : table.symbols.get? name.text = none := by simpa [Table.contains] using hnew
  refine (finds_parameterSymbols h hp []).bind ?_
  rintro symbols s₁ ⟨⟨hslots₁, hroot₁, hkeep₁⟩, new, hsymbols, hparameters⟩
  obtain rfl : symbols = new := hsymbols
  have hroot₁' : IsRoot s₁ i table :=
    ⟨h.of_slots hslots₁, hroot.parent, hkeep₁.trans hroot.keep⟩
  refine (finds_addFunction hroot₁' symbols hnew).bind ?_
  rintro _ s₂ ⟨hr₂, scope₂, hroot₂, hctx⟩
  exact finds_pure ⟨hparameters, hnew, hr₂.trans hroot₁, scope₂, hroot₂, hctx⟩

theorem finds_push (hroot : IsRoot s i scope) (name : String) :
    Finds s (changeWith (·.push name (some (i : Int)))) fun child s' =>
      IsRoot s' i scope ∧ s'.root = s.root ∧ i ≠ child ∧ ∃ level,
        s'.arena.slots[child]? = some (some { name, level, parent := some (i : Int) }) := by
  refine (finds_changeWith _).weaken ?_
  rintro child _ ⟨arena, harena, rfl⟩
  have hslot := hroot.stands.sees.slot
  obtain ⟨hlt, -⟩ := Array.getElem?_eq_some_iff.mp hslot
  unfold Arena.push at harena
  simp only [Arena.fetch_eq hslot] at harena
  cases harena
  refine ⟨⟨⟨.root ?_ hroot.parent, hroot.stands.types, hroot.stands.typed⟩, hroot.parent,
    hroot.keep⟩, rfl, Nat.ne_of_lt hlt, _, Arena.getElem?_push _ _⟩
  rw [Array.getElem?_eq_getElem hlt] at hslot
  exact (Array.getElem?_push_lt hlt).trans hslot

/-- A part of a program is accepted, from what its scope knew before it to what it knows after. -/
def AcceptedAtRoot (rules : Rules) (i : Nat) (scope : Scope) (node : Node) (s s' : Analysis) :
    Prop :=
  ∃ scope', IsRoot s' i scope' ∧ s'.root = s.root ∧
    Accepts rules false (rootContext scope) node (rootContext scope')

theorem finds_function {name : Token} {parameters : List Parameter} {body : Node} {rules : Rules}
    {depth : Nat} (hroot : IsRoot s i scope)
    (hp : ∀ p ∈ parameters, p.type.text ∈ builtinTypes) (hbody : body.IsStatement Spelled) :
    Finds s (declareFunction (some i) name parameters (visitUnder rules depth none body))
      fun _ s' => AcceptedAtRoot rules i scope (.function name parameters body) s s' := by
  rw [declareFunction_eq]
  refine (finds_announce hroot name hp).bind ?_
  rintro symbols s₂ ⟨hparameters, hnew, hr₂, scope₂, hroot₂, hctx⟩
  refine (finds_note 2 _).bind ?_
  rintro _ _ ⟨log, rfl⟩
  have hroot₂ : IsRoot { s₂ with log } i scope₂ :=
    ⟨hroot₂.stands.of_slots rfl, hroot₂.parent, hroot₂.keep⟩
  refine (finds_push hroot₂ name.text).bind ?_
  rintro child s₃ ⟨hroot₃, hr₃, hne, level, hslot⟩
  intro a s₅ hs
  obtain ⟨s₄, hbody', hleave⟩ := ensuring_eq_ok hs
  obtain ⟨vars, hd, Γ', hacc⟩ := finds_body hbody hroot₃ hne hslot hparameters a s₄ hbody'
  obtain ⟨hclosed, hr₅, hk₅⟩ := finds_leave (hd.keep.trans hroot₃.keep) (hd.slot hslot) _ _ hleave
  have hslot₅ : s₅.arena.slots[i]? = some (some scope₂) := by
    rw [hclosed, Array.getElem?_setIfInBounds_ne hne.symm, hd.slot_ne hne.symm]
    exact hroot₃.stands.sees.slot
  refine ⟨scope₂, ⟨⟨.root hslot₅ hroot₃.parent, hroot₃.stands.types, hroot₃.stands.typed⟩,
    hroot₃.parent, hk₅.trans (hd.keep.trans hroot₃.keep)⟩, ?_, ?_⟩
  · rw [hr₅, hd.root, hr₃]
    exact hr₂
  · rw [hctx, hparameters.1] at hacc ⊢
    refine .function ?_ hacc
    simp [rootContext, contextOf, hnew]

/-! ## Programs -/

theorem finds_part {n : Node} {rules : Rules} {depth : Nat} (hroot : IsRoot s i scope)
    (hn : n.IsPart Spelled) :
    Finds s (visitUnder rules depth none n (some i)) fun _ s' =>
      AcceptedAtRoot rules i scope n s s' := by
  cases hn with
  | statements hn =>
    refine (finds_statement hn hroot.stands (.outside rules _)).weaken ?_
    rintro _ s' ⟨vars, hd, ht, hacc⟩
    exact ⟨{ scope with vars }, ⟨hd.stands hroot.stands ht, hroot.parent,
      hd.keep.trans hroot.keep⟩, hd.root, hacc⟩
  | function _ hp hbody =>
    cases depth with
    | zero => exact finds_throw _
    | succ depth =>
      have hp := fun p h => (hp p h).1.type (hp p h).2.1
      refine (finds_function hroot hp hbody).bind ?_
      exact fun _ s' hs' => finds_pure hs'

theorem finds_parts {parts : List Node} {rules : Rules} {depth : Nat} (hroot : IsRoot s i scope)
    (hparts : ∀ n ∈ parts, n.IsPart Spelled) :
    Finds s (parts.forM fun n => discard (visitUnder rules depth none n (some i))) fun _ s' =>
      AcceptedAtRoot rules i scope (.compound parts) s s' := by
  induction parts generalizing s scope with
  | nil => exact finds_pure ⟨scope, hroot, rfl, .nil⟩
  | cons n parts ih =>
    refine (finds_part hroot (hparts n (by simp))).discard.bind ?_
    rintro _ s₁ ⟨_, scope₁, hroot₁, hr₁, hacc⟩
    refine (ih hroot₁ fun n hn => hparts n (by simp [hn])).weaken ?_
    rintro _ s₂ ⟨scope₂, hroot₂, hr₂, hacc'⟩
    exact ⟨scope₂, hroot₂, hr₂.trans hr₁, .cons hacc hacc'⟩

theorem finds_block {parts : List Node} {rules : Rules} {depth : Nat} (hroot : IsRoot s i scope)
    (hparts : ∀ n ∈ parts, n.IsPart Spelled) :
    Finds s (visitUnder rules depth none (.compound parts) (some i)) fun _ s' =>
      AcceptedAtRoot rules i scope (.compound parts) s s' := by
  cases depth with
  | zero => exact finds_throw _
  | succ depth => exact (finds_parts hroot hparts).bind fun _ s' hs' => finds_pure hs'

def rootScope (name : String) : Scope :=
  { name, level := 0, parent := none, symbols := ⟨typeSymbols.map fun type => (type.name, type)⟩ }

theorem rootContext_rootScope (name : String) : rootContext (rootScope name) = .empty := by
  refine Context.ext (funext fun x => ?_) rfl
  have hlookup : (rootScope name).symbols.get? x =
      if x = intType then some (.builtin 0 intType) else
      if x = floatType then some (.builtin 1 floatType) else
      if x = boolType then some (.builtin 2 boolType) else none := by
    simp only [rootScope, typeSymbols, Table.get?, List.map_cons, List.map_nil,
      List.lookup_cons, List.lookup_nil, Symbol.name]
    grind
  simp only [rootContext, contextOf, hlookup, Context.empty]
  grind

theorem isRoot_rootScope (name : String) (h : s.arena.slots[i]? = some (some (rootScope name)))
    (hk : s.keep = false) : IsRoot s i (rootScope name) := by
  refine ⟨⟨.root h rfl, fun type ht => ?_, fun _ _ _ h => by cases h⟩, rfl, hk⟩
  simp only [typeSymbols, List.mem_cons, List.not_mem_nil, or_false] at ht
  rcases ht with rfl | rfl | rfl <;> rfl

theorem finds_addBuiltins (name : String) (log : Log) :
    Finds { arena := { slots := #[some { name, level := 0, parent := none }] }, root := some 0, log }
      (change (·.addBuiltins (0 : Nat))) fun _ s' =>
        s'.root = some 0 ∧ IsRoot s' 0 (rootScope name) := by
  refine (finds_change _).weaken ?_
  rintro _ _ ⟨arena, harena, rfl⟩
  cases harena
  exact ⟨rfl, isRoot_rootScope name rfl rfl⟩

theorem finds_pushRoot (name : String) (log : Log) :
    Finds { log } (changeWith (·.push name none)) fun root s' => root = 0 ∧
      s' = { arena := { slots := #[some { name, level := 0, parent := none }] }, log } := by
  refine (finds_changeWith _).weaken ?_
  rintro root _ ⟨arena, ⟨⟩, rfl⟩
  exact ⟨rfl, rfl⟩

/-- Before its first part, the scope of a program has the types that every program knows. -/
theorem finds_programOpened (name : String) (log : Log) :
    Finds { log } (Visit.programOpened name) fun root s' =>
      root = 0 ∧ s'.root = some 0 ∧ IsRoot s' 0 (rootScope name) := by
  refine (finds_pushRoot name log).bind ?_
  rintro _ _ ⟨rfl, rfl⟩
  refine (finds_modify _).bind ?_
  rintro _ _ rfl
  refine (finds_addBuiltins name log).bind ?_
  rintro _ s₁ ⟨hr, hroot⟩
  exact finds_pure ⟨rfl, hr, hroot⟩

/-- What the walk over a program accepts is accepted from the start on, and the scope of the program
knows what is known at the end. -/
theorem finds_program {name : String} {parts : List Node} {rules : Rules} {depth : Nat} {log : Log}
    (hparts : ∀ n ∈ parts, n.IsPart Spelled) :
    Finds { log } (visitUnder rules depth none (.program name (.compound parts)) none) fun _ s' =>
      ∃ scope, s'.scope = .ok (some scope) ∧
        Accepts rules false .empty (.compound parts) (rootContext scope) := by
  cases depth with
  | zero => exact finds_throw _
  | succ depth =>
    show Finds { log } (visitNode (visitUnder rules depth none) (.program _ _) none) _
    rw [Visit.visitNode_program]
    refine (finds_programOpened name log).bind ?_
    rintro _ s₁ ⟨rfl, hr₁, hroot₁⟩
    refine (finds_block hroot₁ hparts).discard.bind ?_
    rintro _ s₂ ⟨_, scope₂, hroot₂, hr₂, hacc⟩
    refine (finds_get).next ?_
    rintro _ rfl
    refine (finds_noteScope _).bind ?_
    rintro _ _ ⟨log', rfl⟩
    rw [rootContext_rootScope] at hacc
    refine finds_pure ⟨scope₂, ?_, hacc⟩
    unfold Analysis.scope
    simp only [hr₂, hr₁, hroot₂.keep, Bool.false_and, Bool.false_eq_true, if_false,
      hroot₂.stands.sees.fetch]
    rfl

end Analyzing

end LittleLang
