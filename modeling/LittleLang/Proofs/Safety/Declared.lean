import LittleLang.Parse
import LittleLang.Proofs.Analysis.Accepted
import LittleLang.Proofs.Analysis.Moments
import LittleLang.Proofs.Run.Scoped
import LittleLang.Proofs.Shape

/-!
# Only what was declared is stored

A run makes no variable that the analysis has not declared. Whatever the analysis accepts, it has
put the target of every assignment into the scope that the assignment stands in
(`Accepts.knows_target`), also where the run will not get to it. So the scope of the program has, at
the end of the analysis, all variables that the record of the program will ever have, and the scope
of a function has, when it is left, all variables of the records of its calls
(`interpretWithin_declared`). -/

namespace LittleLang

open Analyzing (Rules Visit)

/-! ## Targets are known -/

theorem Context.knows_enter_of_mem {Γ : Context} {parameters : List Parameter} {p : Parameter}
    (hp : p ∈ parameters) : (Γ.enter parameters).Knows p.name.text := by
  have hfold (Γ : Context) (h : Γ.Knows p.name.text ∨ p ∈ parameters) :
      (parameters.foldl (fun Γ p => Γ.declare p.name.text (some p.type.text)) Γ).Knows
        p.name.text := by
    clear hp
    induction parameters generalizing Γ with
    | nil => exact h.resolve_right fun h => by cases h
    | cons q parameters ih =>
      refine ih _ ?_
      rcases h with h | h
      · exact .inl (Context.knows_declare.mpr (.inr h))
      · rcases List.mem_cons.mp h with rfl | h
        · exact .inl (Context.knows_declare.mpr (.inl rfl))
        · exact .inr h
  exact hfold _ (.inr hp)

theorem Accepts.knows_target {rules : Rules} {inside : Bool} {Γ Γ' : Context} {n : Node}
    (h : Accepts rules inside Γ n Γ') {x : String} (hx : x ∈ n.targets) : Γ'.Knows x := by
  induction h with
  | nil => cases hx
  | cons _ hrest ih ih' =>
    rcases List.mem_append.mp hx with hx | hx
    · exact hrest.knows (ih hx)
    · exact ih' hx
  | noOp => cases hx
  | typed =>
    obtain rfl := List.mem_singleton.mp hx
    exact Context.knows_declare.mpr (.inl rfl)
  | kept _ hknown =>
    obtain rfl := List.mem_singleton.mp hx
    exact hknown
  | fresh =>
    obtain rfl := List.mem_singleton.mp hx
    exact Context.knows_declare.mpr (.inl rfl)
  | branch _ _ _ hfalse ih ih' =>
    rcases List.mem_append.mp hx with hx | hx
    · exact hfalse.knows (ih hx)
    · exact ih' hx
  | ret => cases hx
  | expression h => cases h <;> cases hx
  | function => cases hx

namespace Analyzing

/-! ## Scopes at the start of a body -/

variable {s : Analysis} {i : Nat} {scope : Scope}

/-- In the scope of a function its parameters are variables, and what is around is seen from it. -/
theorem finds_functionOpened (hroot : IsRoot s i scope) (name : Token) {parameters : List Parameter}
    (hp : ∀ p ∈ parameters, p.type.text ∈ builtinTypes) :
    Finds s (Visit.functionOpened (some i) name parameters) fun child s' =>
      ∃ inner S, Stands s' child inner S ∧
        ∀ p ∈ parameters, (contextOf S inner.vars).Knows p.name.text := by
  unfold Visit.functionOpened
  refine finds_here.next ?_
  rintro _ rfl
  refine (finds_announce hroot name hp).bind ?_
  rintro symbols s₂ ⟨hparameters, -, -, scope₂, hroot₂, -⟩
  refine (finds_note 2 _).bind ?_
  rintro _ _ ⟨log, rfl⟩
  have hroot₂ : IsRoot { s₂ with log } i scope₂ :=
    ⟨hroot₂.stands.of_slots rfl, hroot₂.parent, hroot₂.keep⟩
  refine (finds_push hroot₂ name.text).bind ?_
  rintro child s₃ ⟨hroot₃, hr₃, hne, level, hslot⟩
  refine (finds_insertVariables hslot symbols).bind fun _ s₄ hd => finds_pure ?_
  obtain ⟨htyped, hctx'⟩ := hparameters.2 {} fun _ _ _ h => by cases h
  have hparent : s₄.arena.slots[i]? = some (some scope₂) := by
    rw [hd.slot_ne hne.symm]
    exact hroot₃.stands.sees.slot
  refine ⟨_, _, ⟨.child (hd.slot hslot) rfl hne hparent hroot₃.parent, hroot₃.stands.types,
    htyped⟩, fun p hp => ?_⟩
  show (contextOf _ (putAll {} symbols)).Knows p.name.text
  rw [hctx']
  exact Context.knows_enter_of_mem (Γ := contextOf _ {}) hp

end Analyzing

/-! ## Scopes that are left -/

/-- The analysis, from its first visit on, visits a function of the name and in turn its body, at
the end of which the scope of the function is this one. That is the scope as it is left. -/
def LeavesScope (start : Visit) (name : String) (scope : Scope) : Prop :=
  ∃ (declaration body : Visit) (token : Token) (parameters : List Parameter) (child : Nat)
    (type : Option Symbol) (s : Analysis), start.Reaches declaration ∧
      declaration.node = .function token parameters body.node ∧ token.text = name ∧
      declaration.Makes body ∧ body.scope = some child ∧ body.outcome = .ok type s ∧
      s.arena.fetch child = .ok scope

open Analyzing in
/-- A function that is accepted in a program leaves a scope with all that its calls may store. -/
theorem exists_leavesScope {programName : String} {parts : List Node} {log : Log} {depth : Nat}
    {type : Option Symbol} {state : Analysis}
    (hvisit : visit depth (.program programName (.compound parts)) none { log } = .ok type state)
    (hparts : ∀ n ∈ parts, n.IsPart Spelled) {name : Token} {parameters : List Parameter}
    {body : Node} (hmem : .function name parameters body ∈ parts) :
    ∃ scope, LeavesScope ⟨depth, .program programName (.compound parts), none, { log }⟩ name.text
        scope ∧
      (∀ p ∈ parameters, scope.vars.contains p.name.text = true) ∧
      ∀ x ∈ body.targets, scope.vars.contains x = true := by
  have hdeep {node : Node} {i : Option Nat} {s s' : Analysis} {type : Option Symbol} {d : Nat}
      (h : visit d node i s = .ok type s') : ∃ d', d = d' + 1 := by
    cases d with
    | zero => cases h
    | succ d' => exact ⟨d', rfl⟩
  -- down to the function: the block of the program, the part of it, the body in its own scope
  obtain ⟨d, rfl⟩ := hdeep hvisit
  obtain ⟨root, s₁, _, _, hopen, hblock, hmakes⟩ := Visit.makes_block hvisit
  obtain ⟨rfl, -, hroot⟩ := finds_programOpened programName log _ _ hopen
  obtain ⟨d, rfl⟩ := hdeep hblock
  obtain ⟨before, after, rfl⟩ := List.append_of_mem hmem
  obtain ⟨s₂, _, _, hbefore, hfunction, hmakes'⟩ := Visit.makes_child hblock
  obtain ⟨d, rfl⟩ := hdeep hfunction
  have hbefore' : before.forM (fun n => discard (visitUnder {} (d + 1) none n (some 0))) s₁ =
      .ok () s₂ := by
    simpa only [visitUnder_free] using hbefore
  obtain ⟨scope₂, hroot₂, -, -⟩ :=
    finds_parts hroot (fun n hn => hparts n (List.mem_append_left _ hn)) _ _ hbefore'
  obtain ⟨child, s₃, type', s₄, hopened, hbody, hmakes''⟩ := Visit.makes_body hfunction
  have hpart := hparts _ hmem
  obtain ⟨hp, hstatement⟩ : (∀ p ∈ parameters, p.type.text ∈ builtinTypes) ∧
      body.IsStatement Spelled := by
    cases hpart with
    | function _ hp hbody => exact ⟨fun p h => (hp p h).1.type (hp p h).2.1, hbody⟩
    | statements hn => exact absurd rfl hn.ne_function
  obtain ⟨inner, S, hstands, hknows⟩ := finds_functionOpened hroot₂ name hp _ _ hopened
  rw [← visitUnder_free d none] at hbody
  obtain ⟨vars, hd, -, hacc⟩ := finds_statement hstatement hstands (.outside {} _) _ _ hbody
  rw [visitUnder_free] at hbody
  refine ⟨{ inner with vars }, ?_, fun p hp => ?_, fun x hx => ?_⟩
  · exact ⟨_, _, name, parameters, child, type', s₄,
      Relation.ReflTransGen.single hmakes |>.tail hmakes', rfl, rfl, hmakes'', rfl, hbody,
      Arena.fetch_eq (hd.slot hstands.sees.slot)⟩
  · exact knows_contextOf.mp (hacc.knows (hknows p hp))
  · exact knows_contextOf.mp (hacc.knows_target hx)

/-! ## Runs -/

/-- The scopes for the records of a program: its own, and those that its functions left. -/
def scopingOf (start : Visit) (scope : Scope) : Scoping
  | .program, _, scope' => scope' = scope
  | .function, name, scope' => LeavesScope start name scope'

theorem fits_of_visit {name : String} {parts : List Node} {log : Log} {depth : Nat}
    {type : Option Symbol} {state : Analysis}
    (hvisit : Analyzing.visit depth (.program name (.compound parts)) none { log } = .ok type state)
    (hparts : ∀ n ∈ parts, n.IsPart Spelled) :
    ∃ scope, state.scope = .ok (some scope) ∧
      Node.Fits (scopingOf ⟨depth, .program name (.compound parts), none, { log }⟩ scope) scope
        parts := by
  have hunder := hvisit
  rw [← Analyzing.visitUnder_free depth none] at hunder
  obtain ⟨scope, hscope, hacc⟩ := Analyzing.finds_program hparts _ _ hunder
  refine ⟨scope, hscope, fun x hx => knows_contextOf.mp (hacc.knows_target hx),
    fun f parameters body hmem => ?_⟩
  obtain ⟨scope', hleft, hparameters, htargets⟩ := exists_leavesScope hvisit hparts hmem
  refine ⟨scope', hleft, hparameters, htargets, ?_⟩
  cases hparts _ hmem with
  | function _ _ hbody => exact hbody.imp fun _ _ => trivial
  | statements hn => exact absurd rfl hn.ne_function

theorem Machine.mem_names_of_lookup {m : Machine} {x : String} {v : Value} (h : m.lookup x = .ok v) :
    ∃ record, m.lastProgram = some record ∧ x ∈ record.members.names := by
  unfold Machine.lookup at h
  cases hr : m.lastProgram with
  | none =>
    rw [hr] at h
    cases h
  | some record =>
    refine ⟨record, rfl, (Table.mem_names _ _).mpr ?_⟩
    unfold Table.contains
    cases hv : record.members.get? x with
    | some v => rfl
    | none =>
      rw [hr, Option.bind_some, hv] at h
      cases h

open Running in
/-- A text is parsed and accepted by the analysis. Before and after each call of the run, whichever
way it ends, the scope of the program has all variables of the record of the program, and for the
record of a call there is a scope with all its variables, which the analysis had for that function
when it left it. After the run, the scope of the program has all variables that can be looked up. -/
theorem interpretWithin_declared {text : String} {tree : Node} {log : Log} {depth depth' : Nat}
    {state : Analysis} (hparse : parseWithin .byOffset depth text = .ok tree)
    (haccept : (Analysis.start log).analyzeWithin depth' tree false = (.ok (), state))
    {m : Machine} (hm : m.stack = []) {depth'' : Nat} (hdepth : 0 < depth'') :
    ∃ scope, state.scope = .ok (some scope) ∧
      (∀ monitor : Monitor,
        monitor.PassesBounded (scopingOf ⟨depth', tree, none, { log }⟩ scope) →
        { m with functions := {} }.perform (executeUnder monitor depth'' tree) =
          m.interpretWithin depth'' tree) ∧
      (∀ record, (m.interpretWithin depth'' tree).2.lastProgram = some record →
        ∀ x ∈ record.members.names, scope.vars.contains x = true) ∧
      ∀ x v, (m.interpretWithin depth'' tree).2.lookup x = .ok v →
        scope.vars.contains x = true := by
  obtain ⟨parts, rfl, hparts⟩ := parts_of_parseWithin hparse
  obtain ⟨type, hvisit⟩ := Analyzing.visit_of_analyzeWithin haccept
  obtain ⟨scope, hscope, hfits⟩ := fits_of_visit hvisit hparts
  have hany : ∀ n ∈ parts, n.IsPart fun _ => True :=
    fun n hn => (hparts n hn).imp fun _ _ => trivial
  have hmain : scopingOf ⟨depth', .program "main" (.compound parts), none, { log }⟩ scope .program
      "main" scope := rfl
  obtain ⟨d, rfl⟩ := Nat.exists_eq_succ_of_ne_zero (Nat.ne_of_gt hdepth)
  have hstart : ({ m with functions := {} } : Machine).stack = [] := hm
  have hlast (record : Record)
      (hr : (m.interpretWithin (d + 1) (.program "main" (.compound parts))).2.lastProgram =
        some record) : ∀ x ∈ record.members.names, scope.vars.contains x = true := by
    have hpass (scoping : Scoping) : Monitor.PassesBounded scoping fun _ r => r :=
      fun _ _ _ _ => rfl
    have hbounded := (bounded_program (hpass _) hany hfits hmain hstart rfl d).2
    rw [Machine.interpretWithin, snd_perform] at hr
    obtain ⟨hkind, scope', hin⟩ := hbounded record hr
    have hscope' := hin.known
    rw [hkind] at hscope'
    obtain rfl : scope' = scope := hscope'
    exact hin.vars
  refine ⟨scope, hscope, fun monitor hpass => ?_, hlast, fun x v hx => ?_⟩
  · unfold Machine.interpretWithin Machine.perform
    rw [(bounded_program hpass hany hfits hmain hstart rfl d).1]
  · obtain ⟨record, hr, hmem⟩ := Machine.mem_names_of_lookup hx
    exact hlast record hr x hmem

open Running in
/-- A program with a function of two variables, of which one is assigned in a branch. -/
theorem interpretWithin_declared_branch :
    ∃ tree state scope, parseWithin .byOffset 60 ("func f(int a) \x7b if a < 1 \x7b b := a; \x7d " ++
        "return a; \x7d x := f(0);") = .ok tree ∧
      (Analysis.start { level := 0 }).analyzeWithin 60 tree false = (.ok (), state) ∧
      (Machine.start { level := 0 }).stack = [] ∧ 0 < 60 ∧ state.scope = .ok (some scope) ∧
      (∃ v, ((Machine.start { level := 0 }).interpretWithin 60 tree).2.lookup "x" = .ok v) ∧
      scope.vars.contains "x" = true ∧
      ∀ monitor : Monitor,
        monitor.PassesBounded (scopingOf ⟨60, tree, none, { log := { level := 0 } }⟩ scope) →
        { Machine.start { level := 0 } with functions := {} }.perform
            (executeUnder monitor 60 tree) =
          (Machine.start { level := 0 }).interpretWithin 60 tree := by
  have hcheck : parsesTo 60 ("func f(int a) \x7b if a < 1 \x7b b := a; \x7d return a; \x7d " ++
      "x := f(0);") (fun tree =>
        ((Analysis.start { level := 0 }).analyzeWithin 60 tree false).1.toBool &&
          (((Machine.start { level := 0 }).interpretWithin 60 tree).2.lookup "x").toBool) = true := by
    decide +kernel
  obtain ⟨tree, hparse, hcheck⟩ := exists_of_parsesTo hcheck
  obtain ⟨haccept, hlookup⟩ := (Bool.and_eq_true _ _).mp hcheck
  obtain ⟨state, haccept⟩ : ∃ state,
      (Analysis.start { level := 0 }).analyzeWithin 60 tree false = (.ok (), state) := by
    cases hr : (Analysis.start { level := 0 }).analyzeWithin 60 tree false with
    | mk result state =>
      rw [hr] at haccept
      cases result with
      | ok _ => exact ⟨state, rfl⟩
      | error e => cases haccept
  obtain ⟨v, hv⟩ : ∃ v,
      ((Machine.start { level := 0 }).interpretWithin 60 tree).2.lookup "x" = .ok v := by
    cases hv : ((Machine.start { level := 0 }).interpretWithin 60 tree).2.lookup "x" with
    | ok v => exact ⟨v, rfl⟩
    | error e =>
      rw [hv] at hlookup
      cases hlookup
  have hnil : (Machine.start { level := 0 }).stack = [] := rfl
  obtain ⟨scope, hscope, hmonitor, -, hknown⟩ :=
    interpretWithin_declared hparse haccept hnil (by decide : 0 < 60)
  exact ⟨tree, state, scope, hparse, haccept, hnil, by decide, hscope, ⟨v, hv⟩, hknown _ v hv,
    hmonitor⟩

end LittleLang
