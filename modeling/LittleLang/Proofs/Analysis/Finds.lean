import LittleLang.Proofs.Analysis.Objections
import LittleLang.Proofs.Analysis.Typing

/-!
# The types that an analysis finds

What a step of an analysis gives and leaves, where it succeeds (`Finds`). A walk stands in the scope
of the program or of a function in it, so a symbol is looked up in at most two scopes
(`Arena.Sees`). The types of variables are always the symbols of the three types that every program
knows (`typeSymbols`), so that types are the same if their names are. The walk over an expression
changes nothing, and the type it finds is one by `HasType` (`finds_expression`). -/

namespace LittleLang

/-! ## What is seen from a scope -/

def typeSymbols : List Symbol :=
  [.builtin 0 intType, .builtin 1 floatType, .builtin 2 boolType]

theorem eq_of_same {l r : Symbol} (hl : l ∈ typeSymbols) (hr : r ∈ typeSymbols)
    (h : l.same r = true) : l = r := by
  simp only [typeSymbols, List.mem_cons, List.not_mem_nil, or_false] at hl hr
  rcases hl with rfl | rfl | rfl <;> rcases hr with rfl | rfl | rfl <;>
    first | rfl | simp [Symbol.same, Symbol.id] at h

theorem exists_typeSymbol {name : String} (h : name ∈ builtinTypes) :
    ∃ type ∈ typeSymbols, type.name = name := by
  simp only [builtinTypes, List.mem_cons, List.not_mem_nil, or_false] at h
  rcases h with rfl | rfl | rfl
  · exact ⟨.builtin 0 intType, by simp [typeSymbols], rfl⟩
  · exact ⟨.builtin 1 floatType, by simp [typeSymbols], rfl⟩
  · exact ⟨.builtin 2 boolType, by simp [typeSymbols], rfl⟩

namespace Arena

/-- From the scope at an index, the symbols `S` are seen: its own, and those of the program around
it. -/
inductive Sees (a : Arena) (i : Nat) : Scope → (String → Option Symbol) → Prop where
  | root {scope : Scope} : a.slots[i]? = some (some scope) → scope.parent = none →
      Sees a i scope fun name => scope.symbols.get? name
  | child {p : Nat} {scope parent : Scope} : a.slots[i]? = some (some scope) →
      scope.parent = some (p : Int) → p ≠ i → a.slots[p]? = some (some parent) →
      parent.parent = none →
      Sees a i scope fun name => (scope.symbols.get? name).or (parent.symbols.get? name)

variable {a a' : Arena} {i : Nat} {scope : Scope} {S : String → Option Symbol}

theorem Sees.slot (h : a.Sees i scope S) : a.slots[i]? = some (some scope) := by
  cases h with
  | root h => exact h
  | child h => exact h

theorem Sees.fetch (h : a.Sees i scope S) : a.fetch i = .ok scope :=
  fetch_eq h.slot

theorem lookupFrom_root {name : String} {rounds : Nat} (h : scope.parent = none) :
    a.lookupFrom name (rounds + 1) scope = .ok (scope.symbols.get? name) := by
  unfold lookupFrom parentScope
  rw [h]
  cases scope.symbols.get? name <;> rfl

theorem Sees.lookup (h : a.Sees i scope S) (name : String) : a.lookup i name = .ok (S name) := by
  unfold Arena.lookup
  rw [h.fetch]
  cases h with
  | root _ hp => exact lookupFrom_root hp
  | @child p _ parent hs hp _ hps hpp =>
    have hsize : a.slots.size ≠ 0 := by
      intro hz
      rw [Array.getElem?_eq_none (by omega)] at hs
      cases hs
    obtain ⟨rounds, hrounds⟩ := Nat.exists_eq_succ_of_ne_zero hsize
    rw [hrounds]
    show a.lookupFrom name (rounds + 1 + 1) scope = .ok ((scope.symbols.get? name).or _)
    unfold lookupFrom
    cases scope.symbols.get? name with
    | some symbol => rfl
    | none =>
      have hparent : a.parentScope scope = .ok (some parent) := by
        unfold parentScope
        rw [hp]
        simp only [fetch_eq hps]
        rfl
      rw [hparent]
      exact lookupFrom_root hpp

theorem Sees.setVars (h : a.Sees i scope S) {vars : Table Symbol}
    (hs : a'.slots = a.slots.setIfInBounds i (some { scope with vars })) :
    a'.Sees i { scope with vars } S := by
  obtain ⟨hlt, -⟩ := Array.getElem?_eq_some_iff.mp h.slot
  have hslot : a'.slots[i]? = some (some { scope with vars }) := by simp [hs, hlt]
  cases h with
  | root _ hp => exact .root hslot hp
  | child _ hp hne hps hpp =>
    refine .child hslot hp hne ?_ hpp
    rw [hs, Array.getElem?_setIfInBounds_ne (fun h => hne h.symm)]
    exact hps

end Arena

/-- What is known with these symbols and variables. -/
def contextOf (S : String → Option Symbol) (vars : Table Symbol) : Context where
  functions name := match S name with
    | some (.function _ _ parameters) => some parameters.length
    | _ => none
  vars name := (vars.get? name).map fun symbol => symbol.type?.map Symbol.name

theorem contextOf_insert (S : String → Option Symbol) (vars : Table Symbol) (id : Nat)
    (name : String) (type : Option Symbol) :
    contextOf S (vars.insert name (.var id name type)) =
      (contextOf S vars).declare name (type.map Symbol.name) := by
  ext x
  · rfl
  · simp only [contextOf, Context.declare, Table.get?_insert]
    split <;> rfl

theorem knows_contextOf {S : String → Option Symbol} {vars : Table Symbol} {name : String} :
    (contextOf S vars).Knows name ↔ vars.contains name = true := by
  simp [Context.Knows, contextOf, Table.contains]

/-- The variables have types that every program knows, as far as that is known. -/
def Typed (vars : Table Symbol) : Prop :=
  ∀ name symbol type, vars.get? name = some symbol → symbol.type? = some type →
    type ∈ typeSymbols

theorem Typed.insert {vars : Table Symbol} (h : Typed vars) {name : String} {id : Nat}
    {type : Option Symbol} (ht : ∀ t ∈ type, t ∈ typeSymbols) :
    Typed (vars.insert name (.var id name type)) := by
  intro x symbol t hx hsymbol
  rw [Table.get?_insert] at hx
  split at hx
  · cases hx
    exact ht t hsymbol
  · exact h x symbol t hx hsymbol

/-- A walk stands in a scope from which these symbols are seen. -/
structure Stands (s : Analysis) (i : Nat) (scope : Scope) (S : String → Option Symbol) : Prop where
  sees : s.arena.Sees i scope S
  types : ∀ type ∈ typeSymbols, S type.name = some type
  typed : Typed scope.vars

theorem Stands.of_slots {s s' : Analysis} {i : Nat} {scope : Scope} {S : String → Option Symbol}
    (h : Stands s i scope S) (hs : s'.arena.slots = s.arena.slots) : Stands s' i scope S := by
  refine ⟨?_, h.types, h.typed⟩
  cases h.sees with
  | root hslot hp => exact .root (hs ▸ hslot) hp
  | child hslot hp hne hps hpp => exact .child (hs ▸ hslot) hp hne (hs ▸ hps) hpp

namespace Analyzing

variable {α β : Type} {s s' : Analysis} {i : Nat} {scope : Scope} {S : String → Option Symbol}

/-! ## Steps that succeed -/

/-- What a step gives and leaves, if it succeeds. -/
def Finds (s : Analysis) (step : Analyzing α) (post : α → Analysis → Prop) : Prop :=
  ∀ a s', step s = .ok a s' → post a s'

section

variable {step : Analyzing α} {post mid : α → Analysis → Prop}

theorem finds_pure {a : α} (h : post a s) : Finds s (pure a) post := by
  rintro _ _ ⟨⟩
  exact h

theorem finds_throw (e : Failure) : Finds s (throw e) post := nofun

theorem finds_blame (token : Token) (cause : SemanticCause) : Finds s (blame token cause) post :=
  finds_throw _

theorem finds_blameKeyword (keyword : Option Token) (cause : SemanticCause) :
    Finds s (blameKeyword keyword cause) post := by
  cases keyword <;> exact finds_throw _

theorem Finds.weaken (h : Finds s step mid) (hp : ∀ a s', mid a s' → post a s') :
    Finds s step post :=
  fun a s' hs => hp a s' (h a s' hs)

theorem Finds.bind {f : α → Analyzing β} {post : β → Analysis → Prop} (h : Finds s step mid)
    (hf : ∀ a s', mid a s' → Finds s' (f a) post) : Finds s (step >>= f) post := by
  intro b s'' hb
  obtain ⟨a, s', hs, hb⟩ := bind_eq_ok hb
  exact hf a s' (h a s' hs) b s'' hb

theorem Finds.next {f : α → Analyzing β} {P : α → Prop} {post : β → Analysis → Prop}
    (h : Finds s step fun a s' => s' = s ∧ P a) (hf : ∀ a, P a → Finds s (f a) post) :
    Finds s (step >>= f) post :=
  h.bind fun a _ ⟨hs, ha⟩ => hs ▸ hf a ha

theorem Finds.ite {c : Prop} [Decidable c] {step' : Analyzing α} (h : c → Finds s step post)
    (h' : ¬c → Finds s step' post) : Finds s (if c then step else step') post := by
  split
  · exact h ‹c›
  · exact h' ‹¬c›

theorem finds_refuse {f : α → Analyzing β} {post : β → Analysis → Prop} (token : Token)
    (cause : SemanticCause) : Finds s (blame token cause >>= f) post :=
  (finds_blame token cause : Finds s _ fun _ _ => False).bind fun _ _ h => h.elim

theorem Finds.discard (h : Finds s step post) :
    Finds s (discard step : Analyzing Unit) fun _ s' => ∃ a, post a s' :=
  h.bind fun a _ ha => finds_pure ⟨a, ha⟩

end

theorem finds_ask (query : Arena → Except Failure α) :
    Finds s (ask query) fun a s' => s' = s ∧ query s.arena = .ok a := by
  intro a s' h
  unfold ask at h
  simp only [bind, EStateM.bind, get_apply] at h
  cases hq : query s.arena with
  | error e =>
    rw [hq] at h
    cases h
  | ok b =>
    rw [hq] at h
    cases h
    exact ⟨rfl, rfl⟩

theorem finds_change (step : Arena → Except Failure Arena) :
    Finds s (change step) fun _ s' => ∃ arena, step s.arena = .ok arena ∧ s' = { s with arena } :=
  (finds_ask step).next fun arena harena => by
    rintro _ _ ⟨⟩
    exact ⟨arena, harena, rfl⟩

theorem finds_changeWith (step : Arena → Except Failure (α × Arena)) :
    Finds s (changeWith step) fun a s' =>
      ∃ arena, step s.arena = .ok (a, arena) ∧ s' = { s with arena } :=
  (finds_ask step).next fun (a, arena) harena => by
    rintro _ _ ⟨⟩
    exact ⟨arena, harena, rfl⟩

theorem finds_note (level : Int) (text : String) :
    Finds s (note level text) fun _ s' => ∃ log, s' = { s with log } := by
  rintro _ _ ⟨⟩
  exact ⟨_, rfl⟩

theorem finds_modify (f : Analysis → Analysis) :
    Finds s (modify f : Analyzing Unit) fun _ s' => s' = f s := by
  rintro _ _ ⟨⟩
  rfl

theorem finds_get : Finds s (get : Analyzing Analysis) fun a s' => s' = s ∧ s = a := by
  rintro _ _ ⟨⟩
  exact ⟨rfl, rfl⟩

theorem finds_here : Finds s (here (some i)) fun j s' => s' = s ∧ i = j :=
  finds_pure ⟨rfl, rfl⟩

theorem finds_lookup (h : Stands s i scope S) (name : String) :
    Finds s (lookup (some i) name) fun found s' => s' = s ∧ found = S name := by
  unfold lookup
  refine finds_here.next ?_
  rintro _ rfl
  refine (finds_ask _).weaken fun found s' ⟨hs, hf⟩ => ⟨hs, ?_⟩
  rw [h.sees.lookup] at hf
  exact (Except.ok.inj hf).symm

theorem finds_fetch (h : Stands s i scope S) :
    Finds s (ask (·.fetch i)) fun found s' => s' = s ∧ found = scope := by
  refine (finds_ask _).weaken fun found s' ⟨hs, hf⟩ => ⟨hs, ?_⟩
  rw [h.sees.fetch] at hf
  exact (Except.ok.inj hf).symm

theorem finds_lookupVariable (h : Stands s i scope S) (name : String) :
    Finds s (ask (·.lookupVariable i name)) fun found s' =>
      s' = s ∧ found = scope.vars.get? name := by
  refine (finds_ask _).weaken fun found s' ⟨hs, hf⟩ => ⟨hs, ?_⟩
  unfold Arena.lookupVariable at hf
  rw [h.sees.fetch] at hf
  exact (Except.ok.inj hf).symm

theorem finds_typeOf (h : Stands s i scope S) {type : Token} (ht : type.text ∈ builtinTypes) :
    Finds s (typeOf (some i) type) fun symbol s' =>
      s' = s ∧ symbol ∈ typeSymbols ∧ symbol.name = type.text := by
  unfold typeOf
  refine (finds_lookup h type.text).next fun found hfound => ?_
  obtain ⟨symbol, hsymbol, hname⟩ := exists_typeSymbol ht
  rw [← hname, h.types symbol hsymbol] at hfound
  subst hfound
  exact finds_pure ⟨rfl, hsymbol, hname⟩

/-! ## Checks -/

theorem finds_forM {f : α → Analyzing PUnit} {as : List α}
    (h : ∀ a ∈ as, Finds s (f a) fun _ s' => s' = s) : Finds s (as.forM f) fun _ s' => s' = s := by
  induction as with
  | nil => exact finds_pure rfl
  | cons a as ih =>
    refine (h a (by simp)).bind ?_
    rintro _ _ rfl
    exact ih fun a ha => h a (by simp [ha])

theorem finds_checkOperator (op : Token) (operand : Option Symbol) :
    Finds s (checkOperator op operand) fun _ s' =>
      s' = s ∧ Suits op (operand.map Symbol.name) := by
  unfold checkOperator
  cases operand with
  | none => exact finds_pure ⟨rfl, nofun⟩
  | some type =>
    refine Finds.ite (fun _ => finds_blame _ _) fun harith => ?_
    refine Finds.ite (fun _ => finds_blame _ _) fun hlogic => finds_pure ⟨rfl, ?_⟩
    rintro _ ⟨⟩
    constructor
    · intro hop hname
      exact harith (by simp [hop, hname])
    · intro hop
      simpa [hop] using hlogic

theorem finds_checkCondition (keyword : Option Token) (type : Option Symbol) :
    Finds s (checkCondition keyword type) fun _ s' =>
      s' = s ∧ ∀ name ∈ type.map Symbol.name, name = boolType := by
  cases type with
  | none => exact finds_pure ⟨rfl, nofun⟩
  | some type =>
    refine Finds.ite (fun _ => finds_blameKeyword _ _) fun hbool => finds_pure ⟨rfl, ?_⟩
    rintro _ ⟨⟩
    simpa using hbool

theorem finds_agree (op : Token) {left right : Option Symbol} (hl : ∀ t ∈ left, t ∈ typeSymbols)
    (hr : ∀ t ∈ right, t ∈ typeSymbols) :
    Finds s (agree op left right) fun type s' => s' = s ∧ (∀ t ∈ type, t ∈ typeSymbols) ∧
      Agree (left.map Symbol.name) (right.map Symbol.name) (type.map Symbol.name) := by
  unfold agree
  match left, right with
  | some l, some r =>
    refine Finds.ite (fun hsame => finds_pure ⟨rfl, hl, ?_⟩) fun _ => finds_blame _ _
    rw [eq_of_same (hl l rfl) (hr r rfl) hsame]
    exact .same _
  | some l, none => exact finds_pure ⟨rfl, hl, .left _⟩
  | none, right => exact finds_pure ⟨rfl, hr, .right _⟩

theorem finds_checkArguments (name : Token) (parameters : List Symbol)
    (arguments : List (Option Symbol)) :
    Finds s (checkArguments name parameters arguments) fun _ s' =>
      s' = s ∧ arguments.length = parameters.length := by
  unfold checkArguments
  refine Finds.ite (fun _ => finds_blame _ _) fun hlength => ?_
  refine (finds_forM fun p _ => ?_).weaken fun _ _ hs => ⟨hs, by simpa using hlength⟩
  obtain ⟨parameter, argument⟩ := p
  cases argument with
  | none => exact finds_pure rfl
  | some type => exact Finds.ite (fun _ => finds_blame _ _) fun _ => finds_pure rfl

/-! ## Expressions -/

theorem finds_mapM {f : α → Analyzing β} {as : List α} {P : α → β → Prop}
    (h : ∀ a ∈ as, Finds s (f a) fun b s' => s' = s ∧ P a b) :
    Finds s (as.mapM f) fun bs s' =>
      s' = s ∧ bs.length = as.length ∧ ∀ a ∈ as, ∃ b, P a b := by
  induction as with
  | nil => exact finds_pure ⟨rfl, rfl, nofun⟩
  | cons a as ih =>
    rw [List.mapM_cons]
    refine (h a (by simp)).next fun b hb => ?_
    refine (ih fun a ha => h a (by simp [ha])).next fun bs ⟨hlength, hbs⟩ => ?_
    refine finds_pure ⟨rfl, by simp [hlength], fun a' ha' => ?_⟩
    rcases List.mem_cons.mp ha' with rfl | ha'
    · exact ⟨b, hb⟩
    · exact hbs a' ha'

theorem finds_call (h : Stands s i scope S) (name : Token) (types : List (Option Symbol)) :
    Finds s (do
      match ← lookup (some i) name.text with
      | some (.function _ _ parameters) => checkArguments name parameters types
      | _ => pure ()
      return (none : Option Symbol)) fun type s' => s' = s ∧ type = none ∧
        ∀ count, (contextOf S scope.vars).functions name.text = some count →
          types.length = count := by
  refine (finds_lookup h name.text).next fun found hfound => ?_
  have hrest : Finds s (pure (none : Option Symbol)) fun type s' => s' = s ∧ type = none :=
    finds_pure ⟨rfl, rfl⟩
  subst hfound
  simp only [contextOf]
  split
  · next parameters hf =>
    refine (finds_checkArguments name parameters types).next fun _ hlength => ?_
    refine hrest.weaken fun type s' ⟨hs, ht⟩ => ⟨hs, ht, ?_⟩
    rintro _ ⟨⟩
    exact hlength
  · exact hrest.weaken fun type s' ⟨hs, ht⟩ => ⟨hs, ht, nofun⟩

theorem finds_literal (h : Stands s i scope S) {type : Symbol} (ht : type ∈ typeSymbols) :
    Finds s (lookup (some i) type.name) fun found s' => s' = s ∧ found = some type := by
  refine (finds_lookup h type.name).weaken fun found s' ⟨hs, hfound⟩ => ⟨hs, ?_⟩
  rw [hfound, h.types type ht]

theorem mem_typeSymbols_some {type : Symbol} (h : type ∈ typeSymbols) :
    ∀ t ∈ some type, t ∈ typeSymbols := by
  rintro _ ⟨⟩
  exact h

/-- An expression changes nothing, and has the type that it is found to have. -/
theorem finds_expression {P : Token → Prop} {node : Node} (hn : node.IsExpression P)
    (h : Stands s i scope S) (depth : Nat) :
    Finds s (visit depth node (some i)) fun type s' => s' = s ∧
      (∀ t ∈ type, t ∈ typeSymbols) ∧
      HasType (contextOf S scope.vars) node (type.map Symbol.name) := by
  have hint : Symbol.builtin 0 intType ∈ typeSymbols := by simp [typeSymbols]
  have hfloat : Symbol.builtin 1 floatType ∈ typeSymbols := by simp [typeSymbols]
  have hbool : Symbol.builtin 2 boolType ∈ typeSymbols := by simp [typeSymbols]
  induction depth generalizing node with
  | zero => exact finds_throw _
  | succ depth ih =>
    rw [visit_succ]
    unfold visitNode
    cases hn with
    | int =>
      refine (finds_literal h hint).weaken ?_
      rintro _ _ ⟨rfl, rfl⟩
      exact ⟨rfl, mem_typeSymbols_some hint, .int _⟩
    | float =>
      refine (finds_literal h hfloat).weaken ?_
      rintro _ _ ⟨rfl, rfl⟩
      exact ⟨rfl, mem_typeSymbols_some hfloat, .float _⟩
    | bool =>
      refine (finds_literal h hbool).weaken ?_
      rintro _ _ ⟨rfl, rfl⟩
      exact ⟨rfl, mem_typeSymbols_some hbool, .bool _⟩
    | @var name =>
      refine finds_here.next ?_
      rintro _ rfl
      refine (finds_lookupVariable h name.text).next fun found hfound => ?_
      cases found with
      | none => exact finds_blame _ _
      | some symbol =>
        refine finds_pure ⟨rfl, fun t ht => h.typed _ _ t hfound.symm ht, .var ?_⟩
        simp [contextOf, ← hfound]
    | unary _ _ hv =>
      refine (ih hv).next fun type ⟨hty, ht⟩ => ?_
      refine (finds_checkOperator _ type).next fun _ hsuits => ?_
      exact finds_pure ⟨rfl, hty, .unary ht hsuits⟩
    | @binary op left right _ _ hl hr =>
      refine (ih hl).next fun leftType ⟨hlty, hlt⟩ => ?_
      refine (ih hr).next fun rightType ⟨hrty, hrt⟩ => ?_
      refine (finds_agree op hlty hrty).next fun type ⟨hty, hagree⟩ => ?_
      refine (finds_checkOperator op type).next fun _ hsuits => ?_
      have ht := HasType.binary hlt hrt hagree hsuits
      refine Finds.ite (fun hcmp => ?_) fun hcmp => ?_
      · rw [if_pos hcmp] at ht
        refine (finds_literal h hbool).weaken ?_
        rintro _ _ ⟨rfl, rfl⟩
        exact ⟨rfl, mem_typeSymbols_some hbool, ht⟩
      · rw [if_neg hcmp] at ht
        exact finds_pure ⟨rfl, hty, ht⟩
    | @call name arguments _ hargs =>
      refine (finds_mapM fun a ha => ih (hargs a ha)).next fun types ⟨hlength, htypes⟩ => ?_
      refine (finds_call h name types).weaken ?_
      rintro _ _ ⟨rfl, rfl, hcount⟩
      refine ⟨rfl, nofun, .call_of_exists (fun a ha => ?_) (hlength ▸ hcount)⟩
      obtain ⟨type, -, ht⟩ := htypes a ha
      exact ⟨_, ht⟩

/-- The walk over an expression under rules is the walk without them. -/
theorem finds_expressionUnder {P : Token → Prop} {node : Node} (hn : node.IsExpression P)
    (h : Stands s i scope S) (rules : Rules) (depth : Nat) (known : Option (List String)) :
    Finds s (visitUnder rules depth known node (some i)) fun type s' => s' = s ∧
      visit depth node (some i) s = .ok type s ∧ (∀ t ∈ type, t ∈ typeSymbols) ∧
      HasType (contextOf S scope.vars) node (type.map Symbol.name) := by
  intro type s' hv
  have hv := refines_visitUnder rules depth known node (some i) s type s' hv
  obtain ⟨rfl, ht⟩ := finds_expression hn h depth type s' hv
  exact ⟨rfl, hv, ht⟩

end Analyzing

end LittleLang
