import LittleLang.Proofs.Analysis.Enclosing

/-!
# What a declaration changes

The declaration of a function is refused for what can be seen before the walk over its body: the
names in the current scope, the names of its parameters and their types (`Arena.Refuses`). Then no
scope is changed. Otherwise its symbol is added to the current scope, with the parameters that it
was declared with, and this is all that any scope around the function gets to see of it, however the
walk over its body ends (`addsFunction_visit`). -/

namespace LittleLang

namespace Arena

variable {a a' : Arena} {i : Nat}

theorem lookupFrom_of_slots (h : a'.slots = a.slots) (name : String) (rounds : Nat)
    (scope : Scope) : a'.lookupFrom name rounds scope = a.lookupFrom name rounds scope := by
  have hfetch (i : Int) : a'.fetch i = a.fetch i := by
    unfold fetch locate slot?
    rw [h]
  induction rounds generalizing scope with
  | zero => rfl
  | succ rounds ih =>
    unfold lookupFrom parentScope
    simp only [hfetch, ih]

theorem lookup_of_slots (h : a'.slots = a.slots) (i : Int) (name : String) :
    a'.lookup i name = a.lookup i name := by
  unfold lookup fetch locate slot?
  simp only [h, lookupFrom_of_slots h]

/-- The declaration of a function is refused in a scope: its name is that of another symbol there,
two of its parameters have one name, or the type of one is not known. -/
def Refuses (a : Arena) (i : Nat) (name : Token) (parameters : List Parameter) : Prop :=
  (∃ scope, a.slots[i]? = some (some scope) ∧ scope.symbols.contains name.text = true) ∨
    ¬(parameters.map (·.name.text)).Nodup ∨ ∃ p ∈ parameters, a.lookup i p.type.text = .ok none

/-- A symbol for a parameter, with the type that the scope knows by its name. -/
def Introduces (a : Arena) (i : Nat) (p : Parameter) (symbol : Symbol) : Prop :=
  ∃ id type, a.lookup i p.type.text = .ok (some type) ∧ symbol = .var id p.name.text (some type)

end Arena

namespace Analyzing

variable {s : Analysis} {i : Nat} {parameters : List Parameter} {name : Token}

def numbered (s : Analysis) (n : Nat) : Analysis :=
  { s with arena := { s.arena with nextId := n } }

theorem lookup_numbered (n : Nat) (type : String) :
    (numbered s n).arena.lookup i type = s.arena.lookup i type := by
  have hslots : (numbered s n).arena.slots = s.arena.slots := rfl
  exact Arena.lookup_of_slots hslots i type

theorem lookup_apply {name : String} {found : Option Symbol}
    (h : s.arena.lookup i name = .ok found) : lookup (some i) name s = .ok found s := by
  have hask : ask (·.lookup i name) s = .ok found s := ask_eq h
  exact hask

theorem parameterSymbol_eq {p : Parameter} {type : Symbol}
    (h : s.arena.lookup i p.type.text = .ok (some type)) :
    parameterSymbol (some i) p s =
      .ok (.var s.arena.nextId p.name.text (some type)) (numbered s (s.arena.nextId + 1)) := by
  have htype : typeOf (some i) p.type s = .ok type s := bind_of_ok (lookup_apply h)
  exact bind_of_ok htype

theorem parameterSymbol_error {p : Parameter} (h : s.arena.lookup i p.type.text = .ok none) :
    parameterSymbol (some i) p s = .error (.semantic (.typeNotFound p.type.text) p.type) s := by
  have htype : typeOf (some i) p.type s = .error (.semantic (.typeNotFound p.type.text) p.type) s :=
    bind_of_ok (lookup_apply h)
  exact bind_of_error htype

/-- Parameters that are not refused get a symbol each, and no scope is changed. -/
theorem parameterSymbols_ok (known : List Symbol) (hopen : s.arena.Open i)
    (hnames : (known.map Symbol.name ++ parameters.map (·.name.text)).Nodup)
    (htypes : ∀ p ∈ parameters, s.arena.lookup i p.type.text ≠ .ok none) :
    ∃ symbols n, parameters.Forall₂ (s.arena.Introduces i) symbols ∧
      parameterSymbols (some i) known parameters s = .ok (known ++ symbols) (numbered s n) := by
  induction parameters generalizing s known with
  | nil => exact ⟨[], s.arena.nextId, .nil, by rw [List.append_nil]; rfl⟩
  | cons p ps ih =>
    obtain ⟨type, htype⟩ : ∃ type, s.arena.lookup i p.type.text = .ok (some type) := by
      obtain ⟨found, hfound⟩ := Arena.lookup_eq hopen p.type.text
      cases found with
      | none => exact absurd hfound (htypes p List.mem_cons_self)
      | some type => exact ⟨type, hfound⟩
    have hnew : ¬known.any (·.name = p.name.text) = true := by
      simp only [List.any_eq_true, decide_eq_true_eq, not_exists, not_and]
      intro symbol hmem hname
      rw [List.map_cons, List.nodup_append] at hnames
      exact hnames.2.2 _ (List.mem_map_of_mem hmem) _ List.mem_cons_self hname
    have hnames' : ((known ++ [Symbol.var s.arena.nextId p.name.text (some type)]).map Symbol.name ++
        ps.map (·.name.text)).Nodup := by
      rw [List.map_append, List.append_assoc]
      exact hnames
    obtain ⟨symbols, n, hsymbols, hrun⟩ := ih (s := numbered s (s.arena.nextId + 1)) _
      (hopen.of_slots rfl) hnames'
      fun q hq => by
        rw [lookup_numbered]
        exact htypes q (List.mem_cons_of_mem _ hq)
    refine ⟨.var s.arena.nextId p.name.text (some type) :: symbols, n,
      .cons ⟨s.arena.nextId, type, htype, rfl⟩ (hsymbols.imp ?_), ?_⟩
    · rintro q symbol ⟨id, type', hlookup, rfl⟩
      rw [lookup_numbered] at hlookup
      exact ⟨id, type', hlookup, rfl⟩
    · unfold parameterSymbols
      rw [if_neg hnew, bind_of_ok (parameterSymbol_eq htype), hrun, List.append_assoc]
      rfl

theorem parameterSymbols_refused (known : List Symbol) (hopen : s.arena.Open i)
    (hknown : (known.map Symbol.name).Nodup)
    (h : ¬(known.map Symbol.name ++ parameters.map (·.name.text)).Nodup ∨
      ∃ p ∈ parameters, s.arena.lookup i p.type.text = .ok none) :
    ∃ e n, parameterSymbols (some i) known parameters s = .error e (numbered s n) := by
  induction parameters generalizing s known with
  | nil =>
    rcases h with h | ⟨p, hp, -⟩
    · rw [List.map_nil, List.append_nil] at h
      exact absurd hknown h
    · exact absurd hp List.not_mem_nil
  | cons p ps ih =>
    unfold parameterSymbols
    by_cases hnew : known.any (·.name = p.name.text) = true
    · rw [if_pos hnew]
      exact ⟨_, s.arena.nextId, rfl⟩
    rw [if_neg hnew]
    obtain ⟨found, hfound⟩ := Arena.lookup_eq hopen p.type.text
    cases found with
    | none => exact ⟨_, s.arena.nextId, bind_of_error (parameterSymbol_error hfound)⟩
    | some type =>
      rw [bind_of_ok (parameterSymbol_eq hfound)]
      refine ih (s := numbered s (s.arena.nextId + 1)) _ (hopen.of_slots rfl) ?_ ?_
      · simp only [List.any_eq_true, decide_eq_true_eq, not_exists, not_and] at hnew
        rw [List.map_append, List.map_cons, List.map_nil, List.nodup_append]
        refine ⟨hknown, by simp, ?_⟩
        intro x hx y hy hxy
        obtain ⟨symbol, hmem, rfl⟩ := List.mem_map.mp hx
        rw [List.mem_singleton.mp hy] at hxy
        exact hnew symbol hmem hxy
      · rcases h with h | ⟨q, hq, hnone⟩
        · refine .inl ?_
          rw [List.map_append, List.append_assoc]
          exact h
        · rcases List.mem_cons.mp hq with rfl | hq
          · cases hnone.symm.trans hfound
          · exact .inr ⟨q, hq, by rw [lookup_numbered]; exact hnone⟩

theorem announce_refused (hopen : s.arena.Open i) (h : s.arena.Refuses i name parameters) :
    ∃ e n, announce i name parameters s = .error e (numbered s n) := by
  obtain ⟨scope, hs⟩ := hopen.get
  have hfetch : ask (·.fetch i) s = .ok scope s := ask_eq (Arena.fetch_eq hs)
  unfold announce
  rw [bind_of_ok hfetch]
  by_cases hknown : scope.symbols.contains name.text = true
  · rw [if_pos hknown]
    exact ⟨_, s.arena.nextId, rfl⟩
  · rw [if_neg hknown]
    have hparameters := h.resolve_left <| by
      rintro ⟨scope', hs', hknown'⟩
      cases hs.symm.trans hs'
      exact hknown hknown'
    obtain ⟨e, n, hrun⟩ := parameterSymbols_refused [] hopen List.nodup_nil hparameters
    exact ⟨e, n, bind_of_error hrun⟩

/-- A declaration that is not refused adds its function to the scope. -/
theorem announce_ok (hopen : s.arena.Open i) (h : ¬s.arena.Refuses i name parameters) :
    ∃ scope id symbols, s.arena.slots[i]? = some (some scope) ∧
      parameters.Forall₂ (s.arena.Introduces i) symbols ∧
      announce i name parameters s = .ok symbols { s with
        arena := ⟨s.arena.slots.setIfInBounds i
          (some (scope.insertSymbol (.function id name.text symbols))), id + 1⟩ } := by
  obtain ⟨scope, hs⟩ := hopen.get
  have hfetch : ask (·.fetch i) s = .ok scope s := ask_eq (Arena.fetch_eq hs)
  have hnew : ¬scope.symbols.contains name.text = true := fun hknown => h (.inl ⟨scope, hs, hknown⟩)
  have hnames : (parameters.map (·.name.text)).Nodup :=
    Classical.byContradiction fun hnames => h (.inr (.inl hnames))
  obtain ⟨symbols, n, hsymbols, hrun⟩ := parameterSymbols_ok [] hopen hnames
    fun p hp hnone => h (.inr (.inr ⟨p, hp, hnone⟩))
  have hadd := Arena.add_ok (a := (numbered s n).arena) hs .symbols (.function · name.text symbols)
  refine ⟨scope, n, symbols, hs, hsymbols, ?_⟩
  unfold announce
  rw [bind_of_ok hfetch, if_neg hnew]
  refine (bind_of_ok hrun).trans ?_
  rw [List.nil_append, bind_of_ok (change_eq hadd)]
  rfl

/-- The scope `i` gains a function, with a symbol for each of its parameters, and the scopes `rest`
are the same as before. -/
structure Gains (name : Token) (parameters : List Parameter) (i : Nat) (rest : List Nat)
    (s t : Analysis) : Prop where
  enclosing : ∀ k ∈ rest, t.arena.slots[k]? = s.arena.slots[k]?
  current : ∃ scope id symbols, s.arena.slots[i]? = some (some scope) ∧
    parameters.Forall₂ (s.arena.Introduces i) symbols ∧
    t.arena.slots[i]? = some (some (scope.insertSymbol (.function id name.text symbols)))

/-- What comes of a declaration: either it is refused, which changes no scope at all, or its
function is added to the scope `i`, however the walk over its body ends. -/
structure AddsFunction (name : Token) (parameters : List Parameter) (i : Nat) (rest : List Nat)
    (s : Analysis) (r : EStateM.Result Failure Analysis (Option Symbol)) : Prop where
  refused : s.arena.Refuses i name parameters →
    ∃ e t, r = .error e t ∧ t.arena.slots = s.arena.slots
  added : ¬s.arena.Refuses i name parameters → After (Gains name parameters i rest s) r

theorem addsFunction_visit {scopes rest : List Nat} (hlive : s.Live scopes) (hi : i ∈ scopes)
    (hrest : ∀ k ∈ rest, k ∈ scopes ∧ k ≠ i) (name : Token) (parameters : List Parameter)
    (body : Node) (depth : Nat) :
    AddsFunction name parameters i rest s
      (visit (depth + 1) (.function name parameters body) (some i) s) := by
  rw [visit_succ]
  unfold visitNode
  simp only [declareFunction_eq, bind_assoc]
  refine ⟨fun hrefused => ?_, fun hrefused => ?_⟩
  · obtain ⟨e, n, hrun⟩ := announce_refused (hlive.isOpen hi) hrefused
    exact ⟨e, _, bind_of_error hrun, rfl⟩
  obtain ⟨scope, id, symbols, hs, hsymbols, hrun⟩ := announce_ok (hlive.isOpen hi) hrefused
  rw [bind_of_ok hrun]
  have hlive₁ : After (Spared s (some i) scopes) (announce i name parameters s) :=
    spared_announce i name parameters s (.start hlive)
  rw [hrun] at hlive₁
  have hsparing (s₁ : Analysis) : Sparing s₁ none scopes
      (do
        enclose i name.text symbols (visit depth body)
        return (none : Option Symbol))
      (do
        enclose i name.text symbols (visit depth body)
        return (none : Option Symbol)) := by
    refine InStep.next (sparing_enclose hi (fun s₂ child => ?_) _ _) fun _ => inStep_pure rfl
    exact sparing_visit depth (fun _ hj => Option.some.inj hj ▸ List.mem_cons_self) body
  refine ((hsparing _).keeps _ (.start hlive₁.live)).imp fun t ht => ?_
  have hsame {k : Nat} (hk : k ∈ scopes) : t.arena.slots[k]? = if i = k then
      some (some (scope.insertSymbol (.function id name.text symbols))) else s.arena.slots[k]? := by
    rw [ht.spares.unchanged hk]
    exact Arena.getElem?_set (hlive.lt hi) _
  refine ⟨fun k hk => ?_, scope, id, symbols, hs, hsymbols, ?_⟩
  · rw [hsame (hrest k hk).1, if_neg (hrest k hk).2.symm]
  · rw [hsame hi, if_pos rfl]

end Analyzing

end LittleLang
