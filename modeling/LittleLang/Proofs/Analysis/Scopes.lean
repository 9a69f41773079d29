import LittleLang.Scope.Arena

/-!
# Open scopes

`Open a i`: the scope at index `i` of the arena is open, and so are all scopes that enclose it. A
scope is opened after its parent, so that the indices decrease on the way out; that is why closing a
scope leaves those with a smaller index open (`Arena.close_eq`).
-/

namespace LittleLang

/-! ## Tables of a scope -/

/-- The two tables of a scope: its symbols, which are looked up from inside too, and its variables.
-/
inductive TableKind where
  | symbols
  | variables
  deriving DecidableEq

namespace Scope

def table (s : Scope) : TableKind → Table Symbol
  | .symbols => s.symbols
  | .variables => s.vars

def insert (s : Scope) (symbol : Symbol) : TableKind → Scope
  | .symbols => s.insertSymbol symbol
  | .variables => s.insertVariable symbol

variable (s : Scope) (symbol : Symbol) (kind : TableKind)

theorem parent_insert : (s.insert symbol kind).parent = s.parent := by
  cases kind <;> rfl

theorem level_insert : (s.insert symbol kind).level = s.level := by
  cases kind <;> rfl

theorem get?_table_insert (kind' : TableKind) (name : String) :
    ((s.insert symbol kind).table kind').get? name =
      if kind = kind' ∧ symbol.name = name then some symbol else (s.table kind').get? name := by
  cases kind <;> cases kind' <;>
    simp [insert, insertSymbol, insertVariable, table, Table.get?_insert, eq_comm]

end Scope

namespace Arena

/-- The scope at an index and all that enclose it are open. -/
inductive Open (a : Arena) : Nat → Prop where
  | root {i : Nat} {scope : Scope} : a.slots[i]? = some (some scope) → scope.parent = none →
      Open a i
  | child {i p : Nat} {scope : Scope} : a.slots[i]? = some (some scope) →
      scope.parent = some (p : Int) → p < i → Open a p → Open a i

theorem Open.get {a : Arena} {i : Nat} (h : a.Open i) : ∃ scope, a.slots[i]? = some (some scope) := by
  cases h with
  | root h => exact ⟨_, h⟩
  | child h => exact ⟨_, h⟩

theorem Open.lt {a : Arena} {i : Nat} (h : a.Open i) : i < a.slots.size := by
  obtain ⟨scope, hs⟩ := h.get
  obtain ⟨hlt, -⟩ := Array.getElem?_eq_some_iff.mp hs
  exact hlt

theorem Open.imp {a a' : Arena} {i : Nat} (h : a.Open i)
    (hslots : ∀ j ≤ i, ∀ scope, a.slots[j]? = some (some scope) →
      ∃ scope', a'.slots[j]? = some (some scope') ∧ scope'.parent = scope.parent) : a'.Open i := by
  induction h with
  | @root i scope hs hp =>
    obtain ⟨scope', hs', hp'⟩ := hslots i (Nat.le_refl i) scope hs
    exact .root hs' (hp'.trans hp)
  | @child i p scope hs hp hlt _ ih =>
    obtain ⟨scope', hs', hp'⟩ := hslots i (Nat.le_refl i) scope hs
    exact .child hs' (hp'.trans hp) hlt (ih fun j hj => hslots j (by omega))

/-! ## Operations -/

theorem locate_eq {a : Arena} {i : Nat} {scope : Scope} (h : a.slots[i]? = some (some scope)) :
    a.locate i = .ok (i, scope) := by
  obtain ⟨hlt, -⟩ := Array.getElem?_eq_some_iff.mp h
  have hslot : a.slot? i = some i := by
    unfold slot?
    simp only [show ¬(i : Int) < 0 by omega, if_false]
    rw [if_pos (by omega)]
    rfl
  unfold locate
  rw [hslot]
  dsimp only
  rw [h]
  rfl

theorem fetch_eq {a : Arena} {i : Nat} {scope : Scope} (h : a.slots[i]? = some (some scope)) :
    a.fetch i = .ok scope := by
  unfold fetch
  rw [locate_eq h]
  rfl

theorem locate_cases {a : Arena} {i : Int} {n : Nat} {scope : Scope}
    (h : a.locate i = .ok (n, scope)) :
    a.slot? i = some n ∧ a.slots[n]? = some (some scope) := by
  unfold locate at h
  cases hi : a.slot? i with
  | none =>
    rw [hi] at h
    cases h
  | some k =>
    rw [hi] at h
    cases hs : a.slots[k]?.join with
    | none =>
      simp only [hs] at h
      cases h
    | some x =>
      simp only [hs] at h
      cases h
      exact ⟨rfl, Option.join_eq_some_iff.mp hs⟩

theorem slot?_natCast {a : Arena} {i n : Nat} (h : a.slot? i = some n) : n = i := by
  unfold slot? at h
  simp only [show ¬(i : Int) < 0 by omega, if_false] at h
  split at h
  · exact (Option.some.inj h).symm
  · cases h

theorem update_ok {a : Arena} {i : Nat} {scope : Scope} (h : a.slots[i]? = some (some scope))
    (change : Scope → Scope) :
    a.update i change =
      .ok { a with slots := a.slots.setIfInBounds i (some (change scope)) } := by
  unfold update
  rw [locate_eq h]
  rfl

theorem close_ok {a : Arena} {i : Nat} {scope : Scope} (h : a.slots[i]? = some (some scope)) :
    a.close i = .ok (scope.parent, { a with slots := a.slots.setIfInBounds i none }) := by
  unfold close
  rw [locate_eq h]
  rfl

theorem push_ok {a : Arena} {i : Nat} {scope : Scope} (h : a.slots[i]? = some (some scope))
    (name : String) :
    a.push name (some (i : Int)) = .ok (a.slots.size,
      { a with slots := a.slots.push (some ⟨name, scope.level + 1, some (i : Int), {}, {}⟩) }) := by
  unfold push
  simp only [fetch_eq h]
  rfl

theorem update_inv {a a' : Arena} {i : Nat} {change : Scope → Scope}
    (h : a.update i change = .ok a') :
    ∃ scope, a.slots[i]? = some (some scope) ∧
      a' = { a with slots := a.slots.setIfInBounds i (some (change scope)) } := by
  unfold update at h
  cases hl : a.locate i with
  | error e =>
    rw [hl] at h
    cases h
  | ok found =>
    obtain ⟨n, scope⟩ := found
    rw [hl] at h
    cases h
    obtain ⟨hslot, hs⟩ := locate_cases hl
    obtain rfl := slot?_natCast hslot
    exact ⟨scope, hs, rfl⟩

theorem push_inv {a a' : Arena} {child : Nat} {name : String} {parent : Option Int}
    (h : a.push name parent = .ok (child, a')) :
    child = a.slots.size ∧
      ∃ level, a' = { a with slots := a.slots.push (some ⟨name, level, parent, {}, {}⟩) } := by
  unfold push at h
  cases parent with
  | none =>
    cases h
    exact ⟨rfl, 0, rfl⟩
  | some i =>
    cases hf : a.fetch i with
    | error e =>
      simp only [hf] at h
      cases h
    | ok scope =>
      simp only [hf] at h
      cases h
      exact ⟨rfl, scope.level + 1, rfl⟩

theorem update_eq {a : Arena} {i : Nat} {change : Scope → Scope} (h : a.Open i)
    (hparent : ∀ scope, (change scope).parent = scope.parent) :
    ∃ a', a.update i change = .ok a' ∧ ∀ j, a.Open j → a'.Open j := by
  obtain ⟨scope, hs⟩ := h.get
  unfold update
  rw [locate_eq hs]
  refine ⟨_, rfl, fun j hj => hj.imp fun k _ scope' hk => ?_⟩
  by_cases hki : i = k
  · subst hki
    obtain ⟨hlt, -⟩ := Array.getElem?_eq_some_iff.mp hs
    rw [hs] at hk
    cases hk
    exact ⟨change scope, by simp [hlt], hparent scope⟩
  · exact ⟨scope', by simp [hki, hk], rfl⟩

theorem Open.of_slots {a a' : Arena} {i : Nat} (h : a.Open i) (hs : a'.slots = a.slots) :
    a'.Open i :=
  h.imp fun j _ scope hj => ⟨scope, by rw [hs, hj], rfl⟩

def add (a : Arena) (kind : TableKind) (i : Int) (make : Nat → Symbol) : Except Failure Arena :=
  (a.create make).2.update i (·.insert (a.create make).1 kind)

theorem addSymbol_eq (a : Arena) (i : Int) (make : Nat → Symbol) :
    a.addSymbol i make = a.add .symbols i make := rfl

theorem add_ok {a : Arena} {i : Nat} {scope : Scope} (h : a.slots[i]? = some (some scope))
    (kind : TableKind) (make : Nat → Symbol) :
    a.add kind i make = .ok
      ⟨a.slots.setIfInBounds i (some (scope.insert (make a.nextId) kind)), a.nextId + 1⟩ :=
  update_ok (a := (a.create make).2) h (·.insert (make a.nextId) kind)

theorem exists_add {a : Arena} {i : Nat} (h : a.Open i) (kind : TableKind) (make : Nat → Symbol) :
    ∃ a', a.add kind i make = .ok a' ∧ ∀ j, a.Open j → a'.Open j := by
  have hopen : ∀ j, a.Open j → (a.create make).2.Open j := fun j hj => hj.of_slots rfl
  obtain ⟨a', heq, hkeep⟩ :=
    update_eq (hopen i h) fun scope => scope.parent_insert (a.create make).1 kind
  exact ⟨a', heq, fun j hj => hkeep j (hopen j hj)⟩

theorem addBuiltins_eq {a : Arena} {i : Nat} (h : a.Open i) :
    ∃ a', a.addBuiltins i = .ok a' ∧ ∀ j, a.Open j → a'.Open j := by
  unfold addBuiltins
  generalize builtinTypes = names
  induction names generalizing a with
  | nil => exact ⟨a, rfl, fun _ hj => hj⟩
  | cons name names ih =>
    obtain ⟨a₁, heq, hkeep⟩ := exists_add h .symbols (.builtin · name)
    obtain ⟨a₂, heq', hkeep'⟩ := ih (hkeep i h)
    refine ⟨a₂, ?_, fun j hj => hkeep' j (hkeep j hj)⟩
    rw [List.foldlM_cons, addSymbol_eq, heq]
    exact heq'

theorem Open.push {a : Arena} {i : Nat} (h : a.Open i) (scope : Scope) :
    Open { a with slots := a.slots.push (some scope) } i := by
  refine h.imp fun j hj scope' hs => ⟨scope', ?_, rfl⟩
  have hlt := h.lt
  rw [Array.getElem?_push_lt (by omega)]
  rw [Array.getElem?_eq_getElem (by omega)] at hs
  exact hs

theorem getElem?_push (a : Arena) (scope : Scope) :
    (a.slots.push (some scope))[a.slots.size]? = some (some scope) := by
  simp

theorem push_none (a : Arena) (name : String) :
    ∃ a', a.push name none = .ok (a.slots.size, a') ∧ a'.Open a.slots.size ∧
      ∀ j, a.Open j → a'.Open j :=
  ⟨_, rfl, .root (getElem?_push a _) rfl, fun _ hj => hj.push _⟩

theorem push_some {a : Arena} {i : Nat} (h : a.Open i) (name : String) :
    ∃ a', a.push name (some i) = .ok (a.slots.size, a') ∧ a'.Open a.slots.size ∧
      ∀ j, a.Open j → a'.Open j := by
  obtain ⟨scope, hs⟩ := h.get
  unfold Arena.push
  simp only [fetch_eq hs]
  exact ⟨_, rfl, .child (getElem?_push a _) rfl h.lt (h.push _), fun _ hj => hj.push _⟩

/-- Closing a scope leaves those with a smaller index open. -/
theorem close_eq {a : Arena} {i : Nat} (h : a.Open i) :
    ∃ parent a', a.close i = .ok (parent, a') ∧ ∀ j < i, a.Open j → a'.Open j := by
  obtain ⟨scope, hs⟩ := h.get
  unfold close
  rw [locate_eq hs]
  refine ⟨_, _, rfl, fun j hji hj => hj.imp fun k hk scope' hk' => ?_⟩
  exact ⟨scope', by simp [show i ≠ k by omega, hk'], rfl⟩

/-! ## Lookups -/

/-- On the way out the indices decrease, so they bound the scopes on it. -/
theorem lookupFrom_eq {a : Arena} {i rounds : Nat} (h : a.Open i) (hr : i < rounds) (name : String)
    {scope : Scope} (hs : a.slots[i]? = some (some scope)) :
    ∃ found, a.lookupFrom name rounds scope = .ok found := by
  induction rounds generalizing i scope with
  | zero => omega
  | succ rounds ih =>
    unfold lookupFrom
    cases scope.symbols.get? name with
    | some symbol => exact ⟨_, rfl⟩
    | none =>
      unfold parentScope
      cases h with
      | root hs' hp =>
        rw [hs] at hs'
        cases hs'
        rw [hp]
        exact ⟨_, rfl⟩
      | child hs' hp hlt hparent =>
        rw [hs] at hs'
        cases hs'
        obtain ⟨parent, hps⟩ := hparent.get
        rw [hp]
        simp only [fetch_eq hps]
        exact ih hparent (by omega) hps

theorem lookup_eq {a : Arena} {i : Nat} (h : a.Open i) (name : String) :
    ∃ found, a.lookup i name = .ok found := by
  obtain ⟨scope, hs⟩ := h.get
  have hlt := h.lt
  unfold lookup
  rw [fetch_eq hs]
  exact lookupFrom_eq h (by omega) name hs

end Arena

end LittleLang
