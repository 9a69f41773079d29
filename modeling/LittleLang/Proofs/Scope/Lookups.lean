import LittleLang.Proofs.Analysis.Finds
import LittleLang.Proofs.Scope.History

/-!
# Lookups find the nearest definition

A lookup from an open scope goes along the scopes that enclose it (`Arena.Encloses`), from the
inside out, and gives the latest symbol of the first scope that has one; it fails if it meets a
closed scope before (`Arena.Answers`). This is so whatever the arena was asked for, since a parent
always comes before its children: the way ends after fewer steps than there are slots
(`Arena.lookups_nearest`). -/

namespace LittleLang.Arena

/-! ## Enclosing scopes -/

/-- The scopes from one outward, as they were opened one inside of the other. -/
inductive Encloses (events : List Event) : Nat → List Nat → Prop where
  | root {k : Nat} : Event.opened k none ∈ events → Encloses events k [k]
  | child {k p : Nat} {path : List Nat} : Event.opened k (some p) ∈ events →
      Encloses events p path → Encloses events k (k :: path)

/-- A scope is open and has no symbol with this name. -/
def Lacks (events : List Event) (name : String) (k : Nat) : Prop :=
  Event.closed k ∉ events ∧ latest events .symbols k name = none

/-- What a lookup along a path gives: the latest symbol of the first scope that has one, or a
failure if a closed scope comes first. -/
inductive Answers (events : List Event) (name : String) :
    List Nat → Except Failure (Option Symbol) → Prop where
  | nowhere : Answers events name [] (.ok none)
  | closed {k : Nat} {path : List Nat} : Event.closed k ∈ events →
      Answers events name (k :: path) (.error (.scope (.closed k)))
  | found {k : Nat} {path : List Nat} {symbol : Symbol} : Event.closed k ∉ events →
      latest events .symbols k name = some symbol → Answers events name (k :: path) (.ok (some symbol))
  | further {k : Nat} {path : List Nat} {answer : Except Failure (Option Symbol)} :
      Lacks events name k → Answers events name path answer → Answers events name (k :: path) answer

namespace Answers

variable {events : List Event} {name : String} {path inner : List Nat}
  {answer answer' : Except Failure (Option Symbol)}

theorem unique (h : Answers events name path answer) (h' : Answers events name path answer') :
    answer = answer' := by
  induction h with
  | nowhere => cases h'; rfl
  | closed hc =>
    cases h' with
    | closed => rfl
    | found hopen => exact absurd hc hopen
    | further hlacks => exact absurd hc hlacks.1
  | found hopen hs =>
    cases h' with
    | closed hc => exact absurd hc hopen
    | found _ hs' => rw [Option.some.inj (hs.symm.trans hs')]
    | further hlacks => cases hs.symm.trans hlacks.2
  | further hlacks _ ih =>
    cases h' with
    | closed hc => exact absurd hc hlacks.1
    | found _ hs => cases hs.symm.trans hlacks.2
    | further _ h' => exact ih h'

theorem append (hinner : ∀ k ∈ inner, Lacks events name k) (h : Answers events name path answer) :
    Answers events name (inner ++ path) answer := by
  induction inner with
  | nil => exact h
  | cons k inner ih =>
    exact .further (hinner k List.mem_cons_self)
      (ih fun j hj => hinner j (List.mem_cons_of_mem _ hj))

/-- A lookup ends where the scopes that lack the name do. -/
theorem split (h : Answers events name path answer) :
    ∃ inner rest, path = inner ++ rest ∧ (∀ k ∈ inner, Lacks events name k) ∧
      ((rest = [] ∧ answer = .ok none) ∨ ∃ k outer, rest = k :: outer ∧
        ((Event.closed k ∈ events ∧ answer = .error (.scope (.closed k))) ∨
          (Event.closed k ∉ events ∧
            ∃ symbol, latest events .symbols k name = some symbol ∧ answer = .ok (some symbol)))) := by
  induction h with
  | nowhere => exact ⟨[], [], rfl, nofun, .inl ⟨rfl, rfl⟩⟩
  | closed hc => exact ⟨[], _, rfl, nofun, .inr ⟨_, _, rfl, .inl ⟨hc, rfl⟩⟩⟩
  | found hopen hs => exact ⟨[], _, rfl, nofun, .inr ⟨_, _, rfl, .inr ⟨hopen, _, hs, rfl⟩⟩⟩
  | @further k _ _ hlacks _ ih =>
    obtain ⟨inner, rest, rfl, hinner, hend⟩ := ih
    refine ⟨k :: inner, rest, rfl, fun j hj => ?_, hend⟩
    rcases List.mem_cons.mp hj with rfl | hj
    · exact hlacks
    · exact hinner j hj

theorem some_iff (h : Answers events name path answer) (symbol : Symbol) :
    answer = .ok (some symbol) ↔ ∃ inner k outer, path = inner ++ k :: outer ∧
      (∀ j ∈ inner, Lacks events name j) ∧ Event.closed k ∉ events ∧
        latest events .symbols k name = some symbol := by
  constructor
  · rintro rfl
    obtain ⟨inner, _, rfl, hinner, ⟨-, hend⟩ | ⟨k, outer, rfl, ⟨-, hend⟩ | ⟨hopen, s, hs, hend⟩⟩⟩ :=
      h.split
    · cases hend
    · cases hend
    · cases hend
      exact ⟨inner, k, outer, rfl, hinner, hopen, hs⟩
  · rintro ⟨inner, k, outer, rfl, hinner, hopen, hs⟩
    exact h.unique (.append hinner (.found hopen hs))

/-- Nothing is found only where all scopes lack the name. -/
theorem none_iff (h : Answers events name path answer) :
    answer = .ok none ↔ ∀ k ∈ path, Lacks events name k := by
  constructor
  · rintro rfl
    obtain ⟨inner, _, rfl, hinner, ⟨rfl, -⟩ | ⟨k, outer, rfl, ⟨-, hend⟩ | ⟨-, s, -, hend⟩⟩⟩ := h.split
    · simpa using hinner
    · cases hend
    · cases hend
  · intro hall
    have hnowhere : Answers events name (path ++ []) (.ok none) := .append hall .nowhere
    exact h.unique (List.append_nil path ▸ hnowhere)

theorem error_iff (h : Answers events name path answer) (failure : Failure) :
    answer = .error failure ↔ ∃ inner k outer, path = inner ++ k :: outer ∧
      (∀ j ∈ inner, Lacks events name j) ∧ Event.closed k ∈ events ∧
        failure = .scope (.closed k) := by
  constructor
  · rintro rfl
    obtain ⟨inner, _, rfl, hinner, ⟨-, hend⟩ | ⟨k, outer, rfl, ⟨hc, hend⟩ | ⟨-, s, -, hend⟩⟩⟩ := h.split
    · cases hend
    · cases hend
      exact ⟨inner, k, outer, rfl, hinner, hc, rfl⟩
    · cases hend
  · rintro ⟨inner, k, outer, rfl, hinner, hc, rfl⟩
    exact h.unique (.append hinner (.closed hc))

end Answers

/-! ## Lookups -/

section

variable {a : Arena} {events : List Event} {name : String} {path : List Nat} {k : Nat} {i : Int}
  {scope : Scope}

theorem fetch_of_slot (hi : a.slot? i = some k) (hs : a.slots[k]? = some (some scope)) :
    a.fetch i = .ok scope := by
  simp [fetch, locate, hi, hs]

theorem slot?_of_lt (h : k < a.slots.size) : a.slot? (k : Int) = some k := by
  unfold slot?
  simp only [show ¬(k : Int) < 0 by omega, if_false]
  rw [if_pos (by omega)]
  rfl

theorem lt_of_slot? (h : a.slot? i = some k) : k < a.slots.size := by
  unfold slot? at h
  obtain ⟨⟨hlow, hhigh⟩, hk⟩ := Option.ite_none_right_eq_some.mp h
  rw [← Option.some.inj hk]
  exact (Int.toNat_lt hlow).mpr hhigh

theorem fetch_closed (hs : a.slots[k]? = some none) :
    a.fetch (k : Int) = .error (.scope (.closed k)) := by
  have hi : a.slot? (k : Int) = some k := slot?_of_lt (Faithful.lt_of_slot hs)
  simp [fetch, locate, hi, hs]

theorem lookupFrom_found {symbol : Symbol} (h : scope.symbols.get? name = some symbol) (rounds : Nat) :
    a.lookupFrom name (rounds + 1) scope = .ok (some symbol) := by
  rw [lookupFrom, h]

theorem lookupFrom_outward (h : scope.symbols.get? name = none) (hp : scope.parent = some i)
    (rounds : Nat) : a.lookupFrom name (rounds + 1) scope = a.fetch i >>= a.lookupFrom name rounds := by
  rw [lookupFrom]
  simp only [h, parentScope, hp]
  cases a.fetch i <;> rfl

namespace Encloses

theorem head (h : Encloses events k path) : ∃ rest, path = k :: rest := by
  cases h with
  | root => exact ⟨[], rfl⟩
  | child _ _ => exact ⟨_, rfl⟩

end Encloses

namespace Faithful

variable (h : Faithful events a)

include h

/-- A slot was opened before it was anything else. -/
theorem exists_opened (hk : k < a.slots.size) : ∃ parent, Event.opened k parent ∈ events := by
  have hmem : k ∈ events.filterMap Event.opened? := by
    rw [h.opened]
    simpa using hk
  obtain ⟨e, he, hek⟩ := List.mem_filterMap.mp hmem
  cases e with
  | opened _ parent => exact ⟨parent, Option.some.inj hek ▸ he⟩
  | _ => cases hek

theorem open_or_closed (hk : k < a.slots.size) :
    (Event.closed k ∉ events ∧ ∃ scope, a.slots[k]? = some (some scope)) ∨
      (Event.closed k ∈ events ∧ a.slots[k]? = some none) := by
  cases hs : a.slots[k] with
  | none =>
    have hs : a.slots[k]? = some none := Array.getElem?_eq_some_iff.mpr ⟨hk, hs⟩
    exact .inr ⟨(h.closed_iff k).mp hs, hs⟩
  | some scope =>
    have hs : a.slots[k]? = some (some scope) := Array.getElem?_eq_some_iff.mpr ⟨hk, hs⟩
    exact .inl ⟨h.not_closed hs, scope, hs⟩

/-- Every scope has scopes around it up to one on its own, by the order in which they were opened.
-/
theorem exists_encloses (hk : k < a.slots.size) : ∃ path, Encloses events k path := by
  induction k using Nat.strongRecOn with
  | ind k ih =>
    obtain ⟨parent, hopened⟩ := h.exists_opened hk
    cases parent with
    | none => exact ⟨[k], .root hopened⟩
    | some p =>
      have hlt := h.parent_lt k p hopened
      obtain ⟨path, hpath⟩ := ih p hlt (Nat.lt_trans hlt hk)
      exact ⟨k :: path, .child hopened hpath⟩

/-- A lookup goes along the enclosing scopes. One round for each slot before a scope and one for the
scope are enough, since each parent comes earlier. -/
theorem answers_lookupFrom (hpath : Encloses events k path) {rounds : Nat} (hrounds : k ≤ rounds)
    (hs : a.slots[k]? = some (some scope)) :
    Answers events name path (a.lookupFrom name (rounds + 1) scope) := by
  induction hpath generalizing rounds scope with
  | @root k hopened =>
    have htable : scope.symbols.get? name = latest events .symbols k name :=
      (h.describes k scope hs).table .symbols name
    rw [lookupFrom_root ((h.describes k scope hs).parent none hopened), htable]
    cases hget : latest events .symbols k name with
    | some symbol => exact .found (h.not_closed hs) hget
    | none => exact .further ⟨h.not_closed hs, hget⟩ .nowhere
  | @child k p path hopened hpath ih =>
    have htable : scope.symbols.get? name = latest events .symbols k name :=
      (h.describes k scope hs).table .symbols name
    cases hget : scope.symbols.get? name with
    | some symbol =>
      rw [lookupFrom_found hget]
      exact .found (h.not_closed hs) (htable.symm.trans hget)
    | none =>
      rw [lookupFrom_outward hget ((h.describes k scope hs).parent (some p) hopened)]
      refine .further ⟨h.not_closed hs, htable.symm.trans hget⟩ ?_
      have hlt := h.parent_lt k p hopened
      rcases h.open_or_closed (Nat.lt_trans hlt (lt_of_slot hs)) with ⟨-, outer, ho⟩ | ⟨hc, ho⟩
      · rw [fetch_eq ho]
        obtain ⟨rounds, rfl⟩ : ∃ n, rounds = n + 1 := ⟨rounds - 1, by omega⟩
        exact ih (by omega) ho
      · rw [fetch_closed ho]
        obtain ⟨rest, rfl⟩ := hpath.head
        exact .closed hc

theorem answers_lookup (hpath : Encloses events k path) (hi : a.slot? i = some k)
    (hs : a.slots[k]? = some (some scope)) : Answers events name path (a.lookup i name) := by
  have hlookup : a.lookup i name = a.lookupFrom name (a.slots.size + 1) scope := by
    unfold lookup
    rw [fetch_of_slot hi hs]
    rfl
  rw [hlookup]
  exact h.answers_lookupFrom hpath (Nat.le_of_lt (lt_of_slot hs)) hs

theorem lookupVariable_eq (hi : a.slot? i = some k) (hs : a.slots[k]? = some (some scope)) :
    a.lookupVariable i name = .ok (latest events .variables k name) := by
  unfold lookupVariable
  rw [fetch_of_slot hi hs, ← (h.describes k scope hs).table .variables name]
  rfl

end Faithful

end

/-! ## Whatever an arena was asked for -/

open Chronicle in
/-- Whatever an arena was asked for:

* parents come before their children, and are one level above them while both are open;
* each index was given once, and stays that of a closed scope once it is;
* a request that fails changes nothing, and any other no slot but the one that it is about;
* a lookup of a symbol from an open scope gives the latest one of the nearest scope around it that
  has one, nothing if all of them are open and none has one, and fails only where a closed scope
  comes first; a lookup of a variable gives the latest one of the scope. -/
theorem lookups_nearest (requests : List Request) :
    let c := ofRequests requests
    ((∀ i p, Event.opened i (some p) ∈ c.events → p < i) ∧
      (∀ (i : Nat) (scope : Scope), c.arena.slots[i]? = some (some scope) →
        (∃ parent, Event.opened i parent ∈ c.events ∧ scope.parent = parentIndex parent) ∧
        (scope.parent = none → scope.level = 0) ∧
        ∀ (p : Nat) (outer : Scope), scope.parent = some (p : Int) →
          c.arena.slots[p]? = some (some outer) → scope.level = outer.level + 1)) ∧
    (c.events.filterMap Event.opened? = (List.range c.arena.slots.size).reverse ∧
      ∀ i : Nat, c.arena.slots[i]? = some none ↔ Event.closed i ∈ c.events) ∧
    (∀ request, (∀ failure, c.arena.perform request = .error failure → c.serve request = c) ∧
      ∀ j : Nat, request.target? c.arena ≠ some j →
        (c.serve request).arena.slots[j]? = c.arena.slots[j]?) ∧
    ∀ i k name, c.arena.slot? i = some k → Event.closed k ∉ c.events →
      c.arena.lookupVariable i name = .ok (latest c.events .variables k name) ∧
      (∃ path, Encloses c.events k path) ∧
      ∀ path, Encloses c.events k path →
        (∀ symbol, c.arena.lookup i name = .ok (some symbol) ↔
          ∃ inner m outer, path = inner ++ m :: outer ∧ (∀ j ∈ inner, Lacks c.events name j) ∧
            Event.closed m ∉ c.events ∧ latest c.events .symbols m name = some symbol) ∧
        (c.arena.lookup i name = .ok none ↔ ∀ j ∈ path, Lacks c.events name j) ∧
        ∀ failure, c.arena.lookup i name = .error failure ↔
          ∃ inner m outer, path = inner ++ m :: outer ∧ (∀ j ∈ inner, Lacks c.events name j) ∧
            Event.closed m ∈ c.events ∧ failure = .scope (.closed m) := by
  intro c
  have h : Faithful c.events c.arena := faithful_ofRequests requests
  refine ⟨⟨h.parent_lt, fun i scope hs => ⟨?_, h.level_root i scope hs, fun p outer =>
      h.level_eq i p scope outer hs⟩⟩, ⟨h.opened, h.closed_iff⟩,
    fun request => ⟨fun _ => serve_of_error, fun _ => getElem?_serve⟩,
    fun i k name hi hopen => ?_⟩
  · obtain ⟨parent, hopened⟩ := (h.describes i scope hs).opened
    exact ⟨parent, hopened, (h.describes i scope hs).parent parent hopened⟩
  · have hk := lt_of_slot? hi
    obtain ⟨-, scope, hs⟩ | ⟨hclosed, -⟩ := h.open_or_closed hk
    · refine ⟨h.lookupVariable_eq hi hs, h.exists_encloses hk, fun path hpath => ?_⟩
      have hanswers : Answers c.events name path _ := h.answers_lookup hpath hi hs
      exact ⟨hanswers.some_iff, hanswers.none_iff, hanswers.error_iff⟩
    · exact absurd hclosed hopen

/-- Three scopes one inside of the other, of which the one between is closed. The last two requests
fail. -/
def nestedRequests : List Request :=
  [.push "program" none, .push "outer" (some 0), .push "inner" (some 1),
    .insert .symbols 0 (.builtin 0 "int"), .insert .symbols 2 (.builtin 1 "bool"),
    .insert .symbols (-1) (.builtin 2 "bool"), .close 1, .push "late" (some 1), .close 1]

theorem lookups_nearest_nested :
    let a := (Chronicle.ofRequests nestedRequests).arena
    a.slot? (-1) = some 2 ∧
      a.lookup (-1) "bool" = .ok (some (.builtin 2 "bool")) ∧
      a.lookup (-1) "int" = .error (.scope (.closed 1)) ∧
      a.lookup 0 "bool" = .ok none := by
  intro a
  have hevents : (Chronicle.ofRequests nestedRequests).events =
      [.closed 1, .inserted .symbols 2 (.builtin 2 "bool"), .inserted .symbols 2 (.builtin 1 "bool"),
        .inserted .symbols 0 (.builtin 0 "int"), .opened 2 (some 1), .opened 1 (some 0),
        .opened 0 none] := rfl
  have hlast : a.slot? (-1) = some 2 := rfl
  have hinner : Event.closed 2 ∉ (Chronicle.ofRequests nestedRequests).events := by simp [hevents]
  have houter : Event.closed 0 ∉ (Chronicle.ofRequests nestedRequests).events := by simp [hevents]
  have hroot : Encloses (Chronicle.ofRequests nestedRequests).events 0 [0] :=
    .root (by simp [hevents])
  have hpath : Encloses (Chronicle.ofRequests nestedRequests).events 2 [2, 1, 0] :=
    .child (by simp [hevents]) (.child (by simp [hevents]) hroot)
  obtain ⟨-, -, -, hlookups⟩ := lookups_nearest nestedRequests
  obtain ⟨-, -, hbool⟩ := hlookups (-1) 2 "bool" hlast hinner
  obtain ⟨-, -, hint⟩ := hlookups (-1) 2 "int" hlast hinner
  obtain ⟨-, -, hnone⟩ := hlookups 0 0 "bool" rfl houter
  refine ⟨hlast, ((hbool _ hpath).1 _).mpr ⟨[], 2, [1, 0], rfl, nofun, hinner, rfl⟩,
    ((hint _ hpath).2.2 _).mpr ⟨[2], 1, [0], rfl, fun j hj => ?_, by simp [hevents], rfl⟩,
    (hnone _ hroot).2.1.mpr fun j hj => ?_⟩
  · cases List.mem_singleton.mp hj
    exact ⟨hinner, rfl⟩
  · cases List.mem_singleton.mp hj
    exact ⟨houter, rfl⟩

end LittleLang.Arena
