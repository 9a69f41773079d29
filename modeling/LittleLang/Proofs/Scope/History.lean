import LittleLang.Proofs.Analysis.Live

/-!
# The history of an arena

An arena is asked to open and close scopes and to put symbols into their tables. What it did is a
history of events, the latest first (`Arena.Chronicle`); a request that fails leaves no event. An
event names the slot that it is about, while a request may count its index from the end.

The history says all there is to know about the arena: which scopes were opened, inside of which
ones, which of them were closed, and what was put into each (`Arena.Faithful`). `Arena.Does` has one
rule for each kind of event, and each of them keeps this true. -/

namespace LittleLang

namespace Arena

/-! ## Requests and events -/

/-- What an arena is asked to do. A parent is given by its index from the start, as opening a scope
gives it. -/
inductive Request where
  | push (name : String) (parent : Option Nat)
  | close (i : Int)
  | insert (kind : TableKind) (i : Int) (symbol : Symbol)

inductive Event where
  | opened (i : Nat) (parent : Option Nat)
  | closed (i : Nat)
  | inserted (kind : TableKind) (i : Nat) (symbol : Symbol)

def parentIndex (parent : Option Nat) : Option Int :=
  parent.map fun p : Nat => (p : Int)

theorem parentIndex_eq {parent : Option Nat} {p : Nat} (h : parentIndex parent = some (p : Int)) :
    parent = some p := by
  obtain ⟨q, rfl, hq⟩ := Option.map_eq_some_iff.mp h
  exact congrArg some (Int.ofNat.inj hq)

def perform (a : Arena) : Request → Except Failure (Event × Arena)
  | .push name parent => do
    let (i, a') ← a.push name (parentIndex parent)
    return (.opened i parent, a')
  | .close i => do
    let (n, _) ← a.locate i
    let (_, a') ← a.close i
    return (.closed n, a')
  | .insert kind i symbol => do
    let (n, _) ← a.locate i
    let a' ← match kind with
      | .symbols => a.update i (·.insertSymbol symbol)
      | .variables => a.update i (·.insertVariable symbol)
    return (.inserted kind n symbol, a')

/-- The slot that a request is about: a new one, or that of the scope that it names. -/
def Request.target? (a : Arena) : Request → Option Nat
  | .push _ _ => some a.slots.size
  | .close i | .insert _ i _ => a.slot? i

namespace Event

def slot : Event → Nat
  | opened i _ | closed i | inserted _ i _ => i

def opened? : Event → Option Nat
  | opened i _ => some i
  | closed _ | inserted .. => none

/-- The symbol that was put into a table of a scope under a name. -/
def insertedUnder? (kind : TableKind) (i : Nat) (name : String) : Event → Option Symbol
  | inserted kind' j symbol =>
    if j = i ∧ kind' = kind ∧ symbol.name = name then some symbol else none
  | opened .. | closed _ => none

end Event

/-- The latest symbol that was put into a table of a scope under a name. -/
def latest (events : List Event) (kind : TableKind) (i : Nat) (name : String) : Option Symbol :=
  events.findSome? (Event.insertedUnder? kind i name)

section

variable {events : List Event} {e : Event} {kind : TableKind} {i : Nat} {name : String}

theorem latest_cons_of_none (h : e.insertedUnder? kind i name = none) :
    latest (e :: events) kind i name = latest events kind i name := by
  unfold latest
  rw [List.findSome?_cons, h]

/-- What happens in other slots makes no difference. -/
theorem latest_cons_of_slot_ne (h : e.slot ≠ i) :
    latest (e :: events) kind i name = latest events kind i name := by
  refine latest_cons_of_none ?_
  cases e with
  | inserted _ j _ => exact if_neg fun hand => h hand.1
  | _ => rfl

theorem latest_cons_inserted (kind' : TableKind) (symbol : Symbol) :
    latest (.inserted kind' i symbol :: events) kind i name =
      if kind' = kind ∧ symbol.name = name then some symbol else latest events kind i name := by
  by_cases h : kind' = kind ∧ symbol.name = name
  · simp [latest, Event.insertedUnder?, h]
  · rw [if_neg h]
    exact latest_cons_of_none (if_neg fun hand => h hand.2)

theorem latest_of_slots_ne (h : ∀ e ∈ events, e.slot ≠ i) : latest events kind i name = none := by
  induction events with
  | nil => rfl
  | cons e events ih =>
    rw [latest_cons_of_slot_ne (h e (by simp)), ih fun e he => h e (by simp [he])]

theorem mem_of_opened?_eq_none {parent : Option Nat} (he : e.opened? = none)
    (h : Event.opened i parent ∈ e :: events) : Event.opened i parent ∈ events := by
  rcases List.mem_cons.mp h with rfl | h
  · cases he
  · exact h

end

/-! ## What an arena does -/

/-- An event with what it does to the arena. -/
inductive Does (a : Arena) : Event → Arena → Prop where
  | opened {name : String} {level : Int} {parent : Option Nat} :
      (parent = none → level = 0) →
      (∀ p, parent = some p → ∃ outer, a.slots[p]? = some (some outer) ∧ level = outer.level + 1) →
      Does a (.opened a.slots.size parent)
        { a with slots := a.slots.push (some ⟨name, level, parentIndex parent, {}, {}⟩) }
  | closed {n : Nat} {scope : Scope} : a.slots[n]? = some (some scope) →
      Does a (.closed n) { a with slots := a.slots.setIfInBounds n none }
  | inserted {n : Nat} {scope : Scope} (kind : TableKind) (symbol : Symbol) :
      a.slots[n]? = some (some scope) →
      Does a (.inserted kind n symbol)
        { a with slots := a.slots.setIfInBounds n (some (scope.insert symbol kind)) }

section

variable {a a' : Arena} {i : Int} {n : Nat} {e : Event} {scope : Scope}

theorem exists_of_bind_eq_ok {ε α β : Type} {x : Except ε α} {f : α → Except ε β} {b : β}
    (h : x >>= f = .ok b) : ∃ found, x = .ok found ∧ f found = .ok b := by
  cases x with
  | error e => cases h
  | ok found => exact ⟨found, rfl, h⟩

theorem does_push {name : String} {parent : Option Nat}
    (h : a.push name (parentIndex parent) = .ok (n, a')) : a.Does (.opened n parent) a' := by
  cases parent with
  | none =>
    cases h
    exact .opened (fun _ => rfl) nofun
  | some p =>
    cases hl : a.locate p with
    | error fault =>
      simp only [push, parentIndex, Option.map_some, fetch, hl] at h
      cases h
    | ok found =>
      obtain ⟨k, outer⟩ := found
      obtain ⟨hslot, hs⟩ := locate_cases hl
      obtain rfl := slot?_natCast hslot
      rw [parentIndex, Option.map_some, push_ok hs] at h
      cases h
      refine .opened nofun fun q hq => ?_
      cases hq
      exact ⟨outer, hs, rfl⟩

/-- A request that does not fail makes an event in the slot that it is about. -/
theorem does_of_perform {request : Request} (h : a.perform request = .ok (e, a')) :
    a.Does e a' ∧ request.target? a = some e.slot := by
  cases request with
  | push name parent =>
    obtain ⟨⟨i, arena⟩, hpush, ⟨⟩⟩ := exists_of_bind_eq_ok h
    exact ⟨does_push hpush, congrArg some (push_inv hpush).1.symm⟩
  | close i =>
    obtain ⟨⟨n, scope⟩, hl, h⟩ := exists_of_bind_eq_ok h
    simp only [close, hl] at h
    cases h
    obtain ⟨hi, hs⟩ := locate_cases hl
    exact ⟨.closed hs, hi⟩
  | insert kind i symbol =>
    obtain ⟨⟨n, scope⟩, hl, h⟩ := exists_of_bind_eq_ok h
    simp only [update, hl] at h
    obtain ⟨hi, hs⟩ := locate_cases hl
    cases kind <;> cases h
    · exact ⟨.inserted .symbols symbol hs, hi⟩
    · exact ⟨.inserted .variables symbol hs, hi⟩

theorem Does.getElem?_eq (h : a.Does e a') {j : Nat} (hj : e.slot ≠ j) :
    a'.slots[j]? = a.slots[j]? := by
  cases h with
  | opened _ _ => exact (Array.getElem?_push).trans (if_neg (Ne.symm hj))
  | closed _ => exact Array.getElem?_setIfInBounds_ne hj
  | inserted _ _ _ => exact Array.getElem?_setIfInBounds_ne hj

end

/-! ## The history tells all -/

/-- The history tells all about a scope: inside of which one it was opened, and what is found in its
tables. -/
structure Describes (events : List Event) (i : Nat) (scope : Scope) : Prop where
  opened : ∃ parent, Event.opened i parent ∈ events
  parent : ∀ parent, Event.opened i parent ∈ events → scope.parent = parentIndex parent
  table : ∀ kind name, (scope.table kind).get? name = latest events kind i name

theorem Describes.cons_of_slot_ne {events : List Event} {e : Event} {i : Nat} {scope : Scope}
    (h : Describes events i scope) (hne : e.slot ≠ i) : Describes (e :: events) i scope := by
  have hmem {parent : Option Nat} (hm : Event.opened i parent ∈ e :: events) :
      Event.opened i parent ∈ events := by
    rcases List.mem_cons.mp hm with rfl | hm
    · exact absurd rfl hne
    · exact hm
  obtain ⟨parent, hopened⟩ := h.opened
  refine ⟨⟨parent, List.mem_cons_of_mem _ hopened⟩, fun _ hm => h.parent _ (hmem hm), ?_⟩
  intro kind name
  rw [latest_cons_of_slot_ne hne]
  exact h.table kind name

/-- The history tells all about an arena. -/
structure Faithful (events : List Event) (a : Arena) : Prop where
  /-- The slots were opened one after another, each of them once. -/
  opened : events.filterMap Event.opened? = (List.range a.slots.size).reverse
  slot_lt : ∀ e ∈ events, e.slot < a.slots.size
  /-- A scope is opened after its parent. -/
  parent_lt : ∀ i p, Event.opened i (some p) ∈ events → p < i
  describes : ∀ i scope, a.slots[i]? = some (some scope) → Describes events i scope
  closed_iff : ∀ i, a.slots[i]? = some none ↔ Event.closed i ∈ events
  level_root : ∀ (i : Nat) (scope : Scope), a.slots[i]? = some (some scope) →
    scope.parent = none → scope.level = 0
  /-- A scope is one level below its parent, if that is still open. -/
  level_eq : ∀ (i p : Nat) (scope outer : Scope), a.slots[i]? = some (some scope) →
    scope.parent = some (p : Int) → a.slots[p]? = some (some outer) → scope.level = outer.level + 1

namespace Faithful

variable {events : List Event} {a a' : Arena} {n : Nat} {scope : Scope}

theorem empty : Faithful [] {} :=
  ⟨rfl, nofun, nofun, nofun, fun _ => ⟨nofun, nofun⟩, nofun, nofun⟩

theorem lt_of_slot {slot : Option Scope} (h : a.slots[n]? = some slot) : n < a.slots.size := by
  obtain ⟨hlt, -⟩ := Array.getElem?_eq_some_iff.mp h
  exact hlt

theorem not_closed (h : Faithful events a) (hs : a.slots[n]? = some (some scope)) :
    Event.closed n ∉ events := by
  intro hmem
  cases hs.symm.trans ((h.closed_iff n).mpr hmem)

theorem lt_of_parent (h : Faithful events a) {i p : Nat} (hs : a.slots[i]? = some (some scope))
    (hp : scope.parent = some (p : Int)) : p < i := by
  obtain ⟨parent, hopened⟩ := (h.describes i scope hs).opened
  obtain rfl := parentIndex_eq (((h.describes i scope hs).parent parent hopened).symm.trans hp)
  exact h.parent_lt i p hopened

theorem push (h : Faithful events a) {name : String} {level : Int} {parent : Option Nat}
    (hroot : parent = none → level = 0) (hparent : ∀ p, parent = some p →
      ∃ outer, a.slots[p]? = some (some outer) ∧ level = outer.level + 1) :
    Faithful (.opened a.slots.size parent :: events)
      { a with slots := a.slots.push (some ⟨name, level, parentIndex parent, {}, {}⟩) } := by
  have hfresh : ∀ e ∈ events, e.slot ≠ a.slots.size := fun e he => Nat.ne_of_lt (h.slot_lt e he)
  have hmem {i : Nat} {parent' : Option Nat}
      (hm : Event.opened i parent' ∈ Event.opened a.slots.size parent :: events) :
      (i = a.slots.size ∧ parent' = parent) ∨ Event.opened i parent' ∈ events := by
    rcases List.mem_cons.mp hm with hm | hm
    · cases hm
      exact .inl ⟨rfl, rfl⟩
    · exact .inr hm
  constructor
  case opened =>
    simp only [List.filterMap_cons, Event.opened?, h.opened, Array.size_push, List.range_succ]
    simp
  case slot_lt =>
    intro e he
    rw [Array.size_push]
    rcases List.mem_cons.mp he with rfl | he
    · exact Nat.lt_succ_self _
    · exact Nat.lt_succ_of_lt (h.slot_lt e he)
  case parent_lt =>
    intro i p hm
    rcases hmem hm with ⟨rfl, hp⟩ | hm
    · obtain ⟨outer, hs, -⟩ := hparent p hp.symm
      exact lt_of_slot hs
    · exact h.parent_lt i p hm
  case describes =>
    intro i scope hs
    rw [Array.getElem?_push] at hs
    split at hs
    · next hi =>
      cases hs
      refine ⟨⟨parent, by simp [hi]⟩, fun parent' hm => ?_, fun kind name => ?_⟩
      · rcases hmem hm with ⟨-, rfl⟩ | hm
        · rfl
        · exact absurd hi (hfresh _ hm)
      · rw [latest_cons_of_none rfl, latest_of_slots_ne (hi ▸ hfresh)]
        cases kind <;> rfl
    · next hi => exact (h.describes i scope hs).cons_of_slot_ne fun heq => hi heq.symm
  case closed_iff =>
    intro i
    rw [Array.getElem?_push]
    split
    · next hi =>
      refine ⟨nofun, fun hm => ?_⟩
      rcases List.mem_cons.mp hm with hm | hm
      · cases hm
      · exact absurd hi (hfresh _ hm)
    · rw [h.closed_iff i]
      simp
  case level_root =>
    intro i scope hs hp
    rw [Array.getElem?_push] at hs
    split at hs
    · cases hs
      exact hroot (Option.map_eq_none_iff.mp hp)
    · exact h.level_root i scope hs hp
  case level_eq =>
    intro i p scope outer hs hp ho
    rw [Array.getElem?_push] at hs
    split at hs
    · cases hs
      obtain ⟨outer', ho', hlevel⟩ := hparent p (parentIndex_eq hp)
      rw [Array.getElem?_push, if_neg (Nat.ne_of_lt (lt_of_slot ho'))] at ho
      cases ho'.symm.trans ho
      exact hlevel
    · have hlt := Nat.lt_trans (h.lt_of_parent hs hp) (lt_of_slot hs)
      rw [Array.getElem?_push, if_neg (Nat.ne_of_lt hlt)] at ho
      exact h.level_eq i p scope outer hs hp ho

/-- The slot of an open scope is set to another one, with an event that opens none. -/
theorem set (h : Faithful events a) {e : Event} (he : e.opened? = none)
    (hs : a.slots[e.slot]? = some (some scope)) {slot : Option Scope}
    (hdescribes : ∀ scope', slot = some scope' → Describes (e :: events) e.slot scope')
    (hkept : ∀ scope', slot = some scope' →
      scope'.parent = scope.parent ∧ scope'.level = scope.level)
    (hclosed : slot = none ↔ Event.closed e.slot = e) :
    Faithful (e :: events) { a with slots := a.slots.setIfInBounds e.slot slot } := by
  have hget (i : Nat) : (a.slots.setIfInBounds e.slot slot)[i]? =
      if e.slot = i then some slot else a.slots[i]? := getElem?_set (lt_of_slot hs) slot
  -- Each scope that is open has the parent and the level that it had before.
  have hbefore {i : Nat} {scope' : Scope}
      (hi : (a.slots.setIfInBounds e.slot slot)[i]? = some (some scope')) :
      ∃ before, a.slots[i]? = some (some before) ∧ scope'.parent = before.parent ∧
        scope'.level = before.level := by
    rw [hget] at hi
    split at hi
    · next heq => exact ⟨scope, heq ▸ hs, hkept scope' (Option.some.inj hi)⟩
    · exact ⟨scope', hi, rfl, rfl⟩
  constructor
  case opened => rw [List.filterMap_cons_none he, h.opened, Array.size_setIfInBounds]
  case slot_lt =>
    intro e' he'
    rw [Array.size_setIfInBounds]
    rcases List.mem_cons.mp he' with rfl | he'
    · exact lt_of_slot hs
    · exact h.slot_lt e' he'
  case parent_lt => exact fun i p hm => h.parent_lt i p (mem_of_opened?_eq_none he hm)
  case describes =>
    intro i scope' hi
    dsimp only at hi
    rw [hget] at hi
    split at hi
    · next heq => exact heq ▸ hdescribes scope' (Option.some.inj hi)
    · next hne => exact (h.describes i scope' hi).cons_of_slot_ne hne
  case closed_iff =>
    intro i
    dsimp only
    rw [hget]
    split
    · next heq =>
      subst heq
      rw [Option.some.injEq, hclosed, List.mem_cons, or_iff_left (h.not_closed hs)]
    · next hne =>
      rw [h.closed_iff i, List.mem_cons, or_iff_right]
      rintro rfl
      exact hne rfl
  case level_root =>
    intro i scope' hi hp
    obtain ⟨before, hi, hparent, hlevel⟩ := hbefore hi
    rw [hlevel]
    exact h.level_root i before hi (hparent ▸ hp)
  case level_eq =>
    intro i p scope' outer hi hp ho
    obtain ⟨before, hi, hparent, hlevel⟩ := hbefore hi
    obtain ⟨above, ho, -, hlevel'⟩ := hbefore ho
    rw [hlevel, hlevel']
    exact h.level_eq i p before above hi (hparent ▸ hp) ho

theorem insert (h : Faithful events a) (hs : a.slots[n]? = some (some scope)) (kind : TableKind)
    (symbol : Symbol) :
    Faithful (.inserted kind n symbol :: events)
      { a with slots := a.slots.setIfInBounds n (some (scope.insert symbol kind)) } := by
  have hold := h.describes n scope hs
  obtain ⟨parent, hopened⟩ := hold.opened
  have hnew : Describes (.inserted kind n symbol :: events) n (scope.insert symbol kind) := by
    refine ⟨⟨parent, List.mem_cons_of_mem _ hopened⟩, fun parent hm => ?_, fun kind' name => ?_⟩
    · rw [scope.parent_insert symbol kind]
      exact hold.parent parent (mem_of_opened?_eq_none rfl hm)
    · rw [scope.get?_table_insert, latest_cons_inserted, hold.table]
  refine h.set (e := .inserted kind n symbol) rfl hs ?_ ?_ ⟨nofun, nofun⟩
  · rintro _ ⟨⟩
    exact hnew
  · rintro _ ⟨⟩
    exact ⟨scope.parent_insert symbol kind, scope.level_insert symbol kind⟩

theorem does (h : Faithful events a) {e : Event} (hd : a.Does e a') : Faithful (e :: events) a' := by
  cases hd with
  | opened hroot hparent => exact h.push hroot hparent
  | @closed n _ hs => exact h.set (e := .closed n) rfl hs nofun nofun ⟨fun _ => rfl, fun _ => rfl⟩
  | inserted kind symbol hs => exact h.insert hs kind symbol

end Faithful

/-! ## Chronicles -/

/-- An arena with its history. -/
structure Chronicle where
  events : List Event := []
  arena : Arena := {}

namespace Chronicle

def serve (c : Chronicle) (request : Request) : Chronicle :=
  match c.arena.perform request with
  | .ok (e, arena) => ⟨e :: c.events, arena⟩
  | .error _ => c

def ofRequests (requests : List Request) : Chronicle :=
  requests.foldl serve {}

theorem serve_of_error {c : Chronicle} {request : Request} {failure : Failure}
    (h : c.arena.perform request = .error failure) : c.serve request = c := by
  unfold serve
  rw [h]

/-- A request changes no slot but the one that it is about. -/
theorem getElem?_serve {c : Chronicle} {request : Request} {j : Nat}
    (hj : request.target? c.arena ≠ some j) :
    (c.serve request).arena.slots[j]? = c.arena.slots[j]? := by
  unfold serve
  cases hp : c.arena.perform request with
  | ok result =>
    obtain ⟨hdoes, htarget⟩ := does_of_perform hp
    exact hdoes.getElem?_eq fun heq => hj (htarget.trans (congrArg some heq))
  | error _ => rfl

theorem faithful_serve {c : Chronicle} (h : Faithful c.events c.arena) (request : Request) :
    Faithful (c.serve request).events (c.serve request).arena := by
  unfold serve
  cases hp : c.arena.perform request with
  | ok result => exact h.does (does_of_perform hp).1
  | error _ => exact h

/-- Whatever an arena was asked for, the history tells all. -/
theorem faithful_ofRequests (requests : List Request) :
    Faithful (ofRequests requests).events (ofRequests requests).arena := by
  unfold ofRequests
  have hinit : Faithful ({} : Chronicle).events ({} : Chronicle).arena := .empty
  generalize ({} : Chronicle) = c at hinit
  induction requests generalizing c with
  | nil => exact hinit
  | cons request requests ih => exact ih _ (faithful_serve hinit request)

end Chronicle

end Arena

end LittleLang
