import LittleLang.Proofs.Analysis.Scopes

/-!
# Arenas side by side

A walk that keeps the scope of a function open after it is left works on another arena than one that
closes it. `Matched path kept a b` is what the two have in common while both stand at the end of a
path of scopes: on the path they are the same. Off the path the first arena has nothing open, and
the second one nothing but the kept scope, whose parent is on the path. There is one lemma for each
operation on arenas: both succeed and stay matched. -/

namespace LittleLang.Arena

/-! ## Paths -/

/-- The scope at an index with all that enclose it, the innermost first. -/
inductive Path (a : Arena) : List Nat → Prop where
  | root {i : Nat} {scope : Scope} : a.slots[i]? = some (some scope) → scope.parent = none →
      Path a [i]
  | child {i p : Nat} {rest : List Nat} {scope : Scope} : a.slots[i]? = some (some scope) →
      scope.parent = some (p : Int) → p < i → Path a (p :: rest) → Path a (i :: p :: rest)

namespace Path

variable {a b : Arena} {path rest : List Nat} {i : Nat}

theorem get (h : a.Path path) {j : Nat} (hj : j ∈ path) :
    ∃ scope, a.slots[j]? = some (some scope) := by
  induction h with
  | root hs _ => exact ⟨_, List.mem_singleton.mp hj ▸ hs⟩
  | child hs _ _ _ ih =>
    rcases List.mem_cons.mp hj with rfl | hj
    · exact ⟨_, hs⟩
    · exact ih hj

theorem lt (h : a.Path path) {j : Nat} (hj : j ∈ path) : j < a.slots.size := by
  obtain ⟨scope, hs⟩ := h.get hj
  obtain ⟨hlt, -⟩ := Array.getElem?_eq_some_iff.mp hs
  exact hlt

theorem tail {p : Nat} (h : a.Path (i :: p :: rest)) : a.Path (p :: rest) := by
  cases h with
  | child _ _ _ h => exact h

theorem lt_head {p : Nat} (h : a.Path (i :: p :: rest)) {j : Nat} (hj : j ∈ p :: rest) :
    j < i := by
  induction rest generalizing i p with
  | nil =>
    cases h with
    | child _ _ hlt _ => exact List.mem_singleton.mp hj ▸ hlt
  | cons q rest ih =>
    cases h with
    | child _ _ hlt h =>
      rcases List.mem_cons.mp hj with rfl | hj
      · exact hlt
      · exact Nat.lt_trans (ih h hj) hlt

/-- A path stays one, if its slots keep a scope with the same parent. -/
theorem imp (h : a.Path path) (hslots : ∀ j ∈ path, ∀ scope, a.slots[j]? = some (some scope) →
    ∃ scope', b.slots[j]? = some (some scope') ∧ scope'.parent = scope.parent) : b.Path path := by
  induction h with
  | root hs hp =>
    obtain ⟨scope', hs', hp'⟩ := hslots _ (by simp) _ hs
    exact .root hs' (hp'.trans hp)
  | child hs hp hlt _ ih =>
    obtain ⟨scope', hs', hp'⟩ := hslots _ (by simp) _ hs
    exact .child hs' (hp'.trans hp) hlt (ih fun j hj => hslots j (List.mem_cons_of_mem _ hj))

theorem isOpen (h : a.Path (i :: rest)) : a.Open i := by
  generalize hp : i :: rest = path at h
  induction h generalizing i rest with
  | root hs hnone =>
    obtain ⟨rfl, -⟩ := List.cons.inj hp
    exact .root hs hnone
  | child hs hsome hlt _ ih =>
    obtain ⟨rfl, rfl⟩ := List.cons.inj hp
    exact .child hs hsome hlt (ih rfl)

theorem lookupFrom_eq (h : a.Path (i :: rest)) (hsame : ∀ j ∈ i :: rest, b.slots[j]? = a.slots[j]?)
    {scope : Scope} (hs : a.slots[i]? = some (some scope)) (name : String) (rounds : Nat) :
    b.lookupFrom name rounds scope = a.lookupFrom name rounds scope := by
  induction rounds generalizing i rest scope with
  | zero => rfl
  | succ rounds ih =>
    unfold lookupFrom
    cases scope.symbols.get? name with
    | some symbol => rfl
    | none =>
      unfold parentScope
      cases h with
      | root hs' hp =>
        cases hs.symm.trans hs'
        rw [hp]
        rfl
      | @child _ p _ _ hs' hp hlt hpath =>
        cases hs.symm.trans hs'
        obtain ⟨parent, hps⟩ := hpath.get (List.mem_cons_self)
        have hps' := (hsame p (by simp)).trans hps
        rw [hp]
        simp only [fetch_eq hps, fetch_eq hps']
        exact ih hpath (fun j hj => hsame j (List.mem_cons_of_mem _ hj)) hps

end Path

/-! ## Operations on a slot -/

section

variable {a : Arena} {i j : Nat} {scope : Scope}

theorem getElem?_set (h : i < a.slots.size) (slot : Option Scope) :
    (a.slots.setIfInBounds i slot)[j]? = if i = j then some slot else a.slots[j]? := by
  rw [Array.getElem?_setIfInBounds, if_pos h]

theorem isOpen_iff : a.isOpen j = true ↔ ∃ scope, a.slots[j]? = some (some scope) := by
  unfold isOpen
  cases h : a.slots[j]? with
  | none => simp [h]
  | some slot => cases slot <;> simp [h]

end

structure Undisturbed (a a' : Arena) : Prop where
  size : a'.slots.size = a.slots.size
  isOpen : ∀ j : Nat, a'.isOpen j = a.isOpen j

theorem Undisturbed.refl (a : Arena) : Undisturbed a a :=
  ⟨rfl, fun _ => rfl⟩

theorem Undisturbed.trans {a₁ a₂ a₃ : Arena} (h : Undisturbed a₁ a₂) (h' : Undisturbed a₂ a₃) :
    Undisturbed a₁ a₃ :=
  ⟨h'.size.trans h.size, fun j => (h'.isOpen j).trans (h.isOpen j)⟩

theorem undisturbed_update {a : Arena} {i : Nat} {scope : Scope}
    (h : a.slots[i]? = some (some scope)) (scope' : Scope) :
    Undisturbed a { a with slots := a.slots.setIfInBounds i (some scope') } := by
  obtain ⟨hlt, -⟩ := Array.getElem?_eq_some_iff.mp h
  refine ⟨by simp, fun j => Bool.eq_iff_iff.mpr ?_⟩
  rw [isOpen_iff, isOpen_iff]
  dsimp only
  rw [getElem?_set hlt]
  split
  · next hij =>
    subst hij
    simp [h]
  · rfl

/-! ## Matched arenas -/

/-- The arenas are the same on the path. Off the path nothing is open in the first, and nothing but
the kept scope in the second. -/
structure Matched (path : List Nat) (kept : Option Nat) (a b : Arena) : Prop where
  enclosed : a.Path path
  same : ∀ j ∈ path, b.slots[j]? = a.slots[j]?
  size : b.slots.size = a.slots.size
  nextId : b.nextId = a.nextId
  first : ∀ j scope, a.slots[j]? = some (some scope) → j ∈ path
  second : ∀ j scope, b.slots[j]? = some (some scope) → j ∈ path ∨ kept = some j
  last : ∀ l, kept = some l → l ∉ path ∧
    ∃ scope p, b.slots[l]? = some (some scope) ∧ scope.parent = some ((p : Nat) : Int) ∧ p ∈ path

namespace Matched

variable {a b : Arena} {path rest : List Nat} {kept : Option Nat} {i : Nat}

theorem fetch (h : Matched (i :: rest) kept a b) :
    ∃ scope, a.fetch i = .ok scope ∧ b.fetch i = .ok scope := by
  obtain ⟨scope, hs⟩ := h.enclosed.get List.mem_cons_self
  exact ⟨scope, fetch_eq hs, fetch_eq ((h.same i List.mem_cons_self).trans hs)⟩

theorem lookup (h : Matched (i :: rest) kept a b) (name : String) :
    ∃ found, a.lookup i name = .ok found ∧ b.lookup i name = .ok found := by
  obtain ⟨found, hfound⟩ := lookup_eq h.enclosed.isOpen name
  refine ⟨found, hfound, hfound ▸ ?_⟩
  obtain ⟨scope, hs⟩ := h.enclosed.get List.mem_cons_self
  unfold Arena.lookup
  rw [fetch_eq hs, fetch_eq ((h.same i List.mem_cons_self).trans hs), h.size]
  exact h.enclosed.lookupFrom_eq h.same hs name _

theorem lookupVariable (h : Matched (i :: rest) kept a b) (name : String) :
    ∃ found, a.lookupVariable i name = .ok found ∧ b.lookupVariable i name = .ok found := by
  obtain ⟨scope, hs, hs'⟩ := h.fetch
  unfold Arena.lookupVariable
  rw [hs, hs']
  exact ⟨_, rfl, rfl⟩

theorem create (h : Matched path kept a b) (make : Nat → Symbol) :
    (b.create make).1 = (a.create make).1 ∧
      Matched path kept (a.create make).2 (b.create make).2 := by
  refine ⟨congrArg make h.nextId, ?_⟩
  exact ⟨h.enclosed.imp fun _ _ scope hs => ⟨scope, hs, rfl⟩, h.same, h.size,
    congrArg (· + 1) h.nextId, h.first, h.second, h.last⟩

theorem update (h : Matched (i :: rest) kept a b) {change : Scope → Scope}
    (hparent : ∀ scope, (change scope).parent = scope.parent) :
    ∃ a' b', a.update i change = .ok a' ∧ b.update i change = .ok b' ∧
      Matched (i :: rest) kept a' b' ∧ Undisturbed a a' ∧ Undisturbed b b' := by
  obtain ⟨scope, hs⟩ := h.enclosed.get List.mem_cons_self
  have hs' := (h.same i List.mem_cons_self).trans hs
  have hlt : i < a.slots.size := h.enclosed.lt List.mem_cons_self
  have hlt' : i < b.slots.size := h.size ▸ hlt
  refine ⟨_, _, update_ok hs change, update_ok hs' change, ?_, undisturbed_update hs _,
    undisturbed_update hs' _⟩
  constructor
  case enclosed =>
    refine h.enclosed.imp fun j hj scope' hj' => ?_
    dsimp only
    rw [getElem?_set hlt]
    split
    · next hij =>
      subst hij
      cases hs.symm.trans hj'
      exact ⟨change scope, rfl, hparent scope⟩
    · exact ⟨scope', hj', rfl⟩
  case same =>
    intro j hj
    dsimp only
    rw [getElem?_set hlt, getElem?_set hlt', h.same j hj]
  case size => simp [h.size]
  case nextId => exact h.nextId
  case first =>
    intro j scope' hj
    dsimp only at hj
    rw [getElem?_set hlt] at hj
    split at hj
    · next hij => exact hij ▸ List.mem_cons_self
    · exact h.first j scope' hj
  case second =>
    intro j scope' hj
    dsimp only at hj
    rw [getElem?_set hlt'] at hj
    split at hj
    · next hij => exact .inl (hij ▸ List.mem_cons_self)
    · exact h.second j scope' hj
  case last =>
    intro l hl
    obtain ⟨hnot, scope', p, hl', hp, hmem⟩ := h.last l hl
    refine ⟨hnot, scope', p, ?_, hp, hmem⟩
    dsimp only
    rw [getElem?_set hlt', if_neg fun hil : i = l => hnot (hil ▸ List.mem_cons_self)]
    exact hl'

theorem add (h : Matched (i :: rest) kept a b) (kind : TableKind) (make : Nat → Symbol) :
    ∃ a' b', a.add kind i make = .ok a' ∧ b.add kind i make = .ok b' ∧
      Matched (i :: rest) kept a' b' ∧ Undisturbed a a' ∧ Undisturbed b b' := by
  obtain ⟨hsymbol, harenas⟩ := h.create make
  unfold Arena.add
  rw [hsymbol]
  obtain ⟨a', b', ha, hb, hmatch, hua, hub⟩ :=
    harenas.update fun scope => scope.parent_insert (a.create make).1 kind
  exact ⟨a', b', ha, hb, hmatch, ⟨hua.size, hua.isOpen⟩, ⟨hub.size, hub.isOpen⟩⟩

theorem addBuiltins (h : Matched (i :: rest) kept a b) :
    ∃ a' b', a.addBuiltins i = .ok a' ∧ b.addBuiltins i = .ok b' ∧
      Matched (i :: rest) kept a' b' ∧ Undisturbed a a' ∧ Undisturbed b b' := by
  unfold Arena.addBuiltins
  generalize builtinTypes = names
  induction names generalizing a b with
  | nil => exact ⟨a, b, rfl, rfl, h, .refl a, .refl b⟩
  | cons name names ih =>
    obtain ⟨a₁, b₁, ha, hb, h₁, hua, hub⟩ := h.add .symbols (.builtin · name)
    obtain ⟨a₂, b₂, ha', hb', h₂, hua', hub'⟩ := ih h₁
    rw [List.foldlM_cons, List.foldlM_cons, addSymbol_eq, addSymbol_eq, ha, hb]
    exact ⟨a₂, b₂, ha', hb', h₂, hua.trans hua', hub.trans hub'⟩

theorem push (h : Matched (i :: rest) kept a b) (name : String) :
    ∃ a' b', a.push name (some (i : Int)) = .ok (a.slots.size, a') ∧
      b.push name (some (i : Int)) = .ok (a.slots.size, b') ∧
      Matched (a.slots.size :: i :: rest) kept a' b' := by
  obtain ⟨scope, hs⟩ := h.enclosed.get List.mem_cons_self
  have hs' := (h.same i List.mem_cons_self).trans hs
  have hlt : i < a.slots.size := h.enclosed.lt List.mem_cons_self
  refine ⟨_, _, push_ok hs name, h.size ▸ push_ok hs' name, ?_⟩
  constructor
  case enclosed =>
    refine .child (getElem?_push a _) rfl hlt (h.enclosed.imp fun j hj scope' hj' => ⟨scope', ?_, rfl⟩)
    have hne : j ≠ a.slots.size := Nat.ne_of_lt (h.enclosed.lt hj)
    simp [Array.getElem?_push, hne, hj']
  case same =>
    intro j hj
    simp only [Array.getElem?_push, h.size]
    rcases List.mem_cons.mp hj with rfl | hj
    · simp
    · simp [h.same j hj]
  case size => simp [h.size]
  case nextId => exact h.nextId
  case first =>
    intro j scope' hj
    rw [Array.getElem?_push] at hj
    split at hj
    · next heq => exact heq ▸ List.mem_cons_self
    · exact List.mem_cons_of_mem _ (h.first j scope' hj)
  case second =>
    intro j scope' hj
    rw [Array.getElem?_push] at hj
    split at hj
    · next heq => exact .inl (heq.trans h.size ▸ List.mem_cons_self)
    · exact (h.second j scope' hj).imp_left (List.mem_cons_of_mem _)
  case last =>
    intro l hl
    obtain ⟨hnot, scope', p, hl', hp, hmem⟩ := h.last l hl
    obtain ⟨hlt', -⟩ := Array.getElem?_eq_some_iff.mp hl'
    have hne : l ≠ a.slots.size := by
      rw [← h.size]
      exact Nat.ne_of_lt hlt'
    refine ⟨by simpa [hne] using hnot, scope', p, ?_, hp, List.mem_cons_of_mem _ hmem⟩
    rw [Array.getElem?_push, if_neg (Nat.ne_of_lt hlt')]
    exact hl'

/-- The kept scope is not on the path, so it can be closed without a scope that a walk will come
back to. -/
theorem forget {l : Nat} (h : Matched path (some l) a b) :
    b.isOpen l = true ∧ ∃ parent b', b.close l = .ok (parent, b') ∧ Matched path none a b' := by
  obtain ⟨hnot, last, p, hlast, -⟩ := h.last l rfl
  obtain ⟨hlt, -⟩ := Array.getElem?_eq_some_iff.mp hlast
  refine ⟨isOpen_iff.mpr ⟨last, hlast⟩, _, _, close_ok hlast, h.enclosed, fun j hj => ?_,
    by simp [h.size], h.nextId, h.first, fun j scope hj => ?_, nofun⟩
  · dsimp only
    rw [getElem?_set hlt, if_neg fun hlj : l = j => hnot (hlj ▸ hj)]
    exact h.same j hj
  · dsimp only at hj
    rw [getElem?_set hlt] at hj
    split at hj
    · cases hj
    · next hne => exact .inl ((h.second j scope hj).resolve_right fun hl => hne (Option.some.inj hl))

/-- The first arena loses its innermost scope, which the second one keeps. -/
theorem close {p : Nat} (h : Matched (i :: p :: rest) none a b) :
    ∃ parent a', a.close i = .ok (parent, a') ∧ Matched (p :: rest) (some i) a' b := by
  obtain ⟨scope, hs, hparent, hup⟩ : ∃ scope, a.slots[i]? = some (some scope) ∧
      scope.parent = some ((p : Nat) : Int) ∧ a.Path (p :: rest) := by
    cases h.enclosed with
    | child hs hp _ hup => exact ⟨_, hs, hp, hup⟩
  have hs' := (h.same i List.mem_cons_self).trans hs
  have hlt : i < a.slots.size := h.enclosed.lt List.mem_cons_self
  have hnot : i ∉ p :: rest := fun hi => Nat.lt_irrefl i (h.enclosed.lt_head hi)
  have hkept (j : Nat) (hj : j ∈ p :: rest) :
      (a.slots.setIfInBounds i none)[j]? = a.slots[j]? := by
    rw [getElem?_set hlt, if_neg fun hij : i = j => hnot (hij ▸ hj)]
  refine ⟨_, _, close_ok hs, hup.imp fun j hj scope' hj' => ⟨scope', (hkept j hj).trans hj', rfl⟩,
    fun j hj => ?_, by simp [h.size], h.nextId, fun j scope' hj => ?_, fun j scope' hj => ?_,
    fun l hl => ?_⟩
  · exact (h.same j (List.mem_cons_of_mem _ hj)).trans (hkept j hj).symm
  · dsimp only at hj
    rw [getElem?_set hlt] at hj
    split at hj
    · cases hj
    · next hne => exact (List.mem_cons.mp (h.first j scope' hj)).resolve_left (Ne.symm hne)
  · have hj := (h.second j scope' hj).resolve_right nofun
    exact (List.mem_cons.mp hj).symm.imp_right fun hji => congrArg some hji.symm
  · cases hl
    exact ⟨hnot, scope, p, hs', hparent, List.mem_cons_self⟩

/-- In the first arena the scope at the end of the path is closed, in the second one the scope that
was kept so far; from then on it is the scope at the end of the path that is kept. -/
theorem leave {p : Nat} (h : Matched (i :: p :: rest) kept a b) :
    ∃ parent a' b', a.close i = .ok (parent, a') ∧ Matched (p :: rest) (some i) a' b' ∧
      ((kept = none ∧ b' = b) ∨
        ∃ l parent', kept = some l ∧ b.isOpen l = true ∧ b.close l = .ok (parent', b')) := by
  cases kept with
  | none =>
    obtain ⟨parent, a', hclose, hmatched⟩ := h.close
    exact ⟨parent, a', b, hclose, hmatched, .inl ⟨rfl, rfl⟩⟩
  | some l =>
    obtain ⟨hopen, parent', b', hclose', hnone⟩ := h.forget
    obtain ⟨parent, a', hclose, hmatched⟩ := hnone.close
    exact ⟨parent, a', b', hclose, hmatched, .inr ⟨l, parent', rfl, hopen, hclose'⟩⟩

end Matched

end LittleLang.Arena
