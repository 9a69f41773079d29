import LittleLang.Proofs.Analysis.Identities
import Mathlib.Data.List.Forall2

/-!
# Chains of scopes with the same symbols

Symbols of two analyses are never one and the same, so that they are compared by a pairing of their
identities. Two symbols are alike under a pairing if they have the same name and paired identities,
and, where they are functions, parameters of the same names and types (`Symbol.Alike`). Two chains
of scopes have the same symbols if they are alike scope by scope (`Arena.Chains`); their variables
are left open. A lookup of a name from the two ends finds symbols that are alike (`Chains.lookup`).

`Alongside` relates two analyses that stand at the ends of such chains. It is kept by a change to
the two last scopes (`Alongside.set`) and by a scope that is opened in both (`Alongside.push`). -/

namespace LittleLang

/-! ## Pairings -/

/-- Identities are paired one to one. -/
def OneToOne (R : Nat → Nat → Prop) : Prop :=
  ∀ x y x' y', R x y → R x' y' → (x = x' ↔ y = y')

/-- The pairing of those identities that have been given, and of those besides that are given from
now on, in their order. -/
def Arena.prolonged (R : Nat → Nat → Prop) (a b : Arena) (x y : Nat) : Prop :=
  (R x y ∧ x < a.nextId ∧ y < b.nextId) ∨ ∃ k, x = a.nextId + k ∧ y = b.nextId + k

theorem OneToOne.prolonged {R : Nat → Nat → Prop} (h : OneToOne R) (a b : Arena) :
    OneToOne (Arena.prolonged R a b) := by
  rintro x y x' y' (⟨hxy, hlt⟩ | ⟨k, rfl, rfl⟩) (⟨hxy', hlt'⟩ | ⟨k', rfl, rfl⟩)
  · exact h x y x' y' hxy hxy'
  · omega
  · omega
  · omega

/-! ## Symbols that are alike -/

namespace Symbol

structure AlikeType (R : Nat → Nat → Prop) (type type' : Symbol) : Prop where
  id : R type.id type'.id
  name : type'.name = type.name

structure AlikeVariable (R : Nat → Nat → Prop) (symbol symbol' : Symbol) : Prop where
  name : symbol'.name = symbol.name
  type : symbol.type?.Rel (AlikeType R) symbol'.type?

/-- Types or functions of one name, functions with the same parameters. -/
structure Alike (R : Nat → Nat → Prop) (symbol symbol' : Symbol) : Prop
    extends AlikeType R symbol symbol' where
  parameters : symbol.parameters?.Rel (List.Forall₂ (AlikeVariable R)) symbol'.parameters?

section

variable {R R' : Nat → Nat → Prop} {symbol symbol' : Symbol}

theorem rel_imp {α : Type} {S S' : α → α → Prop} {x y : Option α} (h : x.Rel S y)
    (hS : ∀ a b, x = some a → y = some b → S a b → S' a b) : x.Rel S' y := by
  cases h with
  | some h => exact .some (hS _ _ rfl rfl h)
  | none => exact .none

section

variable {m n : Nat} (hR : ∀ x y, R x y → x < m → y < n → R' x y)

include hR

theorem AlikeVariable.within (h : AlikeVariable R symbol symbol') (hs : symbol.TypeBelow m)
    (hs' : symbol'.TypeBelow n) : AlikeVariable R' symbol symbol' := by
  refine ⟨h.name, rel_imp h.type fun type type' htype htype' halike => ?_⟩
  exact ⟨hR _ _ halike.id (hs type htype) (hs' type' htype'), halike.name⟩

theorem forall₂_within {ps ps' : List Symbol} (h : ps.Forall₂ (AlikeVariable R) ps')
    (hps : ∀ p ∈ ps, p.TypeBelow m) (hps' : ∀ p ∈ ps', p.TypeBelow n) :
    ps.Forall₂ (AlikeVariable R') ps' := by
  induction h with
  | nil => exact .nil
  | cons hp _ ih =>
    rw [List.forall_mem_cons] at hps hps'
    exact .cons (hp.within hR hps.1 hps'.1) (ih hps.2 hps'.2)

/-- Symbols are alike under any pairing of those identities that they are told by. -/
theorem Alike.within (h : Alike R symbol symbol') (hs : symbol.Below m) (hs' : symbol'.Below n) :
    Alike R' symbol symbol' := by
  refine ⟨⟨hR _ _ h.id hs.id hs'.id, h.name⟩,
    rel_imp h.parameters fun ps ps' hps hps' halike => ?_⟩
  exact forall₂_within hR halike (hs.parameters ps hps) (hs'.parameters ps' hps')

end

theorem AlikeVariable.typeName_eq (h : AlikeVariable R symbol symbol') :
    symbol'.typeName = symbol.typeName := by
  have htype := h.type
  unfold typeName
  generalize symbol.type? = type at htype
  generalize symbol'.type? = type' at htype
  cases htype with
  | some htype => exact htype.name
  | none => rfl

theorem same_eq (hR : OneToOne R) {left left' right right' : Symbol}
    (hleft : AlikeType R left left') (hright : AlikeType R right right') :
    left'.same right' = left.same right := by
  have hiff := hR _ _ _ _ hleft.id hright.id
  unfold same
  rw [Bool.eq_iff_iff, beq_iff_eq, beq_iff_eq]
  exact hiff.symm

theorem same?_eq (hR : OneToOne R) {left left' right right' : Option Symbol}
    (hleft : left.Rel (AlikeType R) left') (hright : right.Rel (AlikeType R) right') :
    same? left' right' = same? left right := by
  cases hleft with
  | none =>
    cases hright with
    | none => rfl
    | some hright => rfl
  | some hleft =>
    cases hright with
    | none => rfl
    | some hright => exact same_eq hR hleft hright

end

end Symbol

open LittleLang.Symbol

/-- Tables of one and the same names, with entries that are alike. -/
def Table.Alike {α : Type} (S : α → α → Prop) (t t' : Table α) : Prop :=
  ∀ name, (t.get? name).Rel S (t'.get? name)

namespace Table.Alike

variable {α : Type} {S : α → α → Prop} {t t' : Table α}

theorem contains_eq (h : Table.Alike S t t') (name : String) :
    t'.contains name = t.contains name := by
  have hname := h name
  unfold contains
  generalize t.get? name = x at hname
  generalize t'.get? name = x' at hname
  cases hname with
  | some _ => rfl
  | none => rfl

theorem self (h : ∀ entry ∈ t.entries, S entry.2 entry.2) : Table.Alike S t t := by
  intro name
  cases hname : t.get? name with
  | none => exact .none
  | some a =>
    obtain ⟨before, after, hentries, -⟩ := List.lookup_eq_some_iff.mp hname
    exact .some (h (name, a) (by simp [hentries]))

theorem insert (h : Table.Alike S t t') (name : String) {a a' : α} (ha : S a a') :
    Table.Alike S (t.insert name a) (t'.insert name a') := by
  intro key
  rw [get?_insert, get?_insert]
  split
  · exact .some ha
  · exact h key

end Table.Alike

/-! ## Chains -/

namespace Arena

section

variable {a : Arena} {i : Nat} {name : String} {rounds : Nat} {scope : Scope}
  {found : Option Symbol}

theorem lookupFrom_some {symbol : Symbol} (hsymbol : scope.symbols.get? name = some symbol)
    (h : a.lookupFrom name (rounds + 1) scope = .ok found) : found = some symbol := by
  unfold lookupFrom at h
  simp only [hsymbol] at h
  cases h
  rfl

theorem Path.not_mem {rest : List Nat} (h : a.Path (i :: rest)) : i ∉ rest := by
  cases rest with
  | nil => exact List.not_mem_nil
  | cons p rest => exact fun hmem => Nat.lt_irrefl i (h.lt_head hmem)

theorem Path.lookup_root (h : a.Path [i]) (hs : a.slots[i]? = some (some scope))
    (hsymbol : scope.symbols.get? name = none)
    (hfound : a.lookupFrom name (rounds + 1) scope = .ok found) : found = none := by
  cases h with
  | root hs' hp =>
    cases hs.symm.trans hs'
    unfold lookupFrom at hfound
    simp only [hsymbol, parentScope, hp] at hfound
    cases hfound
    rfl

/-- A lookup that does not find a symbol in a scope goes on in the one that encloses it. -/
theorem Path.lookup_up {p : Nat} {rest : List Nat} (h : a.Path (i :: p :: rest))
    (hs : a.slots[i]? = some (some scope)) (hsymbol : scope.symbols.get? name = none)
    (hfound : a.lookupFrom name (rounds + 1) scope = .ok found) :
    ∃ parent, a.slots[p]? = some (some parent) ∧ a.lookupFrom name rounds parent = .ok found := by
  cases h with
  | child hs' hp _ hup =>
    cases hs.symm.trans hs'
    obtain ⟨parent, hparent⟩ := hup.get List.mem_cons_self
    unfold lookupFrom at hfound
    simp only [hsymbol, parentScope, hp, fetch_eq hparent] at hfound
    exact ⟨parent, hparent, hfound⟩

end

def SameSymbols (R : Nat → Nat → Prop) (a b : Arena) (i j : Nat) : Prop :=
  ∃ x y, a.slots[i]? = some (some x) ∧ b.slots[j]? = some (some y) ∧
    x.symbols.Alike (Alike R) y.symbols

/-- Two paths of scopes with the same symbols, scope by scope. -/
structure Chains (R : Nat → Nat → Prop) (a b : Arena) (path path' : List Nat) : Prop where
  first : a.Path path
  second : b.Path path'
  symbols : path.Forall₂ (SameSymbols R a b) path'

namespace Chains

variable {R : Nat → Nat → Prop} {a b a' b' : Arena} {i j : Nat} {path path' rest rest' : List Nat}

theorem prolonged (h : Chains R a b path path') (ha : a.Given) (hb : b.Given) :
    Chains (Arena.prolonged R a b) a b path path' := by
  refine ⟨h.first, h.second, h.symbols.imp ?_⟩
  rintro i j ⟨x, y, hx, hy, hsymbols⟩
  refine ⟨x, y, hx, hy, fun name => rel_imp (hsymbols name) fun symbol symbol' hs hs' halike => ?_⟩
  exact halike.within (fun _ _ hR hlt hlt' => .inl ⟨hR, hlt, hlt'⟩) (ha i x hx name symbol hs)
    (hb j y hy name symbol' hs')

theorem symbols_of_slots (h : path.Forall₂ (SameSymbols R a b) path')
    (ha : ∀ k ∈ path, a'.slots[k]? = a.slots[k]?) (hb : ∀ k ∈ path', b'.slots[k]? = b.slots[k]?) :
    path.Forall₂ (SameSymbols R a' b') path' := by
  induction h with
  | nil => exact .nil
  | cons hsame _ ih =>
    obtain ⟨x, y, hx, hy, hxy⟩ := hsame
    refine .cons ⟨x, y, (ha _ List.mem_cons_self).trans hx, (hb _ List.mem_cons_self).trans hy, hxy⟩
      (ih (fun k hk => ha k (List.mem_cons_of_mem _ hk))
        fun k hk => hb k (List.mem_cons_of_mem _ hk))

theorem of_slots (h : Chains R a b path path') (ha : ∀ k ∈ path, a'.slots[k]? = a.slots[k]?)
    (hb : ∀ k ∈ path', b'.slots[k]? = b.slots[k]?) : Chains R a' b' path path' :=
  ⟨h.first.imp fun k hk scope hs => ⟨scope, (ha k hk).trans hs, rfl⟩,
    h.second.imp fun k hk scope hs => ⟨scope, (hb k hk).trans hs, rfl⟩,
    symbols_of_slots h.symbols ha hb⟩

theorem tail {p q : Nat} (h : Chains R a b (i :: p :: rest) (j :: q :: rest')) :
    Chains R a b (p :: rest) (q :: rest') := by
  cases h.symbols with
  | cons _ hsymbols => exact ⟨h.first.tail, h.second.tail, hsymbols⟩

theorem get (h : Chains R a b (i :: rest) (j :: rest')) : SameSymbols R a b i j := by
  cases h.symbols with
  | cons hsame _ => exact hsame

/-- Lookups go the same way in both arenas: they find a symbol in two scopes at once, or go on. -/
theorem lookupFrom (h : Chains R a b (i :: rest) (j :: rest')) {x y : Scope}
    (hx : a.slots[i]? = some (some x)) (hy : b.slots[j]? = some (some y)) {name : String}
    {rounds rounds' : Nat} {found found' : Option Symbol}
    (hfound : a.lookupFrom name rounds x = .ok found)
    (hfound' : b.lookupFrom name rounds' y = .ok found') : found.Rel (Alike R) found' := by
  induction rounds generalizing i j rest rest' x y rounds' with
  | zero => cases hfound
  | succ rounds ih =>
    cases rounds' with
    | zero => cases hfound'
    | succ rounds' =>
      obtain ⟨x₁, y₁, hx₁, hy₁, hsymbols⟩ := h.get
      cases hx.symm.trans hx₁
      cases hy.symm.trans hy₁
      have hname := hsymbols name
      generalize hsymbol : x.symbols.get? name = symbol at hname
      generalize hsymbol' : y.symbols.get? name = symbol' at hname
      cases hname with
      | some hsame =>
        rw [lookupFrom_some hsymbol hfound, lookupFrom_some hsymbol' hfound']
        exact .some hsame
      | none =>
        cases h.symbols with
        | cons _ hrest =>
          cases hrest with
          | nil =>
            rw [h.first.lookup_root hx hsymbol hfound, h.second.lookup_root hy hsymbol' hfound']
            exact .none
          | cons _ _ =>
            obtain ⟨parent, hparent, hfound⟩ := h.first.lookup_up hx hsymbol hfound
            obtain ⟨parent', hparent', hfound'⟩ := h.second.lookup_up hy hsymbol' hfound'
            exact ih h.tail hparent hparent' hfound hfound'

theorem lookup (h : Chains R a b (i :: rest) (j :: rest')) (name : String) :
    ∃ found found', a.lookup i name = .ok found ∧ b.lookup j name = .ok found' ∧
      found.Rel (Alike R) found' := by
  obtain ⟨found, hfound⟩ := lookup_eq h.first.isOpen name
  obtain ⟨found', hfound'⟩ := lookup_eq h.second.isOpen name
  refine ⟨found, found', hfound, hfound', ?_⟩
  obtain ⟨x, y, hx, hy, -⟩ := h.get
  unfold Arena.lookup at hfound hfound'
  rw [fetch_eq hx] at hfound
  rw [fetch_eq hy] at hfound'
  exact h.lookupFrom hx hy hfound hfound'

theorem cons {k l : Nat} {x y : Scope} (h : Chains R a b (i :: rest) (j :: rest'))
    (hx : a.slots[k]? = some (some x)) (hy : b.slots[l]? = some (some y))
    (hp : x.parent = some (i : Int)) (hq : y.parent = some (j : Int)) (hlt : i < k) (hlt' : j < l)
    (hsymbols : x.symbols.Alike (Alike R) y.symbols) :
    Chains R a b (k :: i :: rest) (l :: j :: rest') :=
  ⟨.child hx hp hlt h.first, .child hy hq hlt' h.second, .cons ⟨x, y, hx, hy, hsymbols⟩ h.symbols⟩

theorem set {x' y' : Scope} (h : Chains R a b (i :: rest) (j :: rest'))
    (ha : Spares (some i) (i :: rest) a a') (hb : Spares (some j) (j :: rest') b b')
    (hi : i ∉ rest) (hj : j ∉ rest') (hx' : a'.slots[i]? = some (some x'))
    (hy' : b'.slots[j]? = some (some y')) (hsymbols : x'.symbols.Alike (Alike R) y'.symbols) :
    Chains R a' b' (i :: rest) (j :: rest') := by
  refine ⟨h.first.imp ha.parent, h.second.imp hb.parent, .cons ⟨x', y', hx', hy', hsymbols⟩ ?_⟩
  cases h.symbols with
  | cons _ hrest =>
    refine symbols_of_slots hrest (fun k hk => ?_) fun k hk => ?_
    · exact ha.same k (List.mem_cons_of_mem _ hk) fun hik => hi (Option.some.inj hik ▸ hk)
    · exact hb.same k (List.mem_cons_of_mem _ hk) fun hjk => hj (Option.some.inj hjk ▸ hk)

end Chains

end Arena

/-! ## Analyses alongside -/

namespace Analyzing

/-- Two analyses that stand at the ends of chains of scopes with the same symbols. If the two last
scopes are the walks' own, they have the same variables as well. -/
structure Alongside (R : Nat → Nat → Prop) (own : Prop) (i : Nat) (rest : List Nat) (j : Nat)
    (rest' : List Nat) (s t : Analysis) : Prop where
  live : s.Live (i :: rest)
  live' : t.Live (j :: rest')
  chains : Arena.Chains R s.arena t.arena (i :: rest) (j :: rest')
  fresh : ∀ k, R (s.arena.nextId + k) (t.arena.nextId + k)
  vars : own → ∀ x y, s.arena.slots[i]? = some (some x) → t.arena.slots[j]? = some (some y) →
    x.vars.Alike (AlikeVariable R) y.vars

namespace Alongside

variable {R : Nat → Nat → Prop} {own : Prop} {i j : Nat} {rest rest' : List Nat}
  {s t s' t' : Analysis}

theorem of_same (h : Alongside R own i rest j rest' s t) (hlive : s'.Live (i :: rest))
    (hlive' : t'.Live (j :: rest'))
    (hs : ∀ k ∈ i :: rest, s'.arena.slots[k]? = s.arena.slots[k]?)
    (ht : ∀ k ∈ j :: rest', t'.arena.slots[k]? = t.arena.slots[k]?)
    (hfresh : ∀ k, R (s'.arena.nextId + k) (t'.arena.nextId + k)) :
    Alongside R own i rest j rest' s' t' := by
  refine ⟨hlive, hlive', h.chains.of_slots hs ht, hfresh, fun hown x y hx hy => ?_⟩
  rw [hs i List.mem_cons_self] at hx
  rw [ht j List.mem_cons_self] at hy
  exact h.vars hown x y hx hy

theorem set (h : Alongside R own i rest j rest' s t) {x y x' y' : Scope} {m n : Nat}
    (hx : s.arena.slots[i]? = some (some x)) (hy : t.arena.slots[j]? = some (some y))
    (hp : x'.parent = x.parent) (hq : y'.parent = y.parent)
    (hsymbols : x'.symbols.Alike (Alike R) y'.symbols)
    (hvars : own → x'.vars.Alike (AlikeVariable R) y'.vars) (hfresh : ∀ k, R (m + k) (n + k)) :
    Alongside R own i rest j rest'
      { s with arena := ⟨s.arena.slots.setIfInBounds i (some x'), m⟩ }
      { t with arena := ⟨t.arena.slots.setIfInBounds j (some y'), n⟩ } := by
  have hspares : Arena.Spares (some i) (i :: rest) s.arena _ := Arena.spares_set hx hp m
  have hspares' : Arena.Spares (some j) (j :: rest') t.arena _ := Arena.spares_set hy hq n
  have hx' : (s.arena.slots.setIfInBounds i (some x'))[i]? = some (some x') := by
    rw [Arena.getElem?_set (h.live.lt List.mem_cons_self), if_pos rfl]
  have hy' : (t.arena.slots.setIfInBounds j (some y'))[j]? = some (some y') := by
    rw [Arena.getElem?_set (h.live'.lt List.mem_cons_self), if_pos rfl]
  refine ⟨h.live.next hspares rfl, h.live'.next hspares' rfl,
    h.chains.set hspares hspares' h.chains.first.not_mem h.chains.second.not_mem hx' hy' hsymbols,
    hfresh, fun hown x₁ y₁ hx₁ hy₁ => ?_⟩
  cases hx'.symm.trans hx₁
  cases hy'.symm.trans hy₁
  exact hvars hown

theorem push (h : Alongside R own i rest j rest' s t) (name : String) :
    ∃ child arena child' arena', s.arena.push name (some (i : Int)) = .ok (child, arena) ∧
      t.arena.push name (some (j : Int)) = .ok (child', arena') ∧
      Arena.Spares none (i :: rest) s.arena arena ∧
      Arena.Spares none (j :: rest') t.arena arena' ∧
      Alongside R True child (i :: rest) child' (j :: rest') { s with arena }
        { t with arena := arena' } := by
  obtain ⟨x, y, hx, hy, -⟩ := h.chains.get
  have hpush := Arena.push_ok hx name
  have hpush' := Arena.push_ok hy name
  obtain ⟨-, hlive, hspares⟩ := h.live.push
    (fun _ hp => ⟨i, List.mem_cons_self, (Option.some.inj hp).symm⟩) hpush
  obtain ⟨-, hlive', hspares'⟩ := h.live'.push
    (fun _ hq => ⟨j, List.mem_cons_self, (Option.some.inj hq).symm⟩) hpush'
  have hchains := h.chains.of_slots (fun _ => hspares.unchanged) fun _ => hspares'.unchanged
  have hempty {S : Symbol → Symbol → Prop} : Table.Alike S {} {} := fun _ => .none
  refine ⟨_, _, _, _, hpush, hpush', hspares, hspares', hlive, hlive', ?_, h.fresh,
    fun _ x₁ y₁ hx₁ hy₁ => ?_⟩
  · exact hchains.cons (Arena.getElem?_push s.arena _) (Arena.getElem?_push t.arena _) rfl rfl
      (h.live.lt List.mem_cons_self) (h.live'.lt List.mem_cons_self) hempty
  · cases (Arena.getElem?_push s.arena _).symm.trans hx₁
    cases (Arena.getElem?_push t.arena _).symm.trans hy₁
    exact hempty

end Alongside

end Analyzing

end LittleLang
