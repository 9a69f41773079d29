import LittleLang.Proofs.Analysis.Release

/-!
# Scopes that a walk comes back to

While a walk stands in a scope, there are others that it comes back to later. They stay open as long
as none of them is closed, which a walk does with a scope that it leaves, or with the one that it
kept last. `Analysis.Live` says that some scopes are of this kind: they are open with all that
enclose them, and none is the scope kept last. A step `Spares` them if it changes none but the
current one. There is one lemma for each operation on arenas. -/

namespace LittleLang

namespace Arena

/-! ## Changes to some scopes -/

/-- Of these scopes none is changed but the current one, which keeps its parent. -/
structure Spares (current : Option Nat) (scopes : List Nat) (a a' : Arena) : Prop where
  same : ∀ k ∈ scopes, current ≠ some k → a'.slots[k]? = a.slots[k]?
  parent : ∀ k ∈ scopes, ∀ scope, a.slots[k]? = some (some scope) →
    ∃ scope', a'.slots[k]? = some (some scope') ∧ scope'.parent = scope.parent
  size : a.slots.size ≤ a'.slots.size

section

variable {current : Option Nat} {scopes : List Nat} {a a' a'' : Arena} {i child : Nat}

theorem spares_of_same (hsame : ∀ k ∈ scopes, a'.slots[k]? = a.slots[k]?)
    (hsize : a.slots.size ≤ a'.slots.size) : Spares current scopes a a' :=
  ⟨fun k hk _ => hsame k hk, fun k hk scope hs => ⟨scope, (hsame k hk).trans hs, rfl⟩, hsize⟩

theorem Spares.refl (a : Arena) : Spares current scopes a a :=
  spares_of_same (fun _ _ => rfl) (Nat.le_refl _)

theorem Spares.trans (h : Spares current scopes a a') (h' : Spares current scopes a' a'') :
    Spares current scopes a a'' := by
  refine ⟨fun k hk hne => (h'.same k hk hne).trans (h.same k hk hne), fun k hk scope hs => ?_,
    Nat.le_trans h.size h'.size⟩
  obtain ⟨scope', hs', hp⟩ := h.parent k hk scope hs
  obtain ⟨scope'', hs'', hp'⟩ := h'.parent k hk scope' hs'
  exact ⟨scope'', hs'', hp'.trans hp⟩

theorem Spares.unchanged (h : Spares none scopes a a') {k : Nat} (hk : k ∈ scopes) :
    a'.slots[k]? = a.slots[k]? :=
  h.same k hk fun hnone => by cases hnone

theorem Spares.weaken (h : Spares none scopes a a') : Spares current scopes a a' :=
  spares_of_same (fun _ => h.unchanged) h.size

theorem Spares.outside (h : Spares (some child) (child :: scopes) a a') (hchild : child ∉ scopes) :
    Spares none scopes a a' := by
  refine spares_of_same (fun k hk => h.same k (List.mem_cons_of_mem _ hk) fun heq => ?_) h.size
  exact hchild (Option.some.inj heq ▸ hk)

theorem spares_set {scope scope' : Scope} (h : a.slots[i]? = some (some scope))
    (hparent : scope'.parent = scope.parent) (n : Nat) :
    Spares (some i) scopes a ⟨a.slots.setIfInBounds i (some scope'), n⟩ := by
  obtain ⟨hlt, -⟩ := Array.getElem?_eq_some_iff.mp h
  refine ⟨fun k _ hne => ?_, fun k _ other hk => ?_, by simp⟩
  · dsimp only
    rw [getElem?_set hlt, if_neg fun hik : i = k => hne (congrArg some hik)]
  · dsimp only
    rw [getElem?_set hlt]
    split
    · next hik =>
      subst hik
      cases h.symm.trans hk
      exact ⟨scope', rfl, hparent⟩
    · exact ⟨other, hk, rfl⟩

theorem spares_update {change : Scope → Scope}
    (hparent : ∀ scope, (change scope).parent = scope.parent) (h : a.update i change = .ok a') :
    Spares (some i) scopes a a' := by
  obtain ⟨scope, hs, rfl⟩ := update_inv h
  exact spares_set hs (hparent scope) _

theorem spares_add {kind : TableKind} {make : Nat → Symbol} (h : a.add kind i make = .ok a') :
    Spares (some i) scopes a a' :=
  have hspares : Spares (some i) scopes (a.create make).2 a' :=
    spares_update (fun scope => scope.parent_insert _ kind) h
  ⟨hspares.same, hspares.parent, hspares.size⟩

theorem spares_addBuiltins (h : a.addBuiltins i = .ok a') : Spares (some i) scopes a a' := by
  unfold addBuiltins at h
  generalize builtinTypes = names at h
  induction names generalizing a with
  | nil =>
    cases h
    exact .refl _
  | cons name names ih =>
    rw [List.foldlM_cons, addSymbol_eq] at h
    cases hadd : a.add .symbols i (.builtin · name) with
    | error e =>
      rw [hadd] at h
      cases h
    | ok a₁ =>
      rw [hadd] at h
      exact (spares_add hadd).trans (ih h)

theorem spares_clear (h : child ∉ scopes) :
    Spares none scopes a { a with slots := a.slots.setIfInBounds child none } := by
  refine spares_of_same (fun k hk => ?_) (by simp)
  dsimp only
  rw [Array.getElem?_setIfInBounds, if_neg fun hck : child = k => h (hck ▸ hk)]

end

end Arena

/-! ## Scopes that a walk comes back to -/

/-- A walk can come back to these scopes. They are open, with all that enclose them, and none is the
scope kept last. -/
structure Analysis.Live (scopes : List Nat) (s : Analysis) : Prop where
  get : ∀ k ∈ scopes, ∃ scope, s.arena.slots[k]? = some (some scope) ∧
    ∀ p, scope.parent = some p → ∃ q ∈ scopes, p = (q : Int) ∧ q < k
  last : ∀ l, s.lastScope = some l → l < s.arena.slots.size ∧ l ∉ scopes

namespace Analysis.Live

variable {current : Option Nat} {scopes : List Nat} {s s' : Analysis} {i child : Nat}

theorem isOpen (h : s.Live scopes) (hi : i ∈ scopes) : s.arena.Open i := by
  induction i using Nat.strongRecOn with
  | ind i ih =>
    obtain ⟨scope, hs, hparent⟩ := h.get i hi
    cases hp : scope.parent with
    | none => exact .root hs hp
    | some p =>
      obtain ⟨q, hq, rfl, hlt⟩ := hparent p hp
      exact .child hs hp hlt (ih q hlt hq)

theorem lt (h : s.Live scopes) (hi : i ∈ scopes) : i < s.arena.slots.size :=
  (h.isOpen hi).lt

theorem next (h : s.Live scopes) (hspares : Arena.Spares current scopes s.arena s'.arena)
    (hlast : s'.lastScope = s.lastScope) : s'.Live scopes := by
  refine ⟨fun k hk => ?_, fun l hl => ?_⟩
  · obtain ⟨scope, hs, hparent⟩ := h.get k hk
    obtain ⟨scope', hs', hp⟩ := hspares.parent k hk scope hs
    exact ⟨scope', hs', hp ▸ hparent⟩
  · obtain ⟨hlt, hnot⟩ := h.last l (hlast ▸ hl)
    exact ⟨Nat.lt_of_lt_of_le hlt hspares.size, hnot⟩

theorem tail (h : s.Live (child :: scopes)) (hchild : ∀ k ∈ scopes, k < child) :
    s.Live scopes := by
  refine ⟨fun k hk => ?_, fun l hl => ?_⟩
  · obtain ⟨scope, hs, hparent⟩ := h.get k (List.mem_cons_of_mem _ hk)
    refine ⟨scope, hs, fun p hp => ?_⟩
    obtain ⟨q, hq, rfl, hlt⟩ := hparent p hp
    rcases List.mem_cons.mp hq with rfl | hq
    · exact absurd hlt (Nat.lt_asymm (hchild k hk))
    · exact ⟨q, hq, rfl, hlt⟩
  · obtain ⟨hlt, hnot⟩ := h.last l hl
    exact ⟨hlt, fun hmem => hnot (List.mem_cons_of_mem _ hmem)⟩

theorem of_path {path : List Nat} (h : s.Live scopes) (hpath : s.arena.Path path)
    (hhead : ∀ i, path.head? = some i → i ∈ scopes) : s.Live path := by
  induction hpath with
  | @root i scope hs hp =>
    refine ⟨fun k hk => ⟨scope, List.mem_singleton.mp hk ▸ hs, fun p hp' => ?_⟩, fun l hl => ?_⟩
    · cases hp.symm.trans hp'
    · obtain ⟨hlt, hnot⟩ := h.last l hl
      exact ⟨hlt, fun hmem => hnot (List.mem_singleton.mp hmem ▸ hhead i rfl)⟩
  | @child i p rest scope hs hp hlt _ ih =>
    have hi : i ∈ scopes := hhead i rfl
    have hup : s.Live (p :: rest) := by
      refine ih fun q hq => ?_
      obtain rfl := Option.some.inj hq
      obtain ⟨scope', hs', hparent⟩ := h.get i hi
      cases hs.symm.trans hs'
      obtain ⟨q, hq, hpq, -⟩ := hparent p hp
      exact Int.ofNat.inj hpq ▸ hq
    refine ⟨fun k hk => ?_, fun l hl => ?_⟩
    · rcases List.mem_cons.mp hk with rfl | hk
      · refine ⟨scope, hs, fun p' hp' => ⟨p, by simp, ?_, hlt⟩⟩
        exact (Option.some.inj (hp.symm.trans hp')).symm
      · obtain ⟨scope', hs', hparent⟩ := hup.get k hk
        refine ⟨scope', hs', fun p' hp' => ?_⟩
        obtain ⟨q, hq, hpq, hqk⟩ := hparent p' hp'
        exact ⟨q, List.mem_cons_of_mem _ hq, hpq, hqk⟩
    · obtain ⟨hll, hnot⟩ := hup.last l hl
      refine ⟨hll, fun hmem => ?_⟩
      rcases List.mem_cons.mp hmem with rfl | hmem
      · exact (h.last l hl).2 hi
      · exact hnot hmem

theorem push (h : s.Live scopes) {name : String} {parent : Option Int} {arena : Arena}
    (hparent : ∀ p, parent = some p → ∃ q ∈ scopes, p = (q : Int))
    (hpush : s.arena.push name parent = .ok (child, arena)) :
    (∀ k ∈ scopes, k < child) ∧ Live (child :: scopes) { s with arena } ∧
      Arena.Spares none scopes s.arena arena := by
  obtain ⟨rfl, level, rfl⟩ := Arena.push_inv hpush
  have hlt (k : Nat) (hk : k ∈ scopes) : k < s.arena.slots.size := h.lt hk
  have hsame (k : Nat) (hk : k < s.arena.slots.size) (scope : Option Scope) :
      (s.arena.slots.push scope)[k]? = s.arena.slots[k]? := by
    rw [Array.getElem?_push, if_neg (Nat.ne_of_lt hk)]
  refine ⟨hlt, ⟨fun k hk => ?_, fun l hl => ?_⟩,
    Arena.spares_of_same (fun k hk => hsame k (hlt k hk) _) (by simp)⟩
  · rcases List.mem_cons.mp hk with rfl | hk
    · refine ⟨_, Arena.getElem?_push s.arena _, fun p hp => ?_⟩
      obtain ⟨q, hq, rfl⟩ := hparent p hp
      exact ⟨q, List.mem_cons_of_mem _ hq, rfl, hlt q hq⟩
    · obtain ⟨scope, hs, hp⟩ := h.get k hk
      refine ⟨scope, (hsame k (hlt k hk) _).trans hs, fun p hp' => ?_⟩
      obtain ⟨q, hq, hpq, hqk⟩ := hp p hp'
      exact ⟨q, List.mem_cons_of_mem _ hq, hpq, hqk⟩
  · obtain ⟨hll, hnot⟩ := h.last l hl
    refine ⟨?_, fun hmem => ?_⟩
    · simp only [Array.size_push]
      omega
    · rcases List.mem_cons.mp hmem with rfl | hmem
      · exact Nat.lt_irrefl _ hll
      · exact hnot hmem

theorem leave_unopened {l : Nat} (hk : s.keep = true) (hl : s.lastScope = some l)
    (hopen : s.arena.isOpen l = false) :
    Analyzing.leave i s = .ok () { s with lastScope := some i } := by
  unfold Analyzing.leave
  simp only [bind, EStateM.bind, Analyzing.get_apply, hl]
  rw [if_pos hk, if_neg (by simp [hopen])]
  rfl

theorem close (h : s.Live (child :: scopes)) (hchild : ∀ k ∈ scopes, k < child) :
    ∃ s', Analyzing.leave child s = .ok () s' ∧ s'.Live scopes ∧
      Arena.Spares none scopes s.arena s'.arena ∧ s'.arena.nextId = s.arena.nextId := by
  have hnot : child ∉ scopes := fun hmem => Nat.lt_irrefl _ (hchild child hmem)
  have hlive := h.tail hchild
  obtain ⟨scope, hs, -⟩ := h.get child List.mem_cons_self
  have hlt := h.lt List.mem_cons_self
  have hkept (arena : Arena) (hspares : Arena.Spares none scopes s.arena arena) :
      Live scopes { s with arena, lastScope := some child } := by
    have hnext : Live scopes { s with arena } := hlive.next hspares rfl
    refine ⟨hnext.get, fun l hl => ?_⟩
    cases hl
    exact ⟨Nat.lt_of_lt_of_le hlt hspares.size, hnot⟩
  cases hk : s.keep with
  | false =>
    have hspares := Arena.spares_clear (a := s.arena) hnot
    exact ⟨_, Analyzing.leave_closing hk (Arena.close_ok hs), hlive.next hspares rfl, hspares, rfl⟩
  | true =>
    cases hl : s.lastScope with
    | none => exact ⟨_, Analyzing.leave_keeping hk hl, hkept _ (.refl _), .refl _, rfl⟩
    | some l =>
      cases hopen : s.arena.isOpen l with
      | false => exact ⟨_, leave_unopened hk hl hopen, hkept _ (.refl _), .refl _, rfl⟩
      | true =>
        obtain ⟨last, hlast⟩ := Arena.isOpen_iff.mp hopen
        have hspares := Arena.spares_clear (a := s.arena) (hlive.last l hl).2
        exact ⟨_, Analyzing.leave_replacing hk hl hopen (Arena.close_ok hlast), hkept _ hspares,
          hspares, rfl⟩

theorem leave {a : Arena} (h : s.Live (child :: scopes)) (hchild : ∀ k ∈ scopes, k < child)
    (hspares : Arena.Spares (some child) (child :: scopes) a s.arena) :
    ∃ s', Analyzing.leave child s = .ok () s' ∧ s'.Live scopes ∧
      Arena.Spares none scopes a s'.arena ∧ s'.arena.nextId = s.arena.nextId := by
  obtain ⟨s', hleave, hlive, hspares', hnext⟩ := h.close hchild
  have hnot : child ∉ scopes := fun hmem => Nat.lt_irrefl _ (hchild child hmem)
  exact ⟨s', hleave, hlive, (hspares.outside hnot).trans hspares', hnext⟩

end Analysis.Live

end LittleLang
