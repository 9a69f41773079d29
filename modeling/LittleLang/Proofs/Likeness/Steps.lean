import Mathlib.Data.List.Forall2

/-!
# Two steps side by side

`InStep S E p p' A` is a contract for two steps: started in states that `S` relates, both give
results that `A` relates and leave states that `S` relates, or both fail as `E` allows. There is one
lemma for each way to put steps together, so that two walks are compared by following one of them.
-/

namespace LittleLang

variable {ε σ α β : Type} {S : σ → σ → Prop} {E : ε → ε → σ → σ → Prop}

/-- Two outcomes: both are results, or both are failures. -/
inductive Paired (S : σ → σ → Prop) (E : ε → ε → σ → σ → Prop) (A : α → α → Prop) :
    EStateM.Result ε σ α → EStateM.Result ε σ α → Prop where
  | ok {a a' : α} {s s' : σ} : A a a' → S s s' → Paired S E A (.ok a s) (.ok a' s')
  | error {e e' : ε} {s s' : σ} : E e e' s s' → Paired S E A (.error e s) (.error e' s')

def InStep (S : σ → σ → Prop) (E : ε → ε → σ → σ → Prop) (p p' : EStateM ε σ α)
    (A : α → α → Prop) : Prop :=
  ∀ s s', S s s' → Paired S E A (p s) (p' s')

section

variable {p p' q q' : EStateM ε σ α} {A : α → α → Prop} {B : β → β → Prop}

theorem inStep_pure {a a' : α} (h : A a a') : InStep S E (pure a) (pure a') A :=
  fun _ _ hs => .ok h hs

theorem inStep_throw {e e' : ε} (h : ∀ s s', S s s' → E e e' s s') :
    InStep S E (throw e) (throw e') A :=
  fun s s' hs => .error (h s s' hs)

theorem InStep.weaken {A' : α → α → Prop} (h : InStep S E p p' A) (hA : ∀ a a', A a a' → A' a a') :
    InStep S E p p' A' := by
  intro s s' hs
  have h := h s s' hs
  generalize p s = r at h
  generalize p' s' = r' at h
  cases h with
  | ok ha hs => exact .ok (hA _ _ ha) hs
  | error he => exact .error he

theorem InStep.bind {f f' : α → EStateM ε σ β} (h : InStep S E p p' A)
    (hf : ∀ a a', A a a' → InStep S E (f a) (f' a') B) : InStep S E (p >>= f) (p' >>= f') B := by
  intro s s' hs
  have h := h s s' hs
  simp only [Bind.bind, EStateM.bind]
  generalize p s = r at h
  generalize p' s' = r' at h
  cases h with
  | ok ha hs => exact hf _ _ ha _ _ hs
  | error he => exact .error he

/-- A step whose result does not matter, or is the same. -/
theorem InStep.next {f f' : α → EStateM ε σ β} (h : InStep S E p p' Eq)
    (hf : ∀ a, InStep S E (f a) (f' a) B) : InStep S E (p >>= f) (p' >>= f') B := by
  refine h.bind ?_
  rintro a _ rfl
  exact hf a

theorem InStep.discard (h : InStep S E p p' A) : InStep S E (discard p) (discard p') Eq :=
  h.bind fun _ _ _ => inStep_pure rfl

theorem InStep.ite {c : Prop} [Decidable c] (h : c → InStep S E p p' A)
    (h' : ¬c → InStep S E q q' A) : InStep S E (if c then p else q) (if c then p' else q') A := by
  split
  · exact h ‹c›
  · exact h' ‹¬c›

end

/-! ## Lists -/

section

variable {R : α → α → Prop} {as as' : List α}

theorem inStep_mapM {f f' : α → EStateM ε σ β} {B : β → β → Prop} (has : as.Forall₂ R as')
    (h : ∀ a a', R a a' → InStep S E (f a) (f' a') B) :
    InStep S E (as.mapM f) (as'.mapM f') (List.Forall₂ B) := by
  induction has with
  | nil => exact inStep_pure .nil
  | cons ha _ ih =>
    rw [List.mapM_cons, List.mapM_cons]
    exact (h _ _ ha).bind fun _ _ hb => ih.bind fun _ _ hbs => inStep_pure (.cons hb hbs)

theorem inStep_forM {f f' : α → EStateM ε σ PUnit} (has : as.Forall₂ R as')
    (h : ∀ a a', R a a' → InStep S E (f a) (f' a') Eq) :
    InStep S E (as.forM f) (as'.forM f') Eq := by
  induction has with
  | nil => exact inStep_pure rfl
  | cons ha _ ih => exact (h _ _ ha).next fun _ => ih

end

end LittleLang
