import LittleLang.Proofs.Analysis.Declarations

/-!
# Identities of symbols

Each symbol gets the identity that the arena counts up to next. So the identities of all types and
functions of an arena are below that count, and so are those of the types of parameters
(`Arena.Given`). This holds at every moment of an analysis (`Visit.Reaches.given`): the types of
parameters are looked up, and a lookup finds nothing but symbols of the arena (`Given.lookup`).
-/

namespace LittleLang

namespace Symbol

def parameters? : Symbol → Option (List Symbol)
  | function _ _ parameters => some parameters
  | _ => none

/-- The type of a variable, where it is known, has an identity below the bound. -/
def TypeBelow (n : Nat) (symbol : Symbol) : Prop :=
  ∀ type, symbol.type? = some type → type.id < n

/-- The identities that tell a type or a function, its own and those of the types of its parameters,
are below the bound. -/
structure Below (n : Nat) (symbol : Symbol) : Prop where
  id : symbol.id < n
  parameters : ∀ ps, symbol.parameters? = some ps → ∀ p ∈ ps, p.TypeBelow n

variable {m n : Nat} {symbol : Symbol}

theorem TypeBelow.mono (h : symbol.TypeBelow m) (hle : m ≤ n) : symbol.TypeBelow n :=
  fun type htype => Nat.lt_of_lt_of_le (h type htype) hle

theorem Below.mono (h : symbol.Below m) (hle : m ≤ n) : symbol.Below n :=
  ⟨Nat.lt_of_lt_of_le h.id hle, fun ps hps p hp => (h.parameters ps hps p hp).mono hle⟩

end Symbol

def Scope.Below (n : Nat) (scope : Scope) : Prop :=
  ∀ name symbol, scope.symbols.get? name = some symbol → symbol.Below n

theorem Scope.Below.insertSymbol {n : Nat} {scope : Scope} (h : scope.Below n) {symbol : Symbol}
    (hsymbol : symbol.Below n) : (scope.insertSymbol symbol).Below n := by
  intro name found hfound
  unfold Scope.insertSymbol at hfound
  rw [Table.get?_insert] at hfound
  split at hfound
  · cases hfound
    exact hsymbol
  · exact h name found hfound

namespace Arena

variable {a a' : Arena} {i : Nat}

/-- All identities of types and functions have been given. -/
def Given (a : Arena) : Prop :=
  ∀ (i : Nat) (scope : Scope), a.slots[i]? = some (some scope) → scope.Below a.nextId

namespace Given

theorem of_slots (h : a.Given) (hslots : a'.slots = a.slots) (hle : a.nextId ≤ a'.nextId) :
    a'.Given := by
  intro i scope hs name symbol hsymbol
  rw [hslots] at hs
  exact (h i scope hs name symbol hsymbol).mono hle

theorem set (h : a.Given) {slot : Option Scope}
    (hslot : ∀ scope, slot = some scope → scope.Below a.nextId) (i : Nat) :
    Given { a with slots := a.slots.setIfInBounds i slot } := by
  intro k scope hs
  dsimp only at hs
  rw [Array.getElem?_setIfInBounds] at hs
  split at hs
  · split at hs
    · exact hslot scope (Option.some.inj hs)
    · cases hs
  · exact h k scope hs

theorem update (h : a.Given) {change : Scope → Scope}
    (hupdate : a.update i change = .ok a')
    (hchange : ∀ scope, scope.Below a.nextId → (change scope).Below a.nextId) : a'.Given := by
  obtain ⟨scope, hs, rfl⟩ := update_inv hupdate
  refine h.set (fun scope' hscope' => ?_) i
  cases hscope'
  exact hchange scope (h i scope hs)

theorem create (h : a.Given) (make : Nat → Symbol) : Given (a.create make).2 :=
  h.of_slots rfl (Nat.le_succ _)

theorem addVariable (h : a.Given) {make : Nat → Symbol} (hadd : a.addVariable i make = .ok a') :
    a'.Given := by
  have hupdate : (a.create make).2.update i (·.insertVariable (make a.nextId)) = .ok a' := hadd
  exact (h.create make).update hupdate fun _ hscope => hscope

theorem addSymbol (h : a.Given) {make : Nat → Symbol}
    (hmake : (make a.nextId).Below (a.nextId + 1)) (hadd : a.addSymbol i make = .ok a') :
    a'.Given := by
  have hupdate : (a.create make).2.update i (·.insertSymbol (make a.nextId)) = .ok a' := hadd
  exact (h.create make).update hupdate fun _ hscope => hscope.insertSymbol hmake

theorem addBuiltins (h : a.Given) (hadd : a.addBuiltins i = .ok a') : a'.Given := by
  unfold Arena.addBuiltins at hadd
  generalize builtinTypes = names at hadd
  induction names generalizing a with
  | nil =>
    cases hadd
    exact h
  | cons name names ih =>
    rw [List.foldlM_cons] at hadd
    cases hone : a.addSymbol i (.builtin · name) with
    | error e =>
      rw [hone] at hadd
      cases hadd
    | ok a₁ =>
      rw [hone] at hadd
      exact ih (h.addSymbol ⟨Nat.lt_succ_self _, fun _ hps => by cases hps⟩ hone) hadd

theorem push (h : a.Given) {name : String} {parent : Option Int} {child : Nat}
    (hpush : a.push name parent = .ok (child, a')) : a'.Given := by
  obtain ⟨-, level, rfl⟩ := push_inv hpush
  intro k scope hs x symbol hsymbol
  dsimp only at hs
  rw [Array.getElem?_push] at hs
  split at hs
  · cases hs
    cases hsymbol
  · exact h k scope hs x symbol hsymbol

theorem close (h : a.Given) {parent : Option Int} (hclose : a.close i = .ok (parent, a')) :
    a'.Given := by
  unfold Arena.close at hclose
  cases hl : a.locate i with
  | error e =>
    rw [hl] at hclose
    cases hclose
  | ok found =>
    rw [hl] at hclose
    cases hclose
    exact h.set (fun _ hscope => by cases hscope) _

/-! ## Lookups -/

theorem fetch (h : a.Given) {i : Int} {scope : Scope} (hfetch : a.fetch i = .ok scope) :
    scope.Below a.nextId := by
  unfold Arena.fetch locate at hfetch
  cases hslot : a.slot? i with
  | none =>
    rw [hslot] at hfetch
    cases hfetch
  | some n =>
    rw [hslot] at hfetch
    dsimp only at hfetch
    cases hs : a.slots[n]?.join with
    | none =>
      rw [hs] at hfetch
      cases hfetch
    | some found =>
      rw [hs] at hfetch
      cases hfetch
      exact h n found (Option.join_eq_some_iff.mp hs)

theorem lookupFrom (h : a.Given) {name : String} {rounds : Nat} {scope : Scope} {symbol : Symbol}
    (hscope : scope.Below a.nextId) (hfound : a.lookupFrom name rounds scope = .ok (some symbol)) :
    symbol.Below a.nextId := by
  induction rounds generalizing scope with
  | zero => cases hfound
  | succ rounds ih =>
    unfold Arena.lookupFrom at hfound
    cases hsymbol : scope.symbols.get? name with
    | some found =>
      simp only [hsymbol] at hfound
      cases hfound
      exact hscope name symbol hsymbol
    | none =>
      simp only [hsymbol, parentScope] at hfound
      cases hp : scope.parent with
      | none =>
        rw [hp] at hfound
        cases hfound
      | some p =>
        rw [hp] at hfound
        cases hparent : a.fetch p with
        | error e =>
          simp only [hparent] at hfound
          cases hfound
        | ok parent =>
          simp only [hparent] at hfound
          exact ih (h.fetch hparent) hfound

theorem lookup (h : a.Given) {i : Int} {name : String} {symbol : Symbol}
    (hfound : a.lookup i name = .ok (some symbol)) : symbol.Below a.nextId := by
  unfold Arena.lookup at hfound
  cases hfetch : a.fetch i with
  | error e =>
    rw [hfetch] at hfound
    cases hfound
  | ok scope =>
    rw [hfetch] at hfound
    exact h.lookupFrom (h.fetch hfetch) hfound

end Given

end Arena

namespace Analyzing

variable {s t : Analysis} {i : Nat} {parameters : List Parameter}

/-! ## Declarations -/

theorem parameterSymbol_inv {p : Parameter} {symbol : Symbol}
    (h : parameterSymbol (some i) p s = .ok symbol t) :
    ∃ type, s.arena.lookup i p.type.text = .ok (some type) ∧
      symbol = .var s.arena.nextId p.name.text (some type) ∧
      t = numbered s (s.arena.nextId + 1) := by
  cases hl : s.arena.lookup i p.type.text with
  | error e =>
    have hask : ask (·.lookup i p.type.text) s = .error e s := ask_error hl
    have hlookup : lookup (some i) p.type.text s = .error e s := hask
    have htype : typeOf (some i) p.type s = .error e s := bind_of_error hlookup
    have herror : parameterSymbol (some i) p s = .error e s := bind_of_error htype
    cases herror.symm.trans h
  | ok found =>
    cases found with
    | none => cases (parameterSymbol_error hl).symm.trans h
    | some type =>
      cases (parameterSymbol_eq hl).symm.trans h
      exact ⟨type, rfl, rfl, rfl⟩

/-- The identities of the arena have been given, and so have those of the types of these variables.
-/
def Known (symbols : List Symbol) (s : Analysis) : Prop :=
  s.arena.Given ∧ ∀ symbol ∈ symbols, symbol.TypeBelow s.arena.nextId

theorem known_parameterSymbols {known symbols : List Symbol} (hs : Known known s)
    (h : parameterSymbols (some i) known parameters s = .ok symbols t) : Known symbols t := by
  induction parameters generalizing s known with
  | nil =>
    cases h
    exact hs
  | cons p ps ih =>
    unfold parameterSymbols at h
    split at h
    · cases h
    · obtain ⟨symbol, s₁, hsymbol, h⟩ := bind_eq_ok h
      obtain ⟨type, hlookup, rfl, rfl⟩ := parameterSymbol_inv hsymbol
      refine ih (s := numbered s (s.arena.nextId + 1))
        ⟨hs.1.of_slots rfl (Nat.le_succ _), fun symbol hmem => ?_⟩ h
      rcases List.mem_append.mp hmem with hmem | hmem
      · exact (hs.2 symbol hmem).mono (Nat.le_succ _)
      · -- the type was there before the parameter got its own identity
        obtain rfl := List.mem_singleton.mp hmem
        rintro _ ⟨rfl⟩
        exact Nat.lt_succ_of_lt (hs.1.lookup hlookup).id

theorem given_putFunction (i : Nat) (name : String) (parameters : List Parameter) :
    Keeps (fun s => s.arena.Given) (putFunction i name parameters) := by
  intro s hs
  have hparameter (p : Parameter) : Keeps (fun s => s.arena.Given) (parameterSymbol (some i) p) :=
    keeps_parameterSymbol (fun _ hs => hs.of_slots rfl (Nat.le_succ _)) p
  have hkept := keeps_parameterSymbols hparameter [] parameters s hs
  unfold putFunction
  cases hr : parameterSymbols (some i) [] parameters s with
  | error e t =>
    rw [hr] at hkept
    rw [bind_of_error hr]
    exact hkept
  | ok symbols t =>
    rw [bind_of_ok hr]
    have hknown : Known symbols t :=
      known_parameterSymbols ⟨hs, fun _ hmem => absurd hmem List.not_mem_nil⟩ hr
    have hfunction : (Symbol.function t.arena.nextId name symbols).Below
        (t.arena.nextId + 1) := by
      refine ⟨Nat.lt_succ_self _, ?_⟩
      rintro _ ⟨rfl⟩ p hp
      exact (hknown.2 p hp).mono (Nat.le_succ _)
    exact (after_change hknown.1 fun _ hstep => hknown.1.addSymbol hfunction hstep).bind fun _ =>
      keeps_pure _

theorem invariant_given : Invariant fun s => s.arena.Given where
  note _ _ _ := keeps_modify fun _ hs => hs
  root _ _ hs := hs
  last _ _ hs := hs
  count _ hs := hs.of_slots rfl (Nat.le_succ _)
  builtins _ := keeps_change fun _ _ hs hstep => hs.addBuiltins hstep
  announce i name parameters := keeps_announce (given_putFunction i name.text parameters)
  addVariable _ _ := keeps_change fun _ _ hs hstep => hs.addVariable hstep
  insertVariable _ _ := keeps_change fun _ _ hs hstep => hs.update hstep fun _ hscope => hscope
  push _ _ := keeps_changeWith fun _ _ _ hs hstep => hs.push hstep
  close _ := keeps_changeWith fun _ _ _ hs hstep => hs.close hstep

/-- At every visit of an analysis all identities have been given. -/
theorem Visit.Reaches.given {depth : Nat} {tree : Node} {log : Log} {keep : Bool} {v : Visit}
    (h : Reaches ⟨depth, tree, none, { log, keep }⟩ v) : v.state.arena.Given := by
  refine invariant_given.reaches h fun i scope hs => ?_
  rw [show ({} : Arena).slots[i]? = none from rfl] at hs
  cases hs

end Analyzing

end LittleLang
