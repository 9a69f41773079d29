import LittleLang.Proofs.Acceptance
import LittleLang.Proofs.Forms
import LittleLang.Proofs.Literals

/-!
# The shape of derivable trees

A tree has more forms than the grammar derives. `Evaluable` and `Executable` say what an expression
and a statement of a program look like, as far as the stages after the parser rely on it: which
forms stand where, and that literals can be read. Every tree that the grammar derives from the
tokens of a text is of this shape (`shaped_program`). -/

open LittleLang.Grammar

namespace LittleLang

inductive Evaluable : Node → Prop where
  | int {t : Token} :
      (∀ e, Number.readInt t.text = .error e → ∃ n, e = .tooLongToRead n) →
      Evaluable (.intLiteral t)
  | float {t : Token} : (∃ x, Number.readFloat t.text = .ok x) → Evaluable (.floatLiteral t)
  | bool {t : Token} : (∃ b, Number.readBool t.text = .ok b) → Evaluable (.boolLiteral t)
  | var (name : Token) : Evaluable (.var name)
  | unary (op : Token) {operand : Node} : Evaluable operand → Evaluable (.unary op operand)
  | binary (op : Token) {left right : Node} :
      Evaluable left → Evaluable right → Evaluable (.binary op left right)
  | call (name : Token) {arguments : List Node} :
      (∀ a ∈ arguments, Evaluable a) → Evaluable (.call name arguments)

inductive Executable : Node → Prop where
  | compound {children : List Node} :
      (∀ n ∈ children, Executable n) → Executable (.compound children)
  | noOp : Executable .noOp
  | assign (type : Option Token) (target op : Token) {value : Node} :
      Evaluable value → Executable (.assign type target op value)
  | branch (keyword : Token) {condition whenTrue whenFalse : Node} :
      Evaluable condition → Executable whenTrue → Executable whenFalse →
      Executable (.branch (some keyword) condition whenTrue whenFalse)
  | ret {value : Node} : Evaluable value → Executable (.ret value)
  | function (name : Token) (parameters : List Parameter) {body : Node} :
      Executable body → Executable (.function name parameters body)
  | expression {n : Node} : Evaluable n → Executable n

/-! ## Tokens of a text -/

def AllSpelled (ts : List Token) : Prop :=
  ∀ t ∈ ts, Spelled t

/-! ## Trees of a text -/

theorem Node.IsExpression.evaluable {n : Node} (h : n.IsExpression Spelled) : Evaluable n := by
  induction h with
  | int ht hk => exact .int (ht.int hk)
  | float ht hk => exact .float (ht.float hk)
  | bool ht hk => exact .bool (ht.bool hk)
  | var => exact .var _
  | unary _ _ _ ih => exact .unary _ ih
  | binary _ _ _ _ ihl ihr => exact .binary _ ihl ihr
  | call _ _ ih => exact .call _ ih

theorem Node.IsStatement.executable {n : Node} (h : n.IsStatement Spelled) : Executable n := by
  induction h with
  | compound _ ih => exact .compound ih
  | noOp => exact .noOp
  | assign _ _ _ hv => exact .assign _ _ _ hv.evaluable
  | branch _ hc _ _ iht ihf => exact .branch _ hc.evaluable iht ihf
  | ret hv => exact .ret hv.evaluable
  | expression h => exact .expression h.evaluable

theorem Node.IsPart.executable {n : Node} (h : n.IsPart Spelled) : Executable n := by
  cases h with
  | function _ _ hb => exact .function _ _ hb.executable
  | statements h => exact h.executable

theorem shaped_program {ts : List Token} {tree : Node} (h : Program ts tree)
    (hs : AllSpelled ts) : ∃ block, tree = .program "main" block ∧ Executable block := by
  obtain ⟨parts, rfl, hparts⟩ := parts_of_program h hs
  exact ⟨_, rfl, .compound fun n hn => (hparts n hn).executable⟩

theorem allSpelled_tokenize (text : String) : AllSpelled (tokenize text).1 := by
  unfold tokenize
  cases hs : Stream.ofText text with
  | error e => exact fun _ ht => by cases ht
  | ok s => exact (Stream.scans_of_ofText hs).1.spelled

/-- The text has a tree that passes a check. -/
def parsesTo (depth : Nat) (text : String) (check : Node → Bool) : Bool :=
  match parseWithin .byOffset depth text with
  | .ok tree => check tree
  | .error _ => false

theorem exists_of_parsesTo {depth : Nat} {text : String} {check : Node → Bool}
    (h : parsesTo depth text check = true) :
    ∃ tree, parseWithin .byOffset depth text = .ok tree ∧ check tree = true := by
  unfold parsesTo at h
  split at h
  · next tree htree => exact ⟨tree, htree, h⟩
  · cases h

/-- The tree of a text is a program of declarations and statements. -/
theorem parts_of_parseWithin {text : String} {depth : Nat} {tree : Node}
    (h : parseWithin .byOffset depth text = .ok tree) :
    ∃ parts, tree = .program "main" (.compound parts) ∧ ∀ n ∈ parts, n.IsPart Spelled :=
  parts_of_program (derivable_of_parseWithin h).2 (allSpelled_tokenize text)

end LittleLang
