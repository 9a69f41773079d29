import LittleLang.Failure
import LittleLang.Log
import LittleLang.Node
import LittleLang.Proofs.Likeness.Steps
import LittleLang.Token.Stream

/-!
# Like but for their tokens

A likeness says when two tokens count as the same, two lexical errors, and two offsets in a text.
Tokens that are alike have one kind and one text, so no stage can tell them apart; what is left to a
likeness is where they stand. Streams, trees and failures are alike if they are the same but for
tokens that are alike. Two logs may be related in any way that lasts when the same is written to
both.
-/

namespace LittleLang

/-- When two tokens, two lexical errors and two offsets are alike. -/
structure Likeness where
  token : Token → Token → Prop
  error : LexicalError → LexicalError → Prop
  offset : Nat → Nat → Prop
  kind_eq {t t' : Token} : token t t' → t.kind = t'.kind
  text_eq {t t' : Token} : token t t' → t.text = t'.text

namespace Likeness

variable {l : Likeness}

/-! ## Streams -/

inductive Streams (l : Likeness) : Stream → Stream → Prop where
  | finish {h h' : Placed} : l.token h.token h'.token → l.offset h.stop h'.stop →
      Streams l (.finish h) (.finish h')
  | blocked {h h' : Placed} {e e' : LexicalError} : l.token h.token h'.token →
      l.offset h.stop h'.stop → l.error e e' → Streams l (.blocked h e) (.blocked h' e')
  | more {h h' : Placed} {tail tail' : Stream} : l.token h.token h'.token →
      l.offset h.stop h'.stop → Streams l tail tail' → Streams l (.more h tail) (.more h' tail')

namespace Streams

variable {s s' : Stream}

theorem token (h : l.Streams s s') : l.token s.token s'.token := by
  cases h with
  | finish ht => exact ht
  | blocked ht => exact ht
  | more ht => exact ht

theorem offset (h : l.Streams s s') : l.offset s.head.stop s'.head.stop := by
  cases h with
  | finish _ ho => exact ho
  | blocked _ ho => exact ho
  | more _ ho => exact ho

theorem kind_eq (h : l.Streams s s') : s.kind = s'.kind :=
  l.kind_eq h.token

theorem length_eq (h : l.Streams s s') : s.length = s'.length := by
  induction h with
  | finish => rfl
  | blocked => rfl
  | more _ _ _ ih => rw [Stream.length, Stream.length, ih]

end Streams

/-! ## Trees -/

theorem optional (l : Likeness) (h : ∀ t, l.token t t) : ∀ t : Option Token, t.Rel l.token t
  | none => .none
  | some t => .some (h t)

structure Parameters (l : Likeness) (p p' : Parameter) : Prop where
  type : l.token p.type p'.type
  name : l.token p.name p'.name

/-- Trees of the same form with tokens that are alike. -/
inductive Trees (l : Likeness) : Node → Node → Prop where
  | program (name : String) {block block' : Node} :
      Trees l block block' → Trees l (.program name block) (.program name block')
  | compound {children children' : List Node} :
      children.Forall₂ (Trees l) children' → Trees l (.compound children) (.compound children')
  | noOp : Trees l .noOp .noOp
  | intLiteral {t t' : Token} : l.token t t' → Trees l (.intLiteral t) (.intLiteral t')
  | floatLiteral {t t' : Token} : l.token t t' → Trees l (.floatLiteral t) (.floatLiteral t')
  | boolLiteral {t t' : Token} : l.token t t' → Trees l (.boolLiteral t) (.boolLiteral t')
  | var {t t' : Token} : l.token t t' → Trees l (.var t) (.var t')
  | typeName {t t' : Token} : l.token t t' → Trees l (.typeName t) (.typeName t')
  | unary {op op' : Token} {operand operand' : Node} : l.token op op' →
      Trees l operand operand' → Trees l (.unary op operand) (.unary op' operand')
  | binary {op op' : Token} {left left' right right' : Node} : l.token op op' →
      Trees l left left' → Trees l right right' →
      Trees l (.binary op left right) (.binary op' left' right')
  | assign {type type' : Option Token} {target target' op op' : Token} {value value' : Node} :
      type.Rel l.token type' → l.token target target' → l.token op op' → Trees l value value' →
      Trees l (.assign type target op value) (.assign type' target' op' value')
  | branch {keyword keyword' : Option Token} {c c' t t' f f' : Node} : keyword.Rel l.token keyword' →
      Trees l c c' → Trees l t t' → Trees l f f' →
      Trees l (.branch keyword c t f) (.branch keyword' c' t' f')
  | ret {value value' : Node} : Trees l value value' → Trees l (.ret value) (.ret value')
  | parameter {p p' : Parameter} : l.Parameters p p' → Trees l (.parameter p) (.parameter p')
  | function {name name' : Token} {ps ps' : List Parameter} {body body' : Node} :
      l.token name name' → ps.Forall₂ l.Parameters ps' → Trees l body body' →
      Trees l (.function name ps body) (.function name' ps' body')
  | call {name name' : Token} {arguments arguments' : List Node} : l.token name name' →
      arguments.Forall₂ (Trees l) arguments' →
      Trees l (.call name arguments) (.call name' arguments')
  | bare : Trees l .bare .bare
  | missing : Trees l .missing .missing

namespace Trees

variable {n n' : Node}

theorem isReturn_eq (h : l.Trees n n') : n.isReturn = n'.isReturn := by
  cases h <;> rfl

theorem isReference_eq (h : l.Trees n n') : n.isReference = n'.isReference := by
  cases h <;> rfl

theorem throughReturn {ns ns' : List Node} (h : ns.Forall₂ l.Trees ns') :
    (Node.throughReturn ns).Forall₂ l.Trees (Node.throughReturn ns') := by
  induction h with
  | nil => exact .nil
  | cons hn _ ih =>
    unfold Node.throughReturn
    rw [hn.isReturn_eq]
    split
    · exact .cons hn .nil
    · exact .cons hn ih

theorem refl (h : ∀ t, l.token t t) : ∀ n, l.Trees n n
  | .program name block => .program name (refl h block)
  | .compound children => .compound (all children)
  | .noOp => .noOp
  | .intLiteral t => .intLiteral (h t)
  | .floatLiteral t => .floatLiteral (h t)
  | .boolLiteral t => .boolLiteral (h t)
  | .var t => .var (h t)
  | .typeName t => .typeName (h t)
  | .unary op operand => .unary (h op) (refl h operand)
  | .binary op left right => .binary (h op) (refl h left) (refl h right)
  | .assign type target op value => .assign (l.optional h type) (h target) (h op) (refl h value)
  | .branch keyword c t f => .branch (l.optional h keyword) (refl h c) (refl h t) (refl h f)
  | .ret value => .ret (refl h value)
  | .parameter p => .parameter ⟨h p.type, h p.name⟩
  | .function name _ body =>
    .function (h name) (List.forall₂_same.mpr fun p _ => ⟨h p.type, h p.name⟩) (refl h body)
  | .call name arguments => .call (h name) (all arguments)
  | .bare => .bare
  | .missing => .missing
where
  all : ∀ ns : List Node, ns.Forall₂ l.Trees ns
    | [] => .nil
    | n :: ns => .cons (refl h n) (all ns)

end Trees

end Likeness

/-! ## Failures -/

/-- The failure tells of no place in a text. -/
def Failure.isPlaceless : Failure → Bool
  | lexical _ | unexpected _ | semantic .. | runtime .. => false
  | _ => true

def Placeless {α : Type} (r : Except Failure α) : Prop :=
  ∀ e, r = .error e → e.isPlaceless = true

section

variable {α β : Type}

theorem placeless_ok (a : α) : Placeless (.ok a : Except Failure α) :=
  fun _ h => by cases h

theorem placeless_error {e : Failure} (h : e.isPlaceless = true) :
    Placeless (.error e : Except Failure α) := by
  rintro _ ⟨⟩
  exact h

theorem Placeless.bind {r : Except Failure α} {f : α → Except Failure β} (h : Placeless r)
    (hf : ∀ a, Placeless (f a)) : Placeless (r >>= f) := by
  cases r with
  | error e => exact placeless_error (h e rfl)
  | ok a => exact hf a

theorem Placeless.map {r : Except Failure α} (h : Placeless r) (f : α → β) :
    Placeless (f <$> r) := by
  rw [map_eq_pure_bind]
  exact h.bind fun a => placeless_ok (f a)

theorem placeless_foldlM {f : β → α → Except Failure β} (h : ∀ b a, Placeless (f b a))
    (as : List α) (b : β) : Placeless (as.foldlM f b) := by
  induction as generalizing b with
  | nil => exact placeless_ok b
  | cons a as ih =>
    rw [List.foldlM_cons]
    exact (h b a).bind ih

end

namespace Likeness

variable {α : Type} {l : Likeness}

inductive Failures (l : Likeness) : Failure → Failure → Prop where
  | lexical {e e' : LexicalError} : l.error e e' → Failures l (.lexical e) (.lexical e')
  | unexpected {t t' : Token} : l.token t t' → Failures l (.unexpected t) (.unexpected t')
  | semantic (cause : SemanticCause) {t t' : Token} : l.token t t' →
      Failures l (.semantic cause t) (.semantic cause t')
  | runtime (cause : RuntimeCause) {t t' : Token} : l.token t t' →
      Failures l (.runtime cause t) (.runtime cause t')
  | placeless {e : Failure} : e.isPlaceless = true → Failures l e e

inductive Outcomes (l : Likeness) (A : α → α → Prop) :
    Except Failure α → Except Failure α → Prop where
  | ok {a a' : α} : A a a' → Outcomes l A (.ok a) (.ok a')
  | error {e e' : Failure} : l.Failures e e' → Outcomes l A (.error e) (.error e')

/-! ## The same tokens -/

/-- Nothing is alike but what is the same. -/
def identity : Likeness where
  token := Eq
  error := Eq
  offset := Eq
  kind_eq h := congrArg Token.kind h
  text_eq h := congrArg Token.text h

theorem Parameters.eq {ps ps' : List Parameter} (h : ps.Forall₂ identity.Parameters ps') :
    ps = ps' := by
  rw [← List.forall₂_eq_eq_eq]
  refine h.imp fun p p' hp => ?_
  obtain ⟨type, name⟩ := p
  obtain ⟨rfl, rfl⟩ := hp
  rfl

theorem Failures.eq {e e' : Failure} (h : identity.Failures e e') : e = e' := by
  cases h with
  | lexical he => exact congrArg Failure.lexical he
  | unexpected ht => exact congrArg Failure.unexpected ht
  | semantic cause ht => exact congrArg (Failure.semantic cause) ht
  | runtime cause ht => exact congrArg (fun t => Failure.runtime cause (some t)) ht
  | placeless => rfl

theorem Outcomes.eq {α : Type} {r r' : Except Failure α} (h : identity.Outcomes Eq r r') :
    r = r' := by
  cases h with
  | ok ha => exact congrArg Except.ok ha
  | error he => exact congrArg Except.error he.eq

end Likeness

/-! ## Logs -/

/-- The relation between two logs lasts when a message of a level above zero is written to both. The
walks have no others. -/
def Log.Lasting (L : Log → Log → Prop) : Prop :=
  ∀ log log' level text, 0 < level → L log log' → L (log.write level text) (log'.write level text)

theorem Log.lasting_eq : Log.Lasting Eq :=
  fun _ _ level text _ h => congrArg (Log.write · level text) h

end LittleLang
