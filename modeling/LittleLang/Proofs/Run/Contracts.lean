import LittleLang.Proofs.Likeness.Trees
import LittleLang.Proofs.Operators
import LittleLang.Proofs.Run.Walk

/-!
# Contracts of a walk

What is proved of runs are contracts between two steps that come to the same result: a walk and a
watched form of it, the walks over two trees that are alike, the walk over one tree in two machines.
The rules of `Contract` put steps together. With `Contract.Rules`, what a contract says of single
steps, they follow a walk through one node, given how it goes on: `evaluateNode` and `call` for
expressions, `executeNode` for statements, in which two contracts meet. So a contract has to deal
with single steps and with records that come and go, and no more. -/

namespace LittleLang

namespace Node

/-- Lists of related nodes. After a return anything may follow in either list. -/
inductive Reaching (N : Node → Node → Prop) : List Node → List Node → Prop where
  | nil : Reaching N [] []
  | cons {n n' : Node} {ns ns' : List Node} :
      N n n' → Reaching N ns ns' → Reaching N (n :: ns) (n' :: ns')
  | ret {n n' : Node} {ns ns' : List Node} :
      N n n' → n.isReturn = true → Reaching N (n :: ns) (n' :: ns')

theorem Reaching.of_forall₂ {N : Node → Node → Prop} {ns ns' : List Node}
    (h : ns.Forall₂ N ns') : Reaching N ns ns' := by
  induction h with
  | nil => exact .nil
  | cons hn _ ih => exact .cons hn ih

/-- Nodes of one form with tokens that are alike. What is executed of them is related in one way,
what is evaluated in another, and what is only declared in a third. -/
inductive Layer (l : Likeness) (X E D : Node → Node → Prop) : Node → Node → Prop where
  | program (name : String) {block block' : Node} : X block block' →
      Layer l X E D (.program name block) (.program name block')
  | compound {children children' : List Node} : Reaching X children children' →
      Layer l X E D (.compound children) (.compound children')
  | noOp : Layer l X E D .noOp .noOp
  | intLiteral {t t' : Token} : l.token t t' → Layer l X E D (.intLiteral t) (.intLiteral t')
  | floatLiteral {t t' : Token} : l.token t t' → Layer l X E D (.floatLiteral t) (.floatLiteral t')
  | boolLiteral {t t' : Token} : l.token t t' → Layer l X E D (.boolLiteral t) (.boolLiteral t')
  | var {t t' : Token} : l.token t t' → Layer l X E D (.var t) (.var t')
  | typeName {t t' : Token} : l.token t t' → Layer l X E D (.typeName t) (.typeName t')
  | unary {op op' : Token} {operand operand' : Node} : l.token op op' → E operand operand' →
      Layer l X E D (.unary op operand) (.unary op' operand')
  | binary {op op' : Token} {left left' right right' : Node} : l.token op op' → E left left' →
      E right right' → Layer l X E D (.binary op left right) (.binary op' left' right')
  | assign {type type' : Option Token} {target target' op op' : Token} {value value' : Node} :
      type.Rel l.token type' → l.token target target' → l.token op op' → E value value' →
      Layer l X E D (.assign type target op value) (.assign type' target' op' value')
  | branch {keyword keyword' : Option Token} {c c' t t' f f' : Node} : keyword.Rel l.token keyword' →
      E c c' → X t t' → X f f' → Layer l X E D (.branch keyword c t f) (.branch keyword' c' t' f')
  | ret {value value' : Node} : E value value' → Layer l X E D (.ret value) (.ret value')
  | parameter {p p' : Parameter} : l.Parameters p p' →
      Layer l X E D (.parameter p) (.parameter p')
  | function {name name' : Token} {ps ps' : List Parameter} {body body' : Node} :
      l.token name name' → ps.Forall₂ l.Parameters ps' → D body body' →
      Layer l X E D (.function name ps body) (.function name' ps' body')
  | call {name name' : Token} {arguments arguments' : List Node} : l.token name name' →
      arguments.Forall₂ E arguments' → Layer l X E D (.call name arguments) (.call name' arguments')
  | bare : Layer l X E D .bare .bare
  | missing : Layer l X E D .missing .missing

/-- A node is of one form with itself, and so are its parts. -/
theorem Layer.self {X E D : Node → Node → Prop} {n : Node}
    (hX : ∀ c ∈ Running.executed n, X c c) (hE : ∀ c ∈ Running.evaluated n, E c c)
    (hE' : ∀ c ∈ Running.operands n, E c c)
    (hD : ∀ name parameters body, n = .function name parameters body → D body body) :
    Layer .identity X E D n n := by
  have hoptional := Likeness.identity.optional fun _ => rfl
  cases n with
  | program name block => exact .program name (hX block (by simp [Running.executed]))
  | compound children => exact .compound (.of_forall₂ (List.forall₂_same.mpr hX))
  | unary op operand => exact .unary rfl (hE' operand (by simp [Running.operands]))
  | binary op left right =>
    exact .binary rfl (hE' left (by simp [Running.operands]))
      (hE' right (by simp [Running.operands]))
  | assign type target op value =>
    exact .assign (hoptional type) rfl rfl (hE value (by simp [Running.evaluated]))
  | branch keyword c t f =>
    exact .branch (hoptional keyword) (hE c (by simp [Running.evaluated]))
      (hX t (by simp [Running.executed])) (hX f (by simp [Running.executed]))
  | ret value => exact .ret (hE value (by simp [Running.evaluated]))
  | parameter p => exact .parameter ⟨rfl, rfl⟩
  | function name parameters body =>
    exact .function rfl (List.forall₂_same.mpr fun _ _ => ⟨rfl, rfl⟩) (hD _ _ _ rfl)
  | call name arguments => exact .call rfl (List.forall₂_same.mpr hE')
  | noOp => exact .noOp
  | bare => exact .bare
  | missing => exact .missing
  | intLiteral t => exact .intLiteral rfl
  | floatLiteral t => exact .floatLiteral rfl
  | boolLiteral t => exact .boolLiteral rfl
  | var t => exact .var rfl
  | typeName t => exact .typeName rfl

/-- The same node, of a kind. -/
def Both (P : Node → Prop) (n n' : Node) : Prop :=
  n = n' ∧ P n

theorem forall₂_both {P : Node → Prop} {ns ns' : List Node} (h : ns.Forall₂ (Both P) ns') :
    ns = ns' ∧ ∀ n ∈ ns, P n := by
  have hsame : ns.Forall₂ Eq ns' := h.imp fun _ _ hn => hn.1
  rw [List.forall₂_eq_eq_eq] at hsame
  subst hsame
  exact ⟨rfl, fun n hn => (List.forall₂_same.mp h n hn).2⟩

end Node

namespace Running

open LittleLang.Number

variable {α β : Type}

/-! ## Putting steps together -/

/-- A contract between two steps that come to the same result. -/
structure Contract where
  /-- The steps keep the contract, and their result has the property. -/
  Holds {α : Type} (p p' : Running α) (post : α → Prop) : Prop
  of_pure {α : Type} {post : α → Prop} {a : α} : post a → Holds (pure a) (pure a) post
  bind {α β : Type} {p p' : Running α} {f f' : α → Running β} {mid : α → Prop} {post : β → Prop} :
    Holds p p' mid → (∀ a, mid a → Holds (f a) (f' a) post) → Holds (p >>= f) (p' >>= f') post

namespace Contract

/-- Two steps side by side that come to the same result. -/
def ofInStep (S : Machine → Machine → Prop) (H : Stop → Stop → Machine → Machine → Prop) :
    Contract where
  Holds p p' post := InStep S H p p' fun a a' => a = a' ∧ post a
  of_pure h := inStep_pure ⟨rfl, h⟩
  bind h hf := InStep.bind h fun a _ ha => ha.1 ▸ hf a ha.2

variable {C : Contract} {p p' q q' : Running α} {post mid : α → Prop}

theorem weaken (h : C.Holds p p' mid) (hp : ∀ a, mid a → post a) : C.Holds p p' post := by
  have hbind : C.Holds (p >>= pure) (p' >>= pure) post := C.bind h fun a ha => C.of_pure (hp a ha)
  rwa [bind_pure, bind_pure] at hbind

theorem ite {c : Prop} [Decidable c] (h : c → C.Holds p p' post) (h' : ¬c → C.Holds q q' post) :
    C.Holds (if c then p else q) (if c then p' else q') post := by
  split
  · exact h ‹c›
  · exact h' ‹¬c›

theorem mapM {R : α → α → Prop} {f f' : α → Running β} {as as' : List α}
    (has : as.Forall₂ R as') (h : ∀ a a', R a a' → C.Holds (f a) (f' a') fun _ => True) :
    C.Holds (as.mapM f) (as'.mapM f') fun bs => bs.length = as.length := by
  induction has with
  | nil => exact C.of_pure rfl
  | cons ha _ ih =>
    rw [List.mapM_cons, List.mapM_cons]
    refine C.bind (h _ _ ha) fun b _ => C.bind ih fun bs hbs => C.of_pure ?_
    simp [hbs]

/-- There is no result of carrying out a return. -/
def Gets (n : Node) (_ : Value) : Prop :=
  n.isReturn = false

/-- Nodes are carried out one after another, up to a return at most. -/
theorem foldlM {X : Node → Node → Prop} {execute execute' : Node → Running Value}
    (hex : ∀ n n', X n n' → C.Holds (execute n) (execute' n') (Gets n)) {ns ns' : List Node}
    (h : Node.Reaching X ns ns') (v : Value) :
    C.Holds (ns.foldlM (fun _ n => execute n) v) (ns'.foldlM (fun _ n => execute' n) v)
      fun _ => True := by
  induction h generalizing v with
  | nil => exact C.of_pure trivial
  | cons hn _ ih =>
    rw [List.foldlM_cons, List.foldlM_cons]
    exact C.bind (hex _ _ hn) fun v _ => ih v
  | ret hn hr =>
    -- a return has no result to go on with, so what follows it is never asked for
    rw [List.foldlM_cons, List.foldlM_cons]
    exact C.bind (hex _ _ hn) fun _ hv => absurd hr (by simp [show _ = false from hv])

/-! ## Expressions -/

/-- What a contract says of the steps that a walk over expressions is made of. -/
structure Rules (C : Contract) (l : Likeness) : Prop where
  text (v : Value) : C.Holds (number v.text) (number v.text) fun t => v.text = .ok t
  remark {level : Int} {text : String} : Remark level text →
    C.Holds (note level text) (note level text) fun _ => True
  operands {op op' : Token} {cause : RuntimeCause} : l.token op op' → cause.isOfOperands = true →
    C.Holds (fail (.runtime cause op) : Running Value) (fail (.runtime cause op')) fun _ => True
  beyondFloat : C.Holds (fail (.number .beyondFloat) : Running Value)
    (fail (.number .beyondFloat)) fun _ => True

section

variable {l : Likeness} {X E D : Node → Node → Prop} {n n' : Node}
  {evaluate evaluate' execute execute' : Node → Running Value}

theorem Rules.applied (R : C.Rules l) {op op' : Token} (hop : l.token op op')
    {r r' : Except Failure Value} (h : Value.Applied op op' r r') :
    C.Holds (lift r) (lift r') fun _ => True := by
  cases h with
  | value v => exact C.of_pure trivial
  | blamed hcause => exact R.operands hop hcause
  | beyondFloat => exact R.beyondFloat

theorem Rules.texts (R : C.Rules l) (values : List Value) :
    C.Holds (values.mapM fun v => number v.text) (values.mapM fun v => number v.text)
      fun _ => ∀ v ∈ values, v.Shown := by
  induction values with
  | nil => exact C.of_pure (by simp)
  | cons v values ih =>
    rw [List.mapM_cons]
    refine C.bind (R.text v) fun t ht => C.bind ih fun ts hts => C.of_pure ?_
    simpa using ⟨⟨t, ht⟩, hts⟩

theorem evaluateRight (R : C.Rules l) {op op' : Token} (hop : l.token op op') (a : Value)
    {right right' : Running Value} (h : C.Holds right right' fun _ => True) :
    C.Holds (evaluateRight op a right) (Running.evaluateRight op' a right') fun _ => True := by
  have happlied (a : Value) : C.Holds (do lift (Value.applyBinary op a (← right)))
      (do lift (Value.applyBinary op' a (← right'))) fun _ => True :=
    C.bind h fun b _ => R.applied hop (Value.applied_binary (l.kind_eq hop) (l.text_eq hop) a b)
  unfold Running.evaluateRight
  rw [← l.kind_eq hop]
  split
  · exact h
  · exact C.of_pure trivial
  · exact C.of_pure trivial
  · exact h
  · exact happlied _

/-- What `evaluate` does at a node keeps a contract. What is left to the contract are variables,
calls and the failure that lies in the node itself. -/
theorem evaluateNode (R : C.Rules l) (hn : Node.Layer l X E D n n')
    {call call' : Token → List Node → Running Value}
    (hev : ∀ c c', E c c' → C.Holds (evaluate c) (evaluate' c') fun _ => True)
    (hload : ∀ t t', n = .var t → l.token t t' → C.Holds (load t) (load t') fun _ => True)
    (hcall : ∀ t t' as as', n = .call t as → l.token t t' → as.Forall₂ E as' →
      C.Holds (call t as) (call' t' as') fun _ => True)
    (hown : ∀ e, ownFailure? n = some e →
      C.Holds (fail e : Running Value) (fail e) fun _ => True) :
    C.Holds (evaluateNode evaluate call n) (Running.evaluateNode evaluate' call' n')
      fun _ => True := by
  have hread {β : Type} {r : Except NumberFault β} (f : β → Value)
      (h : ownFailure? n = ownFailure?.failure? r) :
      C.Holds (do return f (← number r)) (do return f (← number r)) fun _ => True := by
    cases r with
    | ok b => exact C.of_pure trivial
    | error e => exact hown _ h
  unfold Running.evaluateNode
  cases hn with
  | intLiteral ht =>
    dsimp only
    rw [← l.text_eq ht]
    exact hread _ rfl
  | floatLiteral ht =>
    dsimp only
    rw [← l.text_eq ht]
    exact hread _ rfl
  | boolLiteral ht =>
    dsimp only
    rw [← l.text_eq ht]
    exact hread _ rfl
  | var ht => exact hload _ _ rfl ht
  | unary hop ho =>
    refine C.bind (hev _ _ ho) fun v _ => R.applied hop ?_
    exact Value.applied_unary (l.kind_eq hop) (l.text_eq hop) v
  | binary hop hl hr => exact C.bind (hev _ _ hl) fun a _ => evaluateRight R hop a (hev _ _ hr)
  | call ht has => exact hcall _ _ _ _ rfl ht has
  | _ => exact hown _ rfl

/-! ## Calls -/

section

variable {name name' : Token}

theorem invoke (R : C.Rules l) (hname : l.token name name') {f f' : Function} {values : List Value}
    (hbody : (∀ v ∈ values, v.Shown) →
      C.Holds (enact execute name f values) (enact execute' name' f' values) fun _ => True) :
    C.Holds (invoke execute name f values) (Running.invoke execute' name' f' values)
      fun _ => True := by
  unfold Running.invoke
  rw [← l.text_eq hname]
  exact C.bind (R.texts values) fun texts hshown =>
    C.bind (R.remark (.call _ _)) fun _ _ => hbody hshown

/-- A call keeps a contract. What is left to the contract are the functions that are found, in a
relation `F`, and what becomes of their bodies. -/
theorem call (R : C.Rules l) (hname : l.token name name') {F : Function → Function → Prop}
    {arguments arguments' : List Node} (hargs : arguments.Forall₂ E arguments')
    (hlength : ∀ f f', F f f' → f.parameters.length = f'.parameters.length)
    (hfind : ∀ {k k' : Function → Running Value},
      (∀ f f', F f f' → C.Holds (k f) (k' f') fun _ => True) →
      C.Holds (functionNamed name >>= k) (functionNamed name' >>= k') fun _ => True)
    (hcount : ∀ f f', F f f' → arguments.length ≠ f.parameters.length → C.Holds
      (blame name (.argumentCount name.text f.parameters.length arguments.length))
      (blame name' (.argumentCount name.text f.parameters.length arguments.length) : Running Value)
      fun _ => True)
    (hev : ∀ c c', E c c' → C.Holds (evaluate c) (evaluate' c') fun _ => True)
    (hbody : ∀ f f' values, F f f' → values.length = f.parameters.length →
      (∀ v ∈ values, v.Shown) →
      C.Holds (enact execute name f values) (enact execute' name' f' values) fun _ => True) :
    C.Holds (call evaluate execute name arguments) (Running.call evaluate' execute' name' arguments')
      fun _ => True := by
  rw [call_eq, call_eq]
  refine hfind fun f f' hf => ?_
  rw [← hargs.length_eq, ← hlength f f' hf, ← l.text_eq hname]
  by_cases hne : arguments.length ≠ f.parameters.length
  · rw [if_pos hne, if_pos hne]
    exact hcount f f' hf hne
  · rw [if_neg hne, if_neg hne]
    refine C.bind (mapM hargs hev) fun values hvalues => invoke R hname ?_
    exact hbody f f' values hf (hvalues.trans (Classical.not_not.mp hne))

end

/-! ## Statements -/

/-- What `execute` does at a node keeps a contract `S` for statements, if a contract `C` for
expressions goes over to it. What is left are the steps that change the machine. -/
theorem executeNode {S : Contract} (R : C.Rules l)
    (hembed : ∀ {α : Type} {p p' : Running α} {post : α → Prop},
      C.Holds p p' post → S.Holds p p' post)
    (hn : Node.Layer l X E D n n') (hself : evaluated n = [n] → E n n')
    (hev : ∀ c c', E c c' → C.Holds (evaluate c) (evaluate' c') fun _ => True)
    (hex : ∀ c c', X c c' → S.Holds (execute c) (execute' c') (Gets c))
    (hreturn : ∀ v {post}, S.Holds (throw (.returned v) : Running Value) (throw (.returned v)) post)
    (hassign : ∀ type target op value target', n = .assign type target op value →
      l.token target target' → ∀ v, S.Holds (assign target v) (assign target' v) fun _ => True)
    (hdeclare : ∀ name name' ps ps' body body', n = .function name ps body → l.token name name' →
      ps.Forall₂ l.Parameters ps' → D body body' →
      S.Holds (declare name ps body) (declare name' ps' body') fun _ => True)
    (hstart : ∀ name block block', n = .program name block → X block block' →
      S.Holds (start name (execute block)) (start name (execute' block')) fun _ => True) :
    S.Holds (executeNode evaluate execute n) (Running.executeNode evaluate' execute' n')
      (Gets n) := by
  have hgets {n : Node} (hr : n.isReturn = false) {p p' : Running Value}
      (h : S.Holds p p' fun _ => True) : S.Holds p p' (Gets n) :=
    weaken h fun _ _ => hr
  have hall {c c' : Node} (h : X c c') : S.Holds (execute c) (execute' c') fun _ => True :=
    weaken (hex c c' h) fun _ _ => trivial
  unfold Running.executeNode
  cases hn with
  | program name hb => exact hgets rfl (hstart _ _ _ rfl hb)
  | compound hc => exact hgets rfl (foldlM hex hc .none)
  | noOp => exact S.of_pure rfl
  | assign _ ht _ hv =>
    exact S.bind (hembed (hev _ _ hv)) fun v _ => hgets rfl (hassign _ _ _ _ _ rfl ht v)
  | branch _ hc ht hf =>
    refine hgets rfl (S.bind (hembed (hev _ _ hc)) fun v _ => ?_)
    refine S.bind (hembed (R.text v)) fun t _ => ?_
    refine S.bind (hembed (R.remark (.condition t))) fun _ _ => ?_
    exact ite (fun _ => hall ht) fun _ => hall hf
  | ret hv => exact S.bind (hembed (hev _ _ hv)) fun v _ => hreturn v
  | function ht hps hb => exact hgets rfl (hdeclare _ _ _ _ _ _ rfl ht hps hb)
  | _ => exact hgets rfl (hembed (hev _ _ (hself rfl)))

end

/-! ## One tree

The rules for two walks over the same node. -/

section

variable {X E : Node → Prop} {R D : Node → Node → Prop} {n : Node}
  {evaluate evaluate' execute execute' : Node → Running Value}

theorem evaluateNode_same (h : C.Rules .identity) (hn : Node.Layer .identity R (Node.Both E) D n n)
    {call call' : Token → List Node → Running Value}
    (hev : ∀ c, E c → C.Holds (evaluate c) (evaluate' c) fun _ => True)
    (hload : ∀ t, n = .var t → C.Holds (load t) (load t) fun _ => True)
    (hcall : ∀ t as, n = .call t as → (∀ a ∈ as, E a) →
      C.Holds (call t as) (call' t as) fun _ => True)
    (hown : ∀ e, ownFailure? n = some e →
      C.Holds (fail e : Running Value) (fail e) fun _ => True) :
    C.Holds (Running.evaluateNode evaluate call n) (Running.evaluateNode evaluate' call' n)
      fun _ => True := by
  refine evaluateNode h hn ?_ ?_ ?_ hown
  · rintro c _ ⟨rfl, hc⟩
    exact hev c hc
  · rintro t _ ht rfl
    exact hload t ht
  · rintro t _ as _ ht rfl has
    obtain ⟨rfl, hall⟩ := Node.forall₂_both has
    exact hcall t as ht hall

theorem call_same (h : C.Rules .identity) {name : Token} {arguments : List Node}
    {G : Function → Prop} (hfind : C.Holds (functionNamed name) (functionNamed name) G)
    (hcount : ∀ f, G f → arguments.length ≠ f.parameters.length → C.Holds
      (blame name (.argumentCount name.text f.parameters.length arguments.length))
      (blame name (.argumentCount name.text f.parameters.length arguments.length) : Running Value)
      fun _ => True)
    (hev : ∀ a ∈ arguments, C.Holds (evaluate a) (evaluate' a) fun _ => True)
    (hbody : ∀ f values, G f → values.length = f.parameters.length → (∀ v ∈ values, v.Shown) →
      C.Holds (enact execute name f values) (enact execute' name f values) fun _ => True) :
    C.Holds (Running.call evaluate execute name arguments)
      (Running.call evaluate' execute' name arguments) fun _ => True := by
  refine call (E := Node.Both (· ∈ arguments)) (F := fun f f' => f = f' ∧ G f) h rfl
    (List.forall₂_same.mpr fun a ha => ⟨rfl, ha⟩) ?_ ?_ ?_ ?_ ?_
  · rintro f _ ⟨rfl, -⟩
    rfl
  · exact fun hk => C.bind hfind fun f hf => hk f f ⟨rfl, hf⟩
  · rintro f _ ⟨rfl, hf⟩ hne
    exact hcount f hf hne
  · rintro a _ ⟨rfl, ha⟩
    exact hev a ha
  · rintro f _ values ⟨rfl, hf⟩ hlength hvalues
    exact hbody f values hf hlength hvalues

theorem executeNode_same {S : Contract} (h : C.Rules .identity)
    (hembed : ∀ {α : Type} {p p' : Running α} {post : α → Prop},
      C.Holds p p' post → S.Holds p p' post)
    (hn : Node.Layer .identity (Node.Both X) (Node.Both E) Eq n n)
    (hself : evaluated n = [n] → E n)
    (hev : ∀ c, E c → C.Holds (evaluate c) (evaluate' c) fun _ => True)
    (hex : ∀ c, X c → S.Holds (execute c) (execute' c) (Gets c))
    (hreturn : ∀ v {post}, S.Holds (throw (.returned v) : Running Value) (throw (.returned v)) post)
    (hassign : ∀ type target op value, n = .assign type target op value →
      ∀ v, S.Holds (assign target v) (assign target v) fun _ => True)
    (hdeclare : ∀ name ps body, n = .function name ps body →
      S.Holds (declare name ps body) (declare name ps body) fun _ => True)
    (hstart : ∀ name block, n = .program name block → X block →
      S.Holds (start name (execute block)) (start name (execute' block)) fun _ => True) :
    S.Holds (Running.executeNode evaluate execute n) (Running.executeNode evaluate' execute' n)
      (Gets n) := by
  refine executeNode h hembed hn (fun hs => ⟨rfl, hself hs⟩) ?_ ?_ hreturn ?_ ?_ ?_
  · rintro c _ ⟨rfl, hc⟩
    exact hev c hc
  · rintro c _ ⟨rfl, hc⟩
    exact hex c hc
  · rintro type target op value _ hassigned rfl
    exact hassign type target op value hassigned
  · rintro name _ ps ps' body _ hdeclared rfl hps rfl
    obtain rfl := Likeness.Parameters.eq hps
    exact hdeclare name ps body hdeclared
  · rintro name block _ hstarted ⟨rfl, hblock⟩
    exact hstart name block hstarted hblock

end

end Contract

end Running

end LittleLang
