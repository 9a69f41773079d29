import LittleLang.Proofs.Forms
import LittleLang.Proofs.Run.Steady

/-!
# Moments of a run

`Evaluates start depth tree node m`: the run of a tree evaluates the node in the state `m` of the
machine. It is said by means of monitors, one for each node: there is a way to tamper with the
evaluation of this node in this state, and with no other, that changes the run. So what holds at
every evaluation that a monitor need not pass on unchanged holds of every moment
(`Evaluates.of_passes`).

Whenever a parsed program evaluates an expression, there is a record on the stack, all that is on
the stack can be shown, and the functions have statements for bodies (`Evaluates.ready`). -/

namespace LittleLang

namespace Running

mutual

/-- `execute` with a monitor on each evaluation. -/
def executeSeen (seen : Node → Monitor) : Nat → Node → Running Value
  | 0, _ => fail .tooDeep
  | depth + 1, node => executeNode (evaluateSeen seen depth) (executeSeen seen depth) node

def evaluateSeen (seen : Node → Monitor) : Nat → Node → Running Value
  | 0, node => watch (seen node) (fail .tooDeep)
  | depth + 1, node =>
    watch (seen node) (evaluateNode (evaluateSeen seen depth)
      (call (evaluateSeen seen depth) (executeSeen seen depth)) node)

end

/-- The run of a tree evaluates the node in the state `m`: a monitor that passes all other
evaluations on as they are can change the run. -/
def Evaluates (start : Machine) (depth : Nat) (tree node : Node) (m : Machine) : Prop :=
  ∃ seen : Node → Monitor,
    (∀ node' m' r, ¬(node' = node ∧ m' = m) → seen node' m' r = r) ∧
      executeSeen seen depth tree start ≠ execute depth tree start

/-- What holds at every evaluation that a monitor may tamper with. -/
theorem Evaluates.of_passes {start m : Machine} {depth : Nat} {tree node : Node}
    {Q : Node → Machine → Prop} (h : Evaluates start depth tree node m)
    (hQ : ∀ seen : Node → Monitor, (∀ n m r, Q n m → seen n m r = r) →
      executeSeen seen depth tree start = execute depth tree start) : Q node m := by
  obtain ⟨seen, hpass, hne⟩ := h
  refine Classical.byContradiction fun hq => hne (hQ seen fun n m' r hn => hpass n m' r ?_)
  rintro ⟨rfl, rfl⟩
  exact hq hn

/-! ## Moments of parsed programs -/

abbrev Plain (node : Node) : Prop :=
  node.IsStatement fun _ => True

/-- All failures but that there is no record to store to. -/
abbrev Recorded (e : Failure) : Prop :=
  e ≠ .noRecord

theorem recorded_of_ownFailure {node : Node} {e : Failure} (h : ownFailure? node = some e) :
    Recorded e := by
  rcases eq_of_ownFailure h with ⟨fault, rfl⟩ | rfl
  · exact nofun
  · exact nofun

theorem evaluated_expression {P : Token → Prop} {node : Node} (h : node.IsExpression P) :
    evaluated node = [node] := by
  cases h <;> rfl

theorem isExpression_of_evaluated {P : Token → Prop} {node : Node} (h : node.IsStatement P) :
    ∀ n ∈ evaluated node, n.IsExpression P := by
  cases h with
  | assign _ _ _ hv => simpa [evaluated] using hv
  | branch _ hc => simpa [evaluated] using hc
  | ret hv => simpa [evaluated] using hv
  | expression h => simpa [evaluated_expression h] using h
  | _ => simp [evaluated]

theorem isStatement_of_executed {P : Token → Prop} {node : Node} (h : node.IsStatement P) :
    ∀ n ∈ executed node, n.IsStatement P := by
  cases h with
  | compound hs => exact hs
  | branch _ _ ht hf => simpa [executed] using ⟨ht, hf⟩
  | expression h => cases h <;> simp [executed]
  | _ => simp [executed]

theorem executeNode_expression {P : Token → Prop} {node : Node} (h : node.IsExpression P)
    (evaluate execute : Node → Running Value) :
    executeNode evaluate execute node = evaluate node := by
  cases h <;> rfl

theorem isExpression_of_operands {P : Token → Prop} {node : Node} (h : node.IsExpression P) :
    ∀ n ∈ operands node, n.IsExpression P := by
  cases h with
  | unary _ _ hv => simpa [operands] using hv
  | binary _ _ hl hr => simpa [operands] using ⟨hl, hr⟩
  | call _ hargs => exact hargs
  | _ => simp [operands]

/-- What a program walks over: statements of a kind, functions of a kind, and all of these one after
another. -/
inductive Block (S : Node → Prop) (good : String → Function → Prop) : Node → Prop where
  | statement {n : Node} : Plain n → S n → Block S good n
  | function {name : Token} {parameters : List Parameter} {body : Node} :
      good name.text ⟨parameters, body⟩ → Block S good (.function name parameters body)
  | parts {parts : List Node} : (∀ n ∈ parts, Block S good n) → Block S good (.compound parts)

namespace Block

variable {S : Node → Prop} {good : String → Function → Prop} {n : Node}

theorem of_executed (hS : ∀ n c, S n → Plain n → c ∈ executed n → S c) (h : Block S good n) :
    ∀ c ∈ executed n, Block S good c := by
  cases h with
  | function => simp [executed]
  | parts h => exact h
  | statement h hs =>
    exact fun c hc => .statement (isStatement_of_executed h c hc) (hS n c hs h hc)

theorem of_evaluated (h : Block S good n) : ∀ c ∈ evaluated n, c.IsExpression fun _ => True := by
  cases h with
  | function => simp [evaluated]
  | parts => simp [evaluated]
  | statement h => exact isExpression_of_evaluated h

theorem of_operands (h : Block S good n) : ∀ c ∈ operands n, c.IsExpression fun _ => True := by
  cases h with
  | function => simp [operands]
  | parts => simp [operands]
  | statement h =>
    cases h with
    | expression h => exact isExpression_of_operands h
    | _ => simp [operands]

theorem declared {name : Token} {parameters : List Parameter} {body : Node}
    (h : Block S good (.function name parameters body)) : good name.text ⟨parameters, body⟩ := by
  cases h with
  | function h => exact h
  | statement h => exact absurd rfl h.ne_function

theorem ne_program {name : String} {block : Node} : ¬Block S good (.program name block) := by
  intro h
  cases h with
  | statement h =>
    cases h with
    | expression h => cases h

theorem layer (hS : ∀ n c, S n → Plain n → c ∈ executed n → S c) (h : Block S good n) :
    Node.Layer .identity (Node.Both (Block S good)) (Node.Both (Node.IsExpression fun _ => True)) Eq
      n n :=
  .self (fun c hc => ⟨rfl, h.of_executed hS c hc⟩) (fun c hc => ⟨rfl, h.of_evaluated c hc⟩)
    (fun c hc => ⟨rfl, h.of_operands c hc⟩) fun _ _ _ _ => rfl

theorem self (h : Block S good n) (hself : evaluated n = [n]) : n.IsExpression fun _ => True :=
  h.of_evaluated n (by simp [hself])

end Block

theorem layer_expression {n : Node} (h : n.IsExpression fun _ => True) :
    Node.Layer .identity (fun _ _ => True) (Node.Both (Node.IsExpression fun _ => True))
      (fun _ _ => True) n n :=
  .self (fun _ _ => trivial) (fun c hc => ⟨rfl, isExpression_of_evaluated (.expression h) c hc⟩)
    (fun c hc => ⟨rfl, isExpression_of_operands h c hc⟩) fun _ _ _ _ => trivial

abbrev PlainFunction (_ : String) (f : Function) : Prop :=
  Plain f.body

theorem block_of_parts {parts : List Node} (h : ∀ n ∈ parts, n.IsPart fun _ => True) :
    Block (fun _ => True) PlainFunction (.compound parts) := by
  refine .parts fun n hn => ?_
  cases h n hn with
  | function _ _ hb => exact .function hb
  | statements h => exact .statement h trivial

theorem nodes_block : Nodes PlainFunction Recorded (Block (fun _ => True) PlainFunction)
    (Node.IsExpression fun _ => True) where
  runtime _ _ := nofun
  tooLong := nofun
  beyondFloat := nofun
  tooDeep := nofun
  own _ h := recorded_of_ownFailure h
  statement h := h.layer fun _ _ _ _ _ => trivial
  expression := layer_expression
  self := Block.self
  declared := Block.declared
  body h := .statement h trivial
  inner := Block.ne_program

/-- A walk whose evaluations are watched. The induction is on the depth, for both walks at once. -/
theorem Laws.seen {W : Type} {good : String → Function → Prop} {fails : Failure → Prop}
    {I : W → Machine → Prop} {X : W → Node → Prop} {E : Node → Prop} (L : Laws good fails I X E)
    (seen : Node → Monitor)
    (hseen : ∀ n w base m r, E n → Held good (I w) base m m → seen n m r = r) (depth : Nat) :
    (∀ w base n, X w n → (steady good fails (I w) base).Holds (execute depth n)
      (executeSeen seen depth n) (Contract.Gets n)) ∧
    ∀ w base n, E n → (steady good fails (I w) base).Holds (evaluate depth n)
      (evaluateSeen seen depth n) fun _ => True := by
  have hwatch {w : W} {base : CallStack} {n : Node} (hn : E n) {p p' : Running Value}
      {post : Value → Prop} (h : (steady good fails (I w) base).Holds p p' post) :
      (steady good fails (I w) base).Holds p (watch (seen n) p') post :=
    steady_watch h fun m r hheld _ _ => hseen n w base m r hn hheld
  induction depth with
  | zero =>
    exact ⟨fun w base n _ => steady_fail L.tooDeep,
      fun w base n hn => hwatch hn (steady_fail L.tooDeep)⟩
  | succ depth ih =>
    obtain ⟨hex, hev⟩ := ih
    refine ⟨fun w base n hn => ?_, fun w base n hn => ?_⟩
    · rw [execute_succ, executeSeen]
      exact L.executeNode hn (hev w base) hex
    · rw [evaluate_succ, evaluateSeen]
      exact hwatch hn (L.evaluateNode hn (hev w base) fun name arguments hargs =>
        L.call hargs (hev w base) hex name)

theorem ended_seen {I : Machine → Prop} (K : Kept I) (start : Machine) (depth : Nat) {name : String}
    {parts : List Node} (hparts : ∀ n ∈ parts, n.IsPart fun _ => True) (hnil : start.stack = [])
    (hknown : Known PlainFunction start.functions)
    (hstart : Encloses I I { start with lastProgram := none } { kind := .program, name, level := 1 })
    {seen : Node → Monitor} (hseen : ∀ n m r, n.IsExpression (fun _ => True) →
      Known PlainFunction m.functions → m.stack.Shown → I m → m.stack ≠ [] →
        seen n m r = r) :
    Ended PlainFunction Recorded I [] (fun _ => True)
      (execute (depth + 1) (.program name (.compound parts)) start)
      (executeSeen seen (depth + 1) (.program name (.compound parts)) start) := by
  have hshown : start.stack.Shown := by
    rw [hnil]
    exact fun _ hr => by cases hr
  have hwalk := ((nodes_block.laws K).seen seen (fun n _ base m r hn hheld =>
    hseen n m r hn hheld.known hheld.shown hheld.kept.1 hheld.kept.2) depth).1
  have hended := ended_start name nodes_block.tooLong hshown hknown hstart.inner
    fun base => Contract.weaken (hwalk () base _ (block_of_parts hparts)) fun _ _ => trivial
  rw [hnil] at hended
  rw [execute_succ, executeSeen]
  exact hended

/-- Where a parsed program evaluates an expression. The functions declared before the run may come
from other programs. -/
theorem Evaluates.ready {start m : Machine} {depth : Nat} {name : String} {parts : List Node}
    {node : Node} (h : Evaluates start depth (.program name (.compound parts)) node m)
    (hparts : ∀ n ∈ parts, n.IsPart fun _ => True) (hnil : start.stack = [])
    (hknown : Known PlainFunction start.functions) :
    Known PlainFunction m.functions ∧ m.stack.Shown ∧ m.stack ≠ [] := by
  refine h.of_passes (Q := fun _ m => Known PlainFunction m.functions ∧
    m.stack.Shown ∧ m.stack ≠ []) fun seen hseen => ?_
  cases depth with
  | zero => rfl
  | succ depth =>
    exact (ended_seen kept_true start depth hparts hnil hknown ⟨fun _ => trivial, fun _ _ => trivial⟩
      fun n m r _ hk hs _ hne => hseen n m r ⟨hk, hs, hne⟩).same.1

/-! ## The first moment -/

open Classical in
/-- Stops the run where the node is evaluated in the state, and nowhere else. -/
noncomputable def stopAt (node : Node) (m : Machine) : Node → Monitor := fun node' m' r =>
  if node' = node ∧ m' = m then .error (.failed .strayReturn) m else r

theorem evaluateSeen_stopAt (node : Node) (m : Machine) (depth : Nat) :
    evaluateSeen (stopAt node m) depth node m = .error (.failed .strayReturn) m := by
  cases depth with
  | zero => exact if_pos ⟨rfl, rfl⟩
  | succ depth => exact if_pos ⟨rfl, rfl⟩

theorem executeSeen_single (seen : Node → Monitor) (depth : Nat) (node : Node) :
    executeSeen seen (depth + 1) (.compound [node]) = executeSeen seen depth node :=
  bind_pure _

theorem executeSeen_declaration (seen : Node → Monitor) (depth : Nat) (name : Token)
    (parameters : List Parameter) (body : Node) :
    executeSeen seen depth (.function name parameters body) =
      execute depth (.function name parameters body) := by
  cases depth with
  | zero => rfl
  | succ depth =>
    rw [execute_succ]
    rfl

theorem executeSeen_declarations (seen : Node → Monitor) (depth : Nat) {declarations : List Node}
    (h : ∀ n ∈ declarations, ∃ name parameters body, n = .function name parameters body)
    (v : Value) :
    declarations.foldlM (fun _ n => executeSeen seen depth n) v =
      declarations.foldlM (fun _ n => execute depth n) v := by
  induction declarations generalizing v with
  | nil => rfl
  | cons n declarations ih =>
    obtain ⟨name, parameters, body, rfl⟩ := h n (by simp)
    have ih := ih fun n hn => h n (by simp [hn])
    simp only [List.foldlM_cons, executeSeen_declaration, ih]

theorem enter_program {start : Machine} (h : start.stack = []) (name : String) :
    ∃ m, enter { kind := .program, name, level := 1 } { start with lastProgram := none } =
      .ok () m ∧ m.stack = [{ kind := .program, name, level := 1 }] := by
  have hrecord : Record.Shown { kind := .program, name, level := 1 } := fun _ h => by cases h
  have hstack : start.stack.Shown := by
    rw [h]
    exact fun _ h => by cases h
  obtain ⟨t, -, henter⟩ := enter_shown (m := { start with lastProgram := none }) hrecord hstack
  exact ⟨_, henter, congrArg _ h⟩

/-- The first expression of a program is evaluated once the functions before it are declared. A run
that is stopped there ends in another way. -/
theorem evaluates_first {P : Token → Prop} {start m₀ m : Machine} {name : String}
    (declarations rest : List Node) {node : Node} {v : Value} {depth : Nat}
    (hnode : node.IsExpression P)
    (hfunctions : ∀ n ∈ declarations, ∃ name parameters body, n = .function name parameters body)
    (henter : enter { kind := .program, name, level := 1 } { start with lastProgram := none } =
      .ok () m₀)
    (hdeclared : declarations.foldlM (fun _ n => execute (depth + 2) n) .none m₀ = .ok v m)
    (hstack : m.stack = [{ kind := .program, name, level := 1 }])
    (hrun : (start.perform (execute (depth + 4)
      (.program name (.compound (declarations ++ .compound [node] :: rest))))).1 ≠
        .error .strayReturn) :
    Evaluates start (depth + 4) (.program name (.compound (declarations ++ .compound [node] :: rest)))
      node m := by
  refine ⟨stopAt node m, fun _ _ _ hne => if_neg hne, fun heq => hrun ?_⟩
  have hbody : executeSeen (stopAt node m) (depth + 3)
      (.compound (declarations ++ .compound [node] :: rest)) m₀ =
        .error (.failed .strayReturn) m := by
    show (declarations ++ .compound [node] :: rest).foldlM
      (fun _ n => executeSeen (stopAt node m) (depth + 2) n) .none m₀ = _
    rw [List.foldlM_append, executeSeen_declarations _ _ hfunctions, bind_apply, hdeclared]
    show (Node.compound [node] :: rest).foldlM
      (fun _ n => executeSeen (stopAt node m) (depth + 2) n) v m = _
    rw [List.foldlM_cons, bind_apply, executeSeen_single, executeSeen,
      executeNode_expression hnode, evaluateSeen_stopAt]
  have hseen : executeSeen (stopAt node m) (depth + 4)
      (.program name (.compound (declarations ++ .compound [node] :: rest))) start =
        (do leave; fail .strayReturn : Running Value) m := by
    show activate _ (executeSeen (stopAt node m) (depth + 3) _) _ = _
    rw [activate_of_enter henter, hbody]
  have hshown : Record.Shown { kind := .program, name, level := 1 } := fun _ h => by cases h
  obtain ⟨log, hl⟩ := leave_cases hstack
  have hl := hl.resolve_right fun hl => hl.1 hshown
  unfold Machine.perform
  rw [← heq, hseen, bind_apply, hl]
  rfl

end Running

end LittleLang
