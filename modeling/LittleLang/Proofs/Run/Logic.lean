import LittleLang.Proofs.Run.Contracts
import LittleLang.Proofs.Run.Frames

/-!
# A logic of steps

`Triple F M p p' ok stop`: started with the functions `F` and the variables `M` in the record on
top, the step `p` ends in the frame it has found, with a value and functions and variables as `ok`
says, or with a stop as `stop` says; and the second form of the step, which may be watched, does the
same. An expression changes neither functions nor variables and does not return (`Yields`).

The rules follow the walk, up to a whole program (`Triple.program`).
-/

namespace LittleLang.Running

variable {α β : Type} {F F' : Table Function} {M M' : Table Value}

/-- How a step ends in its frame. A value that cannot be shown is left on the stack only where the
step fails for it. -/
inductive Frame.Leaves (frame : Frame) (ok : α → Table Function → Table Value → Prop)
    (stop : Stop → Table Function → Table Value → Prop) :
    EStateM.Result Stop Machine α → Prop where
  | ok {a : α} {F : Table Function} {M : Table Value} {m : Machine} :
      frame.Holds F M m → m.stack.Shown → ok a F M → Leaves frame ok stop (.ok a m)
  | stop {s : Stop} {F : Table Function} {M : Table Value} {m : Machine} :
      frame.Holds F M m → (s ≠ .failed (.number .tooLongToWrite) → m.stack.Shown) → stop s F M →
      Leaves frame ok stop (.error s m)

/-- What a step does, from these functions and variables on. Its second form does the same. -/
def Triple (F : Table Function) (M : Table Value) (p p' : Running α)
    (ok : α → Table Function → Table Value → Prop)
    (stop : Stop → Table Function → Table Value → Prop) : Prop :=
  ∀ frame m, Frame.Holds frame F M m → m.stack.Shown →
    p' m = p m ∧ frame.Leaves ok stop (p m)

/-- A step that changes neither functions nor variables and does not return: what it gives, and how
it can fail. -/
def Yields (F : Table Function) (M : Table Value) (p p' : Running α) (post : α → Prop)
    (fails : Failure → Prop) : Prop :=
  Triple F M p p' (fun a F' M' => (F' = F ∧ M' = M) ∧ post a)
    fun s F' M' => (F' = F ∧ M' = M) ∧ ∃ e, s = .failed e ∧ fails e

/-! ## Rules -/

section

variable {p p' : Running α} {f f' : α → Running β} {post mid : α → Prop} {fails : Failure → Prop}

section

variable {ok : α → Table Function → Table Value → Prop}
  {stop : Stop → Table Function → Table Value → Prop}

theorem triple_pure {a : α} (h : ok a F M) : Triple F M (pure a) (pure a) ok stop :=
  fun _ _ hm hs => ⟨rfl, .ok hm hs h⟩

theorem triple_throw {s : Stop} (h : stop s F M) :
    Triple F M (throw s : Running α) (throw s) ok stop :=
  fun _ _ hm hs => ⟨rfl, .stop hm (fun _ => hs) h⟩

theorem Triple.weaken {ok' : α → Table Function → Table Value → Prop}
    {stop' : Stop → Table Function → Table Value → Prop} (h : Triple F M p p' ok stop)
    (hok : ∀ a F' M', ok a F' M' → ok' a F' M')
    (hstop : ∀ s F' M', stop s F' M' → stop' s F' M') : Triple F M p p' ok' stop' := by
  intro frame m hm hs
  obtain ⟨heq, hl⟩ := h frame m hm hs
  refine ⟨heq, ?_⟩
  generalize p m = r at hl
  cases hl with
  | ok h hs ha => exact .ok h hs (hok _ _ _ ha)
  | stop h hs ha => exact .stop h hs (hstop _ _ _ ha)

theorem Triple.ite {c : Prop} [Decidable c] {q q' : Running α}
    (h : c → Triple F M p p' ok stop) (h' : ¬c → Triple F M q q' ok stop) :
    Triple F M (if c then p else q) (if c then p' else q') ok stop := by
  split
  · exact h ‹c›
  · exact h' ‹¬c›

end

theorem Yields.triple {ok : α → Table Function → Table Value → Prop}
    {stop : Stop → Table Function → Table Value → Prop} (h : Yields F M p p' mid fails)
    (hok : ∀ a, mid a → ok a F M) (hstop : ∀ e, fails e → stop (.failed e) F M) :
    Triple F M p p' ok stop := by
  refine Triple.weaken h ?_ ?_
  · rintro a _ _ ⟨⟨rfl, rfl⟩, ha⟩
    exact hok a ha
  · rintro _ _ _ ⟨⟨rfl, rfl⟩, e, rfl, he⟩
    exact hstop e he

section

variable {ok : β → Table Function → Table Value → Prop}
  {stop : Stop → Table Function → Table Value → Prop}

theorem Triple.bind {mid : α → Table Function → Table Value → Prop}
    {stop' : Stop → Table Function → Table Value → Prop} (h : Triple F M p p' mid stop')
    (hstop : ∀ s F' M', stop' s F' M' → stop s F' M')
    (hf : ∀ a F' M', mid a F' M' → Triple F' M' (f a) (f' a) ok stop) :
    Triple F M (p >>= f) (p' >>= f') ok stop := by
  intro frame m hm hs
  obtain ⟨heq, hl⟩ := h frame m hm hs
  rw [bind_apply, bind_apply, heq]
  generalize p m = r at hl
  cases hl with
  | ok h hs ha => exact hf _ _ _ ha frame _ h hs
  | stop h hs ha => exact ⟨rfl, .stop h hs (hstop _ _ _ ha)⟩

theorem Yields.next (h : Yields F M p p' mid fails)
    (hstop : ∀ e, fails e → stop (.failed e) F M)
    (hf : ∀ a, mid a → Triple F M (f a) (f' a) ok stop) :
    Triple F M (p >>= f) (p' >>= f') ok stop := by
  refine Triple.bind h ?_ ?_
  · rintro _ _ _ ⟨⟨rfl, rfl⟩, e, rfl, he⟩
    exact hstop e he
  · rintro a _ _ ⟨⟨rfl, rfl⟩, ha⟩
    exact hf a ha

end

theorem yields_pure {a : α} (h : post a) : Yields F M (pure a) (pure a) post fails :=
  triple_pure ⟨⟨rfl, rfl⟩, h⟩

theorem yields_fail {e : Failure} (h : fails e) :
    Yields F M (fail e : Running α) (fail e) post fails :=
  triple_throw ⟨⟨rfl, rfl⟩, e, rfl, h⟩

theorem Yields.weaken (h : Yields F M p p' mid fails) (hp : ∀ a, mid a → post a) :
    Yields F M p p' post fails :=
  Triple.weaken h (fun a _ _ ha => ⟨ha.1, hp a ha.2⟩) fun _ _ _ hs => hs

theorem Yields.bind {post : β → Prop} (h : Yields F M p p' mid fails)
    (hf : ∀ a, mid a → Yields F M (f a) (f' a) post fails) :
    Yields F M (p >>= f) (p' >>= f') post fails :=
  h.next (fun e he => ⟨⟨rfl, rfl⟩, e, rfl, he⟩) hf

def yields (F : Table Function) (M : Table Value) (fails : Failure → Prop) : Contract where
  Holds p p' post := Yields F M p p' post fails
  of_pure := yields_pure
  bind := Yields.bind

/-! ## Single steps -/

theorem yields_note (level : Int) (text : String) :
    Yields F M (note level text) (note level text) (fun _ => True) fails :=
  fun _ _ hm hs => ⟨rfl, .ok (hm.withLog _) hs ⟨⟨rfl, rfl⟩, trivial⟩⟩

theorem yields_number {r : Except NumberFault α} (h : ∀ e, r = .error e → fails (.number e)) :
    Yields F M (number r) (number r) (fun a => r = .ok a) fails := by
  cases r with
  | ok a => exact yields_pure rfl
  | error e => exact yields_fail (h e rfl)

theorem yields_text (h : fails (.number .tooLongToWrite)) (v : Value) :
    Yields F M (number v.text) (number v.text) (fun t => v.text = .ok t) fails :=
  yields_number fun _ he => Value.text_eq_error he ▸ h

theorem yields_load {name : Token}
    (h : M.get? name.text = none → fails (.runtime (.variableNotFound name.text) name)) :
    Yields F M (load name) (load name) (fun v => M.get? name.text = some v) fails := by
  intro frame m hm hs
  refine ⟨rfl, ?_⟩
  rw [hm.load]
  cases hv : M.get? name.text with
  | some v => exact .ok hm hs ⟨⟨rfl, rfl⟩, rfl⟩
  | none => exact .stop hm (fun _ => hs) ⟨⟨rfl, rfl⟩, _, rfl, h hv⟩

theorem yields_functionNamed {name : Token}
    (h : F.get? name.text = none → fails (.runtime (.functionNotFound name.text) name)) :
    Yields F M (functionNamed name) (functionNamed name) (fun f => F.get? name.text = some f)
      fails := by
  intro frame m hm hs
  refine ⟨rfl, ?_⟩
  rw [hm.functionNamed]
  cases hf : F.get? name.text with
  | some f => exact .ok hm hs ⟨⟨rfl, rfl⟩, rfl⟩
  | none => exact .stop hm (fun _ => hs) ⟨⟨rfl, rfl⟩, _, rfl, h hf⟩

/-- The failures that no place in the text excludes. -/
theorem rules_yields (hlong : fails (.number .tooLongToWrite))
    (hoperands : ∀ cause op, cause.isOfOperands = true → fails (.runtime cause (some op)))
    (hfloat : fails (.number .beyondFloat)) : (yields F M fails).Rules .identity where
  text := yields_text hlong
  remark _ := yields_note _ _
  operands := by
    rintro op _ cause rfl hcause
    exact yields_fail (hoperands cause op hcause)
  beyondFloat := yields_fail hfloat

theorem Yields.watch {p p' : Running Value} {post : Value → Prop} {monitor : Monitor}
    (h : Yields F M p p' post fails)
    (hpass : ∀ m r, m.functions = F → monitor m r = r) :
    Yields F M p (watch monitor p') post fails := by
  intro frame m hm hs
  obtain ⟨heq, hl⟩ := h frame m hm hs
  refine ⟨?_, hl⟩
  show monitor m (p' m) = p m
  rw [heq]
  exact hpass m _ hm.functions

end

section

variable {ok : β → Table Function → Table Value → Prop}
  {stop : Stop → Table Function → Table Value → Prop}

/-- A value is shown right after it is stored. In between, the stack cannot be relied on. -/
theorem triple_store {name : String} {v : Value} {next next' : String → Running β}
    (hstop : stop (.failed (.number .tooLongToWrite)) F (M.insert name v))
    (h : ∀ t, Triple F (M.insert name v) (next t) (next' t) ok stop) :
    Triple F M (do store name v; let t ← number v.text; next t)
      (do store name v; let t ← number v.text; next' t) ok stop := by
  intro frame m hm hs
  obtain ⟨m', heq, hm', hs'⟩ := hm.store name v
  simp only [bind_apply, heq]
  cases ht : v.text with
  | ok t => exact h t frame m' hm' (hs' hs ⟨t, ht⟩)
  | error e =>
    obtain rfl := Value.text_eq_error ht
    exact ⟨rfl, .stop hm' (fun hne => absurd rfl hne) hstop⟩

theorem triple_note (level : Int) (text : String) {p p' : Running β} (h : Triple F M p p' ok stop) :
    Triple F M (do note level text; p) (do note level text; p') ok stop :=
  (yields_note level text : Yields F M _ _ _ fun _ => False).next (fun _ => False.elim) fun _ _ => h

theorem triple_declare {name : String} {f : Function} {next next' : PUnit → Running β}
    (h : Triple (F.insert name f) M (next ()) (next' ()) ok stop) :
    Triple F M
      ((modify fun m : Machine => { m with functions := m.functions.insert name f }) >>= next)
      ((modify fun m => { m with functions := m.functions.insert name f }) >>= next') ok stop := by
  intro frame m hm hs
  refine h frame { m with functions := m.functions.insert name f } ⟨?_, hm.stack, hm.last⟩ hs
  rw [← hm.functions]

end

theorem triple_assign {ok : Value → Table Function → Table Value → Prop}
    {stop : Stop → Table Function → Table Value → Prop} {target : Token} {v : Value}
    (hstop : stop (.failed (.number .tooLongToWrite)) F (M.insert target.text v))
    (hok : ok .none F (M.insert target.text v)) :
    Triple F M
      (do
        store target.text v
        let text ← number v.text
        note 2 s!"assign {target.text} = {text}"
        return .none)
      (do
        store target.text v
        let text ← number v.text
        note 2 s!"assign {target.text} = {text}"
        return .none) ok stop :=
  triple_store hstop fun _ => triple_note 2 _ (triple_pure hok)

/-- One step for each element. What holds from step to step may look at the elements to come. -/
theorem triple_foldlM {f f' : Value → α → Running Value} {as : List α}
    {I : List α → Table Function → Table Value → Prop}
    {stop : Stop → Table Function → Table Value → Prop}
    (h : ∀ a rest F M, I (a :: rest) F M → ∀ v,
      Triple F M (f v a) (f' v a) (fun _ F' M' => I rest F' M') stop)
    (hI : I as F M) (v : Value) :
    Triple F M (as.foldlM f v) (as.foldlM f' v) (fun _ F' M' => I [] F' M') stop := by
  induction as generalizing F M v with
  | nil => exact triple_pure hI
  | cons a as ih =>
    rw [List.foldlM_cons, List.foldlM_cons]
    exact (h a as F M hI v).bind (fun _ _ _ hs => hs) fun v' F' M' hI' => ih hI' v'

/-! ## Calls -/

section

variable {fails : Failure → Prop} {evaluate evaluate' execute execute' : Node → Running Value}

/-- How the body of a function ends, for its caller: the functions are the ones from before. -/
abbrev BodyStops (F : Table Function) (fails : Failure → Prop) (s : Stop) (F' : Table Function)
    (_ : Table Value) : Prop :=
  F' = F ∧ ∀ e, s = .failed e → fails e

theorem yields_activate {record : Record} {body body' : Running Value} (hr : record.Shown)
    (hk : record.kind = .function)
    (h : Triple F record.members body body' (fun _ F' _ => F' = F) (BodyStops F fails)) :
    Yields F M (activate record body) (activate record body') (fun _ => True) fails := by
  intro frame m hm hs
  obtain ⟨m₁, henter, hm₁, hs₁, hend⟩ := activate_ends hr hs
  obtain ⟨hok, hfail⟩ := hend body
  rw [hm.functions] at hm₁
  obtain ⟨heq, hl⟩ := h _ m₁ hm₁ hs₁
  refine ⟨?_, ?_⟩
  · rw [activate_of_enter henter, activate_of_enter henter, heq]
  generalize body m₁ = r at hl hok hfail
  cases hl with
  | ok h₂ hs₂ hF =>
    obtain ⟨m', heq', hleft⟩ := hok _ _ _ _ (.inl rfl) h₂ hs₂
    rw [heq']
    exact .ok (hleft.holds hk hm) (hleft.stack ▸ hs) ⟨⟨hF, rfl⟩, trivial⟩
  | @stop s _ _ _ h₂ hs₂ hF =>
    cases s with
    | returned v =>
      obtain ⟨m', heq', hleft⟩ := hok _ _ _ _ (.inr rfl) h₂ (hs₂ nofun)
      rw [heq']
      exact .ok (hleft.holds hk hm) (hleft.stack ▸ hs) ⟨⟨hF.1, rfl⟩, trivial⟩
    | failed e =>
      obtain ⟨m', heq', hleft⟩ := hfail _ _ _ _ rfl h₂ fun he =>
        hs₂ fun h => he (Stop.failed.inj h)
      rw [heq']
      exact .stop (hleft.holds hk hm) (fun _ => hleft.stack ▸ hs) ⟨⟨hF.1, rfl⟩, e, rfl, hF.2 e rfl⟩

/-- A call fails where there is no function or not one with so many parameters, or with its
arguments or its body. -/
theorem yields_call {name : Token} {arguments : List Node} (R : (yields F M fails).Rules .identity)
    (hnone : F.get? name.text = none → fails (.runtime (.functionNotFound name.text) name))
    (hcount : ∀ f, F.get? name.text = some f → arguments.length ≠ f.parameters.length →
      fails (.runtime (.argumentCount name.text f.parameters.length arguments.length) name))
    (hev : ∀ a ∈ arguments, Yields F M (evaluate a) (evaluate' a) (fun _ => True) fails)
    (hbody : ∀ f values, F.get? name.text = some f → values.length = f.parameters.length →
      Triple F (bound f.parameters values) (execute f.body) (execute' f.body)
        (fun _ F' _ => F' = F) (BodyStops F fails)) :
    Yields F M (call evaluate execute name arguments) (call evaluate' execute' name arguments)
      (fun _ => True) fails := by
  refine Contract.call_same R (yields_functionNamed hnone)
    (fun f hf hne => yields_fail (hcount f hf hne)) hev ?_
  intro f values hf hlength hvalues frame m hm hs
  have hrecord : (callRecord name f values (m.stack.length + 1)).kind = .function := by
    rw [callRecord_eq]
  refine yields_activate (shown_callRecord hvalues) hrecord ?_ frame m hm hs
  rw [callRecord_eq]
  exact hbody f values hf hlength

end

/-! ## Programs -/

/-- How the run of a program ends, with its record: by its end or a return, or with a failure. -/
inductive Concludes (ok : Value → Table Function → Table Value → Prop)
    (stop : Stop → Table Function → Table Value → Prop) :
    EStateM.Result Stop Machine Value → Prop where
  | value {v : Value} {record : Record} {F : Table Function} {m : Machine} :
      m.lastProgram = some record →
      ok v F record.members ∨ stop (.returned v) F record.members →
      Concludes ok stop (.ok v m)
  | failure {e : Failure} {record : Record} {F : Table Function} {m : Machine} :
      m.lastProgram = some record → stop (.failed e) F record.members →
      Concludes ok stop (.error (.failed e) m)

section

variable {ok : Value → Table Function → Table Value → Prop}
  {stop : Stop → Table Function → Table Value → Prop}

theorem Triple.program {body body' : Running Value} {record : Record} {m : Machine}
    (h : Triple m.functions {} body body' ok stop) (hstack : m.stack = [])
    (hlast : m.lastProgram = none) (hk : record.kind = .program) (hr : record.members = {}) :
    activate record body' m = activate record body m ∧
      Concludes ok stop (activate record body m) := by
  have hshown : record.Shown := by
    intro member hm
    rw [hr] at hm
    cases hm
  have hs : m.stack.Shown := by
    rw [hstack]
    intro record hm
    cases hm
  obtain ⟨m₁, henter, hm₁, hs₁, hend⟩ := activate_ends hshown hs
  obtain ⟨hok, hfail⟩ := hend body
  rw [hr] at hm₁
  obtain ⟨heq, hl⟩ := h _ m₁ hm₁ hs₁
  refine ⟨?_, ?_⟩
  · rw [activate_of_enter henter, activate_of_enter henter, heq]
  have hlast' {F : Table Function} {M : Table Value} {m' : Machine} (h : Left record m F M m') :
      m'.lastProgram = some { record with members := M } := by
    simp [h.last, remembered, hk, hlast]
  generalize body m₁ = r at hl hok hfail
  cases hl with
  | ok h₂ hs₂ ha =>
    obtain ⟨m', heq', hleft⟩ := hok _ _ _ _ (.inl rfl) h₂ hs₂
    rw [heq']
    exact .value (hlast' hleft) (.inl ha)
  | @stop s _ _ _ h₂ hs₂ ha =>
    cases s with
    | returned v =>
      obtain ⟨m', heq', hleft⟩ := hok _ _ _ _ (.inr rfl) h₂ (hs₂ fun h => by cases h)
      rw [heq']
      exact .value (hlast' hleft) (.inr ha)
    | failed e =>
      obtain ⟨m', heq', hleft⟩ := hfail _ _ _ _ rfl h₂ fun he =>
        hs₂ fun h => he (Stop.failed.inj h)
      rw [heq']
      exact .failure (hlast' hleft) ha

theorem concludes_program {execute execute' : Node → Running Value} {block : Node} {m : Machine}
    (hm : m.stack = []) (h : Triple m.functions {} (execute block) (execute' block) ok stop)
    (evaluate evaluate' : Node → Running Value) (name : String) :
    executeNode evaluate' execute' (.program name block) m =
        executeNode evaluate execute (.program name block) m ∧
      Concludes ok stop (executeNode evaluate execute (.program name block) m) :=
  Triple.program (m := { m with lastProgram := none }) h hm rfl rfl rfl

theorem Concludes.perform {step : Running Value} {m : Machine} (h : Concludes ok stop (step m)) :
    ∃ record F, (m.perform step).2.lastProgram = some record ∧
      (∀ v, (m.perform step).1 = .ok v →
        ok v F record.members ∨ stop (.returned v) F record.members) ∧
      ∀ e, (m.perform step).1 = .error e → stop (.failed e) F record.members := by
  unfold Machine.perform
  generalize step m = r at h
  cases h with
  | @value v record F m' hlast h =>
    refine ⟨record, F, hlast, ?_, fun _ he => by cases he⟩
    rintro _ ⟨⟩
    exact h
  | @failure e record F m' hlast h =>
    refine ⟨record, F, hlast, (fun _ hv => by cases hv), ?_⟩
    rintro _ ⟨⟩
    exact h

end

end LittleLang.Running
