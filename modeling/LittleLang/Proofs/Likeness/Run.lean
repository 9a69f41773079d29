import LittleLang.Proofs.Run.Contracts
import LittleLang.Proofs.Run.Frames

/-!
# Two runs side by side

Two walks do the same, step by step, if their trees are related layer by layer: nodes of one form,
with tokens that are alike and with related parts (`like_walk`). The machines keep the same stack
and declare functions that are related as the trees are.

The logs may differ. If they have the same level, both runs show the same records. If they do not,
that takes a stack that can be shown: whether records are turned into text hangs on the level, and
turning one into text may fail. A record that cannot be shown stays on the stack only while the very
failure to show a value of it is on its way up. -/

namespace LittleLang

theorem Likeness.Trees.layer {l : Likeness} {n n' : Node} (h : l.Trees n n') :
    Node.Layer l l.Trees l.Trees l.Trees n n' := by
  cases h with
  | program name hb => exact .program name hb
  | compound hc => exact .compound (.of_forall₂ hc)
  | noOp => exact .noOp
  | intLiteral ht => exact .intLiteral ht
  | floatLiteral ht => exact .floatLiteral ht
  | boolLiteral ht => exact .boolLiteral ht
  | var ht => exact .var ht
  | typeName ht => exact .typeName ht
  | unary hop ho => exact .unary hop ho
  | binary hop hl hr => exact .binary hop hl hr
  | assign hty ht hop hv => exact .assign hty ht hop hv
  | branch hk hc ht hf => exact .branch hk hc ht hf
  | ret hv => exact .ret hv
  | parameter hp => exact .parameter hp
  | function ht hps hb => exact .function ht hps hb
  | call ht has => exact .call ht has
  | bare => exact .bare
  | missing => exact .missing

/-! ## Tables -/

namespace Table

variable {α : Type} {R : α → α → Prop} {t t' : Table α}

def Aligned (R : α → α → Prop) (t t' : Table α) : Prop :=
  t.entries.Forall₂ (fun e e' => e.1 = e'.1 ∧ R e.2 e'.2) t'.entries

theorem aligned_empty : Aligned R {} {} :=
  .nil

theorem Aligned.eq (h : Aligned Eq t t') : t = t' := by
  have hentries : t.entries = t'.entries := by
    rw [← List.forall₂_eq_eq_eq]
    exact h.imp fun _ _ he => Prod.ext he.1 he.2
  obtain ⟨entries⟩ := t
  exact congrArg Table.mk hentries

theorem Aligned.insert (h : Aligned R t t') (name : String) {a a' : α} (ha : R a a') :
    Aligned R (t.insert name a) (t'.insert name a') := by
  unfold Aligned Table.insert at *
  generalize t.entries = entries at *
  generalize t'.entries = entries' at *
  induction h with
  | nil => exact .cons ⟨rfl, ha⟩ .nil
  | @cons e e' rest rest' he hrest ih =>
    unfold put
    rw [he.1]
    split
    · exact .cons ⟨rfl, ha⟩ hrest
    · exact .cons ⟨rfl, he.2⟩ ih

theorem Aligned.get? (h : Aligned R t t') (name : String) :
    (t.get? name).Rel R (t'.get? name) := by
  unfold Aligned Table.get? at *
  generalize t.entries = entries at *
  generalize t'.entries = entries' at *
  induction h with
  | nil => exact .none
  | @cons e e' rest rest' he hrest ih =>
    rw [List.lookup_cons, List.lookup_cons, he.1]
    split
    · exact .some he.2
    · exact ih

end Table

/-- A relation between logs of the same level that lasts. -/
structure Log.Tied (L : Log → Log → Prop) : Prop where
  lasting : Log.Lasting L
  level_eq {log log' : Log} : L log log' → log.level = log'.level

theorem Log.tied_eq : Log.Tied Eq :=
  ⟨Log.lasting_eq, congrArg Log.level⟩

theorem Log.Tied.enabled_eq {L : Log → Log → Prop} (h : Log.Tied L) {log log' : Log}
    (hlog : L log log') (level : Int) : log.enabled level = log'.enabled level := by
  unfold Log.enabled
  rw [h.level_eq hlog]

namespace Running

variable {α : Type} {l : Likeness} {N : Node → Node → Prop} {L : Log → Log → Prop}
  {post : α → Prop} {m m' : Machine}

/-! ## The contract -/

structure Functions (l : Likeness) (N : Node → Node → Prop) (f f' : Function) : Prop where
  parameters : f.parameters.Forall₂ l.Parameters f'.parameters
  body : N f.body f'.body

/-- Machines with the same stack and related functions. -/
structure Machines (l : Likeness) (N : Node → Node → Prop) (L : Log → Log → Prop) (m m' : Machine) :
    Prop where
  stack : m.stack = m'.stack
  functions : m.functions.Aligned (Functions l N) m'.functions
  lastProgram : m.lastProgram = m'.lastProgram
  log : L m.log m'.log

/-- Such machines between two steps: they show the same records. -/
structure Settled (l : Likeness) (N : Node → Node → Prop) (L : Log → Log → Prop) (m m' : Machine) :
    Prop extends Machines l N L m m' where
  shown : Log.Tied L ∨ m.stack.Shown

inductive Stops (l : Likeness) : Stop → Stop → Prop where
  | returned (v : Value) : Stops l (.returned v) (.returned v)
  | failed {e e' : Failure} : l.Failures e e' → Stops l (.failed e) (.failed e')

/-- What is left when two walks stop. The stack can be shown unless that is what failed. -/
structure Stopped (l : Likeness) (N : Node → Node → Prop) (L : Log → Log → Prop) (stop stop' : Stop)
    (m m' : Machine) : Prop where
  stops : Stops l stop stop'
  machines : Machines l N L m m'
  shown : stop ≠ .failed (.number .tooLongToWrite) → Log.Tied L ∨ m.stack.Shown

def like (l : Likeness) (N : Node → Node → Prop) (L : Log → Log → Prop) : Contract :=
  .ofInStep (Settled l N L) (Stopped l N L)

theorem Settled.stopped {stop stop' : Stop} (hm : Settled l N L m m') (h : Stops l stop stop') :
    Stopped l N L stop stop' m m' :=
  ⟨h, hm.toMachines, fun _ => hm.shown⟩

/-! ## Single steps -/

theorem like_fail {e e' : Failure} (h : l.Failures e e') :
    (like l N L).Holds (fail e : Running α) (fail e') post :=
  inStep_throw fun _ _ hm => hm.stopped (.failed h)

theorem like_blame {t t' : Token} (ht : l.token t t') (cause : RuntimeCause) :
    (like l N L).Holds (blame t cause : Running α) (blame t' cause) post :=
  like_fail (.runtime cause ht)

theorem like_returned (v : Value) :
    (like l N L).Holds (throw (.returned v) : Running α) (throw (.returned v)) post :=
  inStep_throw fun _ _ hm => hm.stopped (.returned v)

theorem like_text (v : Value) :
    (like l N L).Holds (number v.text) (number v.text) fun t => v.text = .ok t := by
  cases ht : v.text with
  | ok t => exact Contract.of_pure _ rfl
  | error e => exact like_fail (.placeless rfl)

theorem like_note (hL : Log.Lasting L) {level : Int} (hlevel : 0 < level) (text : String) :
    (like l N L).Holds (note level text) (note level text) fun _ => True := by
  intro m m' hm
  exact .ok ⟨rfl, trivial⟩
    ⟨⟨hm.stack, hm.functions, hm.lastProgram, hL _ _ level text hlevel hm.log⟩, hm.shown⟩

theorem rules_like (hL : Log.Lasting L) : (like l N L).Rules l where
  text := like_text
  remark h := like_note hL h.level_pos _
  operands hop _ := like_fail (.runtime _ hop)
  beyondFloat := like_fail (.placeless rfl)

theorem like_load {name name' : Token} (hn : l.token name name') :
    (like l N L).Holds (load name) (load name') fun _ => True := by
  intro m m' hm
  unfold load
  simp only [bind_apply, get_apply, hm.stack, l.text_eq hn]
  cases m'.stack.head?.bind fun r => r.members.get? name'.text with
  | some v => exact .ok ⟨rfl, trivial⟩ hm
  | none => exact .error (hm.stopped (.failed (.runtime _ hn)))

theorem like_functionNamed {name name' : Token} (hn : l.token name name') :
    InStep (Settled l N L) (Stopped l N L) (functionNamed name) (functionNamed name')
      (Functions l N) := by
  intro m m' hm
  unfold functionNamed
  simp only [bind_apply, get_apply, l.text_eq hn]
  have hf := hm.functions.get? name'.text
  generalize m.functions.get? name'.text = f at hf
  generalize m'.functions.get? name'.text = f' at hf
  cases hf with
  | some hf => exact .ok hf hm
  | none => exact .error (hm.stopped (.failed (.runtime _ hn)))

theorem like_declare (hL : Log.Lasting L) {name name' : Token} {ps ps' : List Parameter}
    {body body' : Node} (hn : l.token name name') (hps : ps.Forall₂ l.Parameters ps')
    (hb : N body body') :
    (like l N L).Holds (declare name ps body) (declare name' ps' body') fun _ => True := by
  intro m m' hm
  unfold declare
  rw [l.text_eq hn]
  have hf : Functions l N ⟨ps, body⟩ ⟨ps', body'⟩ := ⟨hps, hb⟩
  have hfunctions := hm.functions.insert name'.text hf
  exact .ok ⟨rfl, trivial⟩ ⟨⟨hm.stack, hfunctions, hm.lastProgram,
    hL _ _ 2 _ (by decide) hm.log⟩, hm.shown⟩

/-- A value is shown right after it is stored. In between, the stack cannot be relied on. -/
theorem like_assign (hL : Log.Lasting L) {target target' : Token} (ht : l.token target target')
    (v : Value) :
    (like l N L).Holds (assign target v) (assign target' v) fun _ => True := by
  intro m m' hm
  unfold assign store
  simp only [bind_apply, get_apply, ← hm.stack, ← l.text_eq ht]
  cases hstack : m.stack with
  | nil => exact .error (hm.stopped (.failed (.placeless rfl)))
  | cons r rest =>
    have hmachines : Machines l N L { m with stack := r.set target.text v :: rest }
        { m' with stack := r.set target.text v :: rest } :=
      ⟨rfl, hm.functions, hm.lastProgram, hm.log⟩
    simp only [set_apply]
    cases ht : v.text with
    | error e =>
      obtain rfl := Value.text_eq_error ht
      exact .error ⟨.failed (.placeless rfl), hmachines, fun hne => absurd rfl hne⟩
    | ok t =>
      have hshown := hm.shown
      rw [hstack] at hshown
      refine .ok ⟨rfl, trivial⟩
        ⟨⟨rfl, hm.functions, hm.lastProgram, hL _ _ 2 _ (by decide) hm.log⟩, ?_⟩
      exact hshown.imp id fun hs => .cons (hs.head.set ⟨t, ht⟩) hs.tail

/-! ## Records that come and go -/

section

variable {record : Record} {rest : CallStack}

theorem Machines.dump (hL : Log.Lasting L) (h : Machines l N L m m') (text : String) :
    Machines l N L (m.dump text) (m'.dump text) :=
  ⟨h.stack, h.functions, h.lastProgram, hL _ _ 1 text (by decide) h.log⟩

theorem Machines.push (hL : Log.Lasting L) (h : Machines l N L m m') (record : Record) :
    Machines l N L (m.push record) (m'.push record) :=
  ⟨congrArg (record :: ·) h.stack, h.functions, h.lastProgram, hL _ _ 1 _ (by decide) h.log⟩

theorem Machines.pop (hL : Log.Lasting L) (h : Machines l N L m m') (record : Record)
    (rest : CallStack) : Machines l N L (m.pop record rest) (m'.pop record rest) :=
  ⟨rfl, h.functions, congrArg (remembered record) h.lastProgram, hL _ _ 1 _ (by decide) h.log⟩

theorem like_enter (hL : Log.Lasting L) (hr : record.Shown) :
    (like l N L).Holds (enter record) (enter record) fun _ => True := by
  intro m m' hm
  have hmachines := hm.toMachines.push hL record
  have hshown := hm.shown.imp id fun hs => CallStack.Shown.cons hr hs
  rw [enter_eq, enter_eq, ← hm.stack]
  cases ht : CallStack.text (record :: m.stack) with
  | ok t => exact .ok ⟨rfl, trivial⟩ ⟨hmachines.dump hL t, hshown⟩
  | error e =>
    have htied : Log.Tied L := hshown.resolve_right fun hs => by
      obtain ⟨t, ht'⟩ := hs.text
      rw [ht] at ht'
      cases ht'
    dsimp only
    rw [htied.enabled_eq hm.log]
    split
    · exact .error ⟨.failed (.placeless rfl), hmachines, fun _ => .inl htied⟩
    · exact .ok ⟨rfl, trivial⟩ ⟨hmachines, .inl htied⟩

theorem like_leave (hL : Log.Lasting L) :
    (like l N L).Holds leave leave fun _ => True := by
  intro m m' hm
  cases hs : m.stack with
  | nil =>
    rw [leave_nil hs, leave_nil (hm.stack ▸ hs)]
    exact .ok ⟨rfl, trivial⟩ hm
  | cons record rest =>
    have hmachines := hm.toMachines.pop hL record rest
    have hshown := hm.shown
    rw [hs] at hshown
    rw [leave_eq hs, leave_eq (hm.stack ▸ hs : m'.stack = record :: rest)]
    cases ht : record.text with
    | ok t => exact .ok ⟨rfl, trivial⟩ ⟨hmachines.dump hL t, hshown.imp id CallStack.Shown.tail⟩
    | error e =>
      have htied : Log.Tied L := hshown.resolve_right fun hs => by
        obtain ⟨t, ht'⟩ := hs.head.text
        rw [ht] at ht'
        cases ht'
      dsimp only
      rw [htied.enabled_eq hm.log]
      split
      · exact .error ⟨.failed (.placeless rfl), hmachines, fun _ => .inl htied⟩
      · exact .ok ⟨rfl, trivial⟩ ⟨hmachines, .inl htied⟩

/-- A failure to show a value goes on past a record that cannot be shown: either way it is the
failure that the walk ends with. -/
theorem leave_unshown (hs : m.stack = record :: rest)
    (ht : record.text = .error .tooLongToWrite) :
    (do leave; fail (.number .tooLongToWrite) : Running α) m =
      .error (.failed (.number .tooLongToWrite)) (m.pop record rest) := by
  rw [bind_apply, leave_eq hs, ht]
  cases m.log.enabled 1 <;> rfl

theorem ended_leave_failed (hL : Log.Lasting L) {e e' : Failure}
    (h : Stopped l N L (.failed e) (.failed e') m m') :
    Paired (Settled l N L) (Stopped l N L) (fun a a' => a = a' ∧ post a)
      ((do leave; fail e : Running α) m) ((do leave; fail e' : Running α) m') := by
  have hfail : l.Failures e e' := by
    cases h.stops with
    | failed hf => exact hf
  by_cases he : e = .number .tooLongToWrite
  · subst he
    obtain rfl : e' = .number .tooLongToWrite := by
      cases hfail
      rfl
    have hm := h.machines
    have hstopped {m m' : Machine} (hm : Machines l N L m m') :
        Stopped l N L (.failed (.number .tooLongToWrite)) (.failed (.number .tooLongToWrite)) m
          m' :=
      ⟨.failed hfail, hm, fun hne => absurd rfl hne⟩
    cases hs : m.stack with
    | nil =>
      simp only [bind_apply, leave_nil hs, leave_nil (hm.stack ▸ hs : m'.stack = [])]
      exact .error (hstopped hm)
    | cons record rest =>
      have hs' : m'.stack = record :: rest := hm.stack ▸ hs
      cases ht : record.text with
      | ok t =>
        simp only [bind_apply, leave_eq hs, leave_eq hs', ht]
        exact .error (hstopped ((hm.pop hL record rest).dump hL t))
      | error fault =>
        obtain rfl := Record.text_eq_error ht
        rw [leave_unshown hs ht, leave_unshown hs' ht]
        exact .error (hstopped (hm.pop hL record rest))
  · have hshown := h.shown fun hstop => he (Stop.failed.inj hstop)
    exact (like l N L).bind (like_leave hL) (fun _ _ => like_fail hfail) m m' ⟨h.machines, hshown⟩

theorem like_activate (hL : Log.Lasting L) (hr : record.Shown) {body body' : Running Value}
    (h : (like l N L).Holds body body' fun _ => True) :
    (like l N L).Holds (activate record body) (activate record body') fun _ => True := by
  unfold activate
  refine (like l N L).bind (like_enter hL hr) fun _ _ m m' hm => ?_
  have hleave (v : Value) : (like l N L).Holds (do leave; return v) (do leave; return v)
      fun _ => True :=
    (like l N L).bind (like_leave hL) fun _ _ => Contract.of_pure _ trivial
  have hended := h m m' hm
  generalize body m = r at hended
  generalize body' m' = r' at hended
  cases hended with
  | ok hv hm =>
    obtain ⟨rfl, -⟩ := hv
    exact hleave _ _ _ hm
  | error he =>
    cases he.stops with
    | returned v => exact hleave v _ _ ⟨he.machines, he.shown nofun⟩
    | failed hf => exact ended_leave_failed hL ⟨.failed hf, he.machines, he.shown⟩

end

/-! ## Calls -/

/-- The variables of a call go by the texts of the parameters. -/
theorem bound_alike {ps ps' : List Parameter} (h : ps.Forall₂ l.Parameters ps')
    (values : List Value) : bound ps values = bound ps' values := by
  unfold bound
  generalize ({} : Table Value) = t
  induction h generalizing values t with
  | nil => rfl
  | cons hp _ ih =>
    cases values with
    | nil => rfl
    | cons v values =>
      simp only [List.zip_cons_cons, List.foldl_cons, l.text_eq hp.name]
      exact ih values _

theorem like_enact (hL : Log.Lasting L) {execute : Node → Running Value} {name name' : Token}
    {f f' : Function} (hn : l.token name name') (hf : Functions l N f f') {values : List Value}
    (hvalues : ∀ v ∈ values, v.Shown)
    (h : (like l N L).Holds (execute f.body) (execute f'.body) fun _ => True) :
    (like l N L).Holds (enact execute name f values) (enact execute name' f' values)
      fun _ => True := by
  intro m m' hm
  have hrecord : callRecord name f values (m.stack.length + 1) =
      callRecord name' f' values (m'.stack.length + 1) := by
    rw [callRecord_eq, callRecord_eq, l.text_eq hn, bound_alike hf.parameters, hm.stack]
  have hshown : (callRecord name f values (m.stack.length + 1)).Shown := shown_callRecord hvalues
  have hactivate := like_activate hL hshown h m m' hm
  unfold enact
  simp only [bind_apply, get_apply]
  rw [← hrecord]
  exact hactivate

theorem like_call (hL : Log.Lasting L) {evaluate execute : Node → Running Value}
    (hev : ∀ n n', N n n' → (like l N L).Holds (evaluate n) (evaluate n') fun _ => True)
    (hex : ∀ n n', N n n' → (like l N L).Holds (execute n) (execute n') (Contract.Gets n))
    {name name' : Token} {arguments arguments' : List Node} (hn : l.token name name')
    (hargs : arguments.Forall₂ N arguments') :
    (like l N L).Holds (call evaluate execute name arguments)
      (call evaluate execute name' arguments') fun _ => True := by
  refine Contract.call (rules_like hL) hn (F := Functions l N) hargs
    (fun _ _ hf => hf.parameters.length_eq) ?_ (fun _ _ _ _ => like_blame hn _) hev ?_
  · exact fun hk => InStep.bind (like_functionNamed hn) hk
  · intro f f' values hf _ hvalues
    exact like_enact hL hn hf hvalues (Contract.weaken (hex _ _ hf.body) fun _ _ => trivial)

/-! ## The walk -/

theorem like_start (hL : Log.Lasting L) {name : String} {block block' : Running Value}
    (h : (like l N L).Holds block block' fun _ => True) :
    (like l N L).Holds (start name block) (start name block') fun _ => True := by
  intro m m' hm
  exact like_activate hL (fun _ hmember => by cases hmember) h { m with lastProgram := none }
    { m' with lastProgram := none } ⟨⟨hm.stack, hm.functions, rfl, hm.log⟩, hm.shown⟩

theorem isPlaceless_of_ownFailure {n : Node} {e : Failure} (h : ownFailure? n = some e) :
    e.isPlaceless = true := by
  rcases eq_of_ownFailure h with ⟨fault, rfl⟩ | rfl
  · rfl
  · rfl

theorem like_walk (hL : Log.Lasting L) (hN : ∀ n n', N n n' → Node.Layer l N N N n n')
    (depth : Nat) :
    (∀ n n', N n n' →
        (like l N L).Holds (execute depth n) (execute depth n') (Contract.Gets n)) ∧
      ∀ n n', N n n' →
        (like l N L).Holds (evaluate depth n) (evaluate depth n') fun _ => True := by
  induction depth with
  | zero =>
    exact ⟨fun _ _ _ => like_fail (.placeless rfl), fun _ _ _ => like_fail (.placeless rfl)⟩
  | succ depth ih =>
    obtain ⟨hex, hev⟩ := ih
    refine ⟨fun n n' hn => ?_, fun n n' hn => ?_⟩
    · rw [execute_succ, execute_succ]
      exact Contract.executeNode (rules_like hL) (fun h => h) (hN n n' hn) (fun _ => hn) hev hex
        (fun v => like_returned v) (fun _ _ _ _ _ _ ht v => like_assign hL ht v)
        (fun _ _ _ _ _ _ _ ht hps hb => like_declare hL ht hps hb)
        fun _ _ _ _ hb => like_start hL (Contract.weaken (hex _ _ hb) fun _ _ => trivial)
    · rw [evaluate_succ, evaluate_succ]
      exact Contract.evaluateNode (rules_like hL) (hN n n' hn) hev (fun _ _ _ ht => like_load ht)
        (fun _ _ _ _ _ ht has => like_call hL hev hex ht has)
        fun _ he => like_fail (.placeless (isPlaceless_of_ownFailure he))

/-- From the outside, both steps have results that are alike. -/
theorem like_perform {p p' : Running Value} {post : Value → Prop}
    (h : (like l N L).Holds p p' post) (hm : Settled l N L m m') :
    l.Outcomes Eq (m.perform p).1 (m'.perform p').1 ∧
      Machines l N L (m.perform p).2 (m'.perform p').2 := by
  have hended := h m m' hm
  unfold Machine.perform
  generalize p m = r at hended
  generalize p' m' = r' at hended
  cases hended with
  | ok hv hm => exact ⟨.ok hv.1, hm.toMachines⟩
  | error he =>
    have hmachines := he.machines
    cases he.stops with
    | returned v => exact ⟨.error (.placeless rfl), hmachines⟩
    | failed hf => exact ⟨.error hf, hmachines⟩

end Running

end LittleLang
