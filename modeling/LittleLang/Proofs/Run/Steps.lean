import LittleLang.Machine

/-!
# Steps and records

What is on the stack can be shown when another record comes on top (`CallStack.Shown`), since a
value is shown right after it is stored. No check of the machine states this, and yet the machine
goes wrong without it: a record whose coming cannot be shown stays on the stack. `enter_eq` and
`leave_eq` say what becomes of a record that comes or goes, in either case. -/

namespace LittleLang

/-! ## Stacks -/

/-- The record is the same one, but for its variables. -/
def Record.Same (r r' : Record) : Prop :=
  r'.kind = r.kind ∧ r'.name = r.name ∧ r'.level = r.level

namespace CallStack

/-- The second stack has the records of the first in the same order, and nothing has changed below
the top. -/
inductive Balanced : CallStack → CallStack → Prop where
  | nil : Balanced [] []
  | cons {r r' : Record} {rest : CallStack} : r.Same r' → Balanced (r :: rest) (r' :: rest)

theorem Balanced.refl (stack : CallStack) : Balanced stack stack := by
  cases stack with
  | nil => exact .nil
  | cons r rest => exact .cons ⟨rfl, rfl, rfl⟩

theorem Balanced.trans {s₁ s₂ s₃ : CallStack} (h : Balanced s₁ s₂) (h' : Balanced s₂ s₃) :
    Balanced s₁ s₃ := by
  cases h with
  | nil => exact h'
  | cons h =>
    cases h' with
    | cons h' =>
      obtain ⟨hk, hn, hl⟩ := h
      obtain ⟨hk', hn', hl'⟩ := h'
      exact .cons ⟨hk'.trans hk, hn'.trans hn, hl'.trans hl⟩

/-- Two stacks that are balanced against one are balanced against each other. -/
theorem Balanced.of_common {s₁ s₂ s₃ : CallStack} (h : Balanced s₁ s₂) (h' : Balanced s₁ s₃) :
    Balanced s₂ s₃ := by
  cases h with
  | nil => exact h'
  | cons h =>
    cases h' with
    | cons h' =>
      obtain ⟨hk, hn, hl⟩ := h
      obtain ⟨hk', hn', hl'⟩ := h'
      exact .cons ⟨hk'.trans hk.symm, hn'.trans hn.symm, hl'.trans hl.symm⟩

theorem Balanced.of_nil {stack : CallStack} (h : Balanced [] stack) : stack = [] := by
  cases h
  rfl

theorem Balanced.of_cons {r : Record} {rest stack : CallStack} (h : Balanced (r :: rest) stack) :
    ∃ r', stack = r' :: rest := by
  cases h with
  | cons => exact ⟨_, rfl⟩

end CallStack

/-! ## What can be shown -/

def Value.Shown (v : Value) : Prop :=
  ∃ t, v.text = .ok t

def Record.Shown (r : Record) : Prop :=
  ∀ member ∈ r.members.entries, member.2.Shown

def CallStack.Shown (stack : CallStack) : Prop :=
  ∀ r ∈ stack, r.Shown

section

variable {α β ε : Type} {f : α → Except ε β} {as : List α}

theorem mapM_eq_ok (h : ∀ a ∈ as, ∃ b, f a = .ok b) : ∃ bs, as.mapM f = .ok bs := by
  induction as with
  | nil => exact ⟨[], rfl⟩
  | cons a as ih =>
    obtain ⟨b, hb⟩ := h a (by simp)
    obtain ⟨bs, hbs⟩ := ih fun a ha => h a (by simp [ha])
    refine ⟨b :: bs, ?_⟩
    rw [List.mapM_cons, hb, hbs]
    rfl

theorem mapM_eq_error {e : ε} (h : as.mapM f = .error e) : ∃ a ∈ as, f a = .error e := by
  induction as with
  | nil => cases h
  | cons a as ih =>
    rw [List.mapM_cons] at h
    cases ha : f a with
    | error e' =>
      rw [ha] at h
      cases h
      exact ⟨a, by simp, ha⟩
    | ok b =>
      rw [ha] at h
      cases has : as.mapM f with
      | error e' =>
        rw [has] at h
        cases h
        obtain ⟨a', ha', hf⟩ := ih has
        exact ⟨a', by simp [ha'], hf⟩
      | ok bs =>
        rw [has] at h
        cases h

end

theorem Value.text_eq_error {v : Value} {e : NumberFault} (h : v.text = .error e) :
    e = .tooLongToWrite := by
  cases v with
  | int n =>
    simp only [Value.text, Value.intText] at h
    split at h
    · exact absurd h (by simp)
    · exact (Except.error.inj h).symm
  | float x => cases h
  | bool b => cases h
  | none => cases h

theorem Record.memberText_eq_error {member : String × Value} {e : NumberFault}
    (h : Record.memberText member = .error e) : e = .tooLongToWrite := by
  obtain ⟨name, v⟩ := member
  cases ht : v.text with
  | ok t =>
    simp only [Record.memberText, ht] at h
    cases h
  | error e' =>
    simp only [Record.memberText, ht] at h
    cases h
    exact Value.text_eq_error ht

theorem Record.text_eq_error {r : Record} {e : NumberFault} (h : r.text = .error e) :
    e = .tooLongToWrite := by
  unfold Record.text at h
  cases ht : r.members.entries.mapM Record.memberText with
  | ok ts =>
    rw [ht] at h
    cases h
  | error e' =>
    rw [ht] at h
    cases h
    obtain ⟨member, -, hm⟩ := mapM_eq_error ht
    exact Record.memberText_eq_error hm

theorem Record.Shown.text {r : Record} (h : r.Shown) : ∃ t, r.text = .ok t := by
  have hmember : ∀ member ∈ r.members.entries, ∃ t, Record.memberText member = .ok t := by
    rintro ⟨name, v⟩ hm
    obtain ⟨t, ht⟩ : v.Shown := h _ hm
    simp only [Record.memberText, ht]
    exact ⟨_, rfl⟩
  obtain ⟨ts, hts⟩ := mapM_eq_ok hmember
  unfold Record.text
  rw [hts]
  exact ⟨_, rfl⟩

theorem CallStack.Shown.text {stack : CallStack} (h : stack.Shown) : ∃ t, stack.text = .ok t := by
  have hrecord : ∀ r ∈ stack, ∃ t, r.text = .ok t := fun r hr => (h r hr).text
  obtain ⟨ts, hts⟩ := mapM_eq_ok hrecord
  unfold CallStack.text
  rw [hts]
  exact ⟨_, rfl⟩

theorem Table.mem_put {α : Type} {name : String} {a : α} {entries : List (String × α)}
    {entry : String × α} (h : entry ∈ Table.put name a entries) :
    entry = (name, a) ∨ entry ∈ entries := by
  induction entries with
  | nil => exact .inl (by simpa [Table.put] using h)
  | cons first rest ih =>
    obtain ⟨key, b⟩ := first
    unfold Table.put at h
    split at h
    · rcases List.mem_cons.mp h with h | h
      · exact .inl h
      · exact .inr (by simp [h])
    · rcases List.mem_cons.mp h with h | h
      · exact .inr (by simp [h])
      · exact (ih h).imp id fun h => by simp [h]

theorem Record.Shown.set {r : Record} {name : String} {v : Value} (h : r.Shown) (hv : v.Shown) :
    (r.set name v).Shown := by
  intro member hm
  rcases Table.mem_put hm with rfl | hm
  · exact hv
  · exact h member hm

theorem CallStack.Shown.cons {r : Record} {stack : CallStack} (hr : r.Shown) (h : stack.Shown) :
    CallStack.Shown (r :: stack) := by
  intro r' hr'
  rcases List.mem_cons.mp hr' with rfl | hr'
  · exact hr
  · exact h r' hr'

theorem CallStack.Shown.head {r : Record} {stack : CallStack}
    (h : CallStack.Shown (r :: stack)) : r.Shown :=
  h r (by simp)

theorem CallStack.Shown.tail {r : Record} {stack : CallStack}
    (h : CallStack.Shown (r :: stack)) : stack.Shown :=
  fun r' hr' => h r' (by simp [hr'])

/-! ## Messages -/

theorem Log.write_of_disabled {log : Log} {level : Int} (h : log.enabled level = false)
    (text : String) : log.write level text = log := by
  unfold Log.write
  rw [h]
  rfl

namespace Running

variable {α β : Type}

/-! ## Taking a step -/

theorem bind_apply (p : Running α) (f : α → Running β) (m : Machine) :
    (p >>= f) m = match p m with
      | .ok a m' => f a m'
      | .error e m' => .error e m' := by
  simp only [bind, EStateM.bind]
  cases p m <;> rfl

theorem get_apply (m : Machine) : (get : Running Machine) m = .ok m m := rfl

theorem set_apply (m m' : Machine) : (set m' : Running PUnit) m = .ok () m' := rfl

theorem modify_apply (change : Machine → Machine) (m : Machine) :
    (modify change : Running PUnit) m = .ok () (change m) := rfl

theorem note_apply (level : Int) (text : String) (m : Machine) :
    note level text m = .ok () { m with log := m.log.write level text } := rfl

theorem isTracing_apply (m : Machine) : isTracing m = .ok (m.log.enabled 1) m := rfl

/-- The machine after a step. -/
def after : EStateM.Result Stop Machine α → Machine
  | .ok _ m | .error _ m => m

theorem snd_perform (m : Machine) (step : Running Value) :
    (m.perform step).2 = after (step m) := by
  unfold Machine.perform
  split <;> simp [after, *]

/-! ## Records that come and go -/

/-- The record that is remembered once a record is off the stack. -/
def remembered (record : Record) (last : Option Record) : Option Record :=
  if record.kind = .program && last.isNone then some record else last

end Running

namespace Machine

def push (m : Machine) (record : Record) : Machine :=
  { m with
    stack := record :: m.stack
    log := m.log.write 1 s!"ENTER: {record.kind.name} {record.name}" }

def pop (m : Machine) (record : Record) (rest : CallStack) : Machine :=
  { m with
    stack := rest
    lastProgram := Running.remembered record m.lastProgram
    log := m.log.write 1 s!"LEAVE: {record.kind.name} {record.name}" }

/-- Shows a text among the messages about records. -/
def dump (m : Machine) (text : String) : Machine :=
  { m with log := m.log.write 1 text }

theorem dump_of_disabled {m : Machine} (h : m.log.enabled 1 = false) (text : String) :
    m.dump text = m := by
  unfold dump
  rw [Log.write_of_disabled h]

end Machine

namespace Running

variable {α : Type} {m : Machine} {record : Record} {rest : CallStack}

/-- Whether the stack is turned into text hangs on the log, but what is written does not: a message
that is not shown is one that the log drops. -/
theorem enter_eq (record : Record) (m : Machine) :
    enter record m = match CallStack.text (record :: m.stack) with
      | .ok t => .ok () ((m.push record).dump t)
      | .error e =>
        if m.log.enabled 1 then .error (.failed (.number e)) (m.push record)
        else .ok () (m.push record) := by
  unfold enter
  simp only [bind_apply, modify_apply, isTracing_apply]
  cases hlog : m.log.enabled 1 with
  | false =>
    have hpush : m.push record = { m with stack := record :: m.stack } := by
      unfold Machine.push
      rw [Log.write_of_disabled hlog]
    cases CallStack.text (record :: m.stack) with
    | ok t =>
      have hdump : (m.push record).dump t = m.push record :=
        Machine.dump_of_disabled (by rw [hpush]; exact hlog) t
      exact congrArg (EStateM.Result.ok ()) (hdump.trans hpush).symm
    | error e => exact congrArg (EStateM.Result.ok ()) hpush.symm
  | true =>
    simp only [if_true, bind_apply, note_apply, get_apply]
    cases CallStack.text (record :: m.stack) <;> rfl

theorem leave_nil (hs : m.stack = []) : leave m = .ok () m := by
  unfold leave
  simp only [bind_apply, get_apply, hs]
  rfl

theorem leave_eq (hs : m.stack = record :: rest) :
    leave m = match record.text with
      | .ok t => .ok () ((m.pop record rest).dump t)
      | .error e =>
        if m.log.enabled 1 then .error (.failed (.number e)) (m.pop record rest)
        else .ok () (m.pop record rest) := by
  unfold leave
  simp only [bind_apply, get_apply, hs, set_apply, isTracing_apply]
  cases hlog : m.log.enabled 1 with
  | false =>
    have hpop : m.pop record rest =
        { m with stack := rest, lastProgram := remembered record m.lastProgram } := by
      unfold Machine.pop
      rw [Log.write_of_disabled hlog]
    cases record.text with
    | ok t =>
      have hdump : (m.pop record rest).dump t = m.pop record rest :=
        Machine.dump_of_disabled (by rw [hpop]; exact hlog) t
      exact congrArg (EStateM.Result.ok ()) (hdump.trans hpop).symm
    | error e => exact congrArg (EStateM.Result.ok ()) hpop.symm
  | true =>
    simp only [if_true, bind_apply, note_apply]
    cases record.text <;> rfl

/-- A record comes on top of a stack that can be shown. -/
theorem enter_shown (hr : record.Shown) (hs : m.stack.Shown) :
    ∃ t, CallStack.text (record :: m.stack) = .ok t ∧
      enter record m = .ok () ((m.push record).dump t) := by
  obtain ⟨t, ht⟩ := (CallStack.Shown.cons hr hs).text
  refine ⟨t, ht, ?_⟩
  rw [enter_eq, ht]

/-- A record is taken off the stack even if it cannot be shown. -/
theorem leave_cases (hs : m.stack = record :: rest) :
    ∃ log, let m' : Machine :=
        { m with stack := rest, lastProgram := remembered record m.lastProgram, log }
      leave m = .ok () m' ∨
        ¬record.Shown ∧ leave m = .error (.failed (.number .tooLongToWrite)) m' := by
  rw [leave_eq hs]
  cases ht : record.text with
  | ok t => exact ⟨_, .inl rfl⟩
  | error e =>
    obtain rfl := Record.text_eq_error ht
    have hshown : ¬record.Shown := fun hr => by
      obtain ⟨t, ht'⟩ := hr.text
      rw [ht] at ht'
      cases ht'
    by_cases hlog : m.log.enabled 1 = true
    · exact ⟨_, .inr ⟨hshown, if_pos hlog⟩⟩
    · exact ⟨_, .inl (if_neg hlog)⟩

theorem activate_of_enter {body : Running Value} {m₁ : Machine}
    (h : enter record m = .ok () m₁) :
    activate record body m = match body m₁ with
      | .ok v m | .error (.returned v) m => (do leave; return v : Running Value) m
      | .error (.failed e) m => (do leave; fail e : Running Value) m := by
  unfold activate
  refine (bind_apply _ _ m).trans ?_
  generalize enter record m = r at h
  subst h
  rfl

theorem shown_callRecord {name : Token} {f : Function} {values : List Value} {level : Nat}
    (h : ∀ v ∈ values, v.Shown) : (callRecord name f values level).Shown := by
  have hfold {pairs : List (Parameter × Value)} (hp : ∀ p ∈ pairs, p.2.Shown) {r : Record}
      (hr : r.Shown) :
      (pairs.foldl (fun record p => record.set p.1.name.text p.2) r).Shown := by
    induction pairs generalizing r with
    | nil => exact hr
    | cons p pairs ih => exact ih (fun q hq => hp q (by simp [hq])) (hr.set (hp p (by simp)))
  refine hfold (fun p hp => h p.2 (List.of_mem_zip hp).2) ?_
  intro member hm
  cases hm

/-! ## Calls -/

def enact (execute : Node → Running Value) (name : Token) (f : Function) (values : List Value) :
    Running Value := do
  activate (callRecord name f values ((← get).stack.length + 1)) (execute f.body)

def invoke (execute : Node → Running Value) (name : Token) (f : Function) (values : List Value) :
    Running Value := do
  let texts ← values.mapM fun v => number v.text
  let shown := ", ".intercalate texts
  note 3 s!"call {name.text}({shown})"
  activate (callRecord name f values ((← get).stack.length + 1)) (execute f.body)

/-- A call looks the function up, counts its arguments, evaluates them and carries out the body. -/
theorem call_eq (evaluate execute : Node → Running Value) (name : Token) (arguments : List Node) :
    call evaluate execute name arguments =
      functionNamed name >>= fun f =>
        if arguments.length ≠ f.parameters.length then
          blame name (.argumentCount name.text f.parameters.length arguments.length)
        else arguments.mapM evaluate >>= invoke execute name f :=
  rfl

end Running

end LittleLang
