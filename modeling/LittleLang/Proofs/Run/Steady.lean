import LittleLang.Proofs.Run.Contracts

/-!
# Steady steps

A step is steady if it leaves the stack with the records it found, but for the variables of the one
on top, however it ends. It relies on a stack that can be shown and on what the declared functions
are like, and leaves both so unless it fails; it fails only in ways that are let through; and it
keeps a property of the machine. The contract relates two forms of a step, the second of which may
be watched, and says that they do the same.

`Laws` is what a property has to satisfy for all walks over nodes of some kind to keep it. The
property may change from one record to the next: it depends on a world, and a call moves to another
one. -/

namespace LittleLang.Running

variable {α : Type} {good : String → Function → Prop} {fails : Failure → Prop}
  {I I' : Machine → Prop} {base : CallStack} {m : Machine} {post : α → Prop}

/-- Every declared function is of a kind. -/
def Known (good : String → Function → Prop) (functions : Table Function) : Prop :=
  ∀ name f, functions.get? name = some f → good name f

/-- Between two steps: a machine, and the same machine on the other side. -/
structure Held (good : String → Function → Prop) (I : Machine → Prop) (base : CallStack)
    (m m' : Machine) : Prop where
  same : m = m'
  balanced : base.Balanced m.stack
  shown : m.stack.Shown
  known : Known good m.functions
  kept : I m

structure Halted (good : String → Function → Prop) (fails : Failure → Prop) (I : Machine → Prop)
    (base : CallStack) (stop stop' : Stop) (m m' : Machine) : Prop where
  stops : stop = stop'
  same : m = m'
  balanced : base.Balanced m.stack
  kept : I m
  returned : ∀ v, stop = .returned v → m.stack.Shown ∧ Known good m.functions
  failed : ∀ e, stop = .failed e → fails e

def steady (good : String → Function → Prop) (fails : Failure → Prop) (I : Machine → Prop)
    (base : CallStack) : Contract :=
  .ofInStep (Held good I base) (Halted good fails I base)

theorem Held.failed {e : Failure} (h : Held good I base m m) (he : fails e) :
    Halted good fails I base (.failed e) (.failed e) m m := by
  refine ⟨rfl, rfl, h.balanced, h.kept, nofun, ?_⟩
  rintro _ ⟨⟩
  exact he

/-- The outcome of a steady step. -/
abbrev Ended (good : String → Function → Prop) (fails : Failure → Prop) (I : Machine → Prop)
    (base : CallStack) (post : α → Prop) (r r' : EStateM.Result Stop Machine α) : Prop :=
  Paired (Held good I base) (Halted good fails I base) (fun a a' => a = a' ∧ post a) r r'

theorem Ended.same {r r' : EStateM.Result Stop Machine α}
    (h : Ended good fails I base post r r') :
    r' = r ∧ base.Balanced (after r).stack ∧ I (after r) := by
  cases h with
  | ok ha hm =>
    obtain ⟨rfl, -⟩ := ha
    obtain rfl := hm.same
    exact ⟨rfl, hm.balanced, hm.kept⟩
  | error h =>
    obtain rfl := h.stops
    obtain rfl := h.same
    exact ⟨rfl, h.balanced, h.kept⟩

theorem Ended.failed {e : Failure} {r' : EStateM.Result Stop Machine α}
    (h : Ended good fails I base post (.error (.failed e) m) r') : fails e := by
  cases h with
  | error h => exact h.failed e rfl

/-! ## Single steps -/

section

variable {p p' : Running α}

theorem steady_of (h : ∀ m, Held good I base m m → Ended good fails I base post (p m) (p m)) :
    (steady good fails I base).Holds p p post := by
  intro m m' hm
  obtain rfl := hm.same
  exact h m hm

theorem steady_fail {e : Failure} (he : fails e) :
    (steady good fails I base).Holds (fail e : Running α) (fail e) post :=
  steady_of fun _ hm => .error (hm.failed he)

theorem steady_return (v : Value) :
    (steady good fails I base).Holds (throw (.returned v) : Running α) (throw (.returned v)) post :=
  steady_of fun _ hm => .error ⟨rfl, rfl, hm.balanced, hm.kept, fun _ _ => ⟨hm.shown, hm.known⟩,
    fun _ h => by cases h⟩

theorem steady_text (hf : fails (.number .tooLongToWrite)) (v : Value) :
    (steady good fails I base).Holds (number v.text) (number v.text) fun t => v.text = .ok t := by
  cases ht : v.text with
  | ok t => exact Contract.of_pure _ rfl
  | error e =>
    obtain rfl := Value.text_eq_error ht
    exact steady_fail hf

theorem steady_note {level : Int} {text : String}
    (hI : ∀ m, I m → I { m with log := m.log.write level text }) :
    (steady good fails I base).Holds (note level text) (note level text) fun _ => True :=
  steady_of fun m hm =>
    .ok ⟨rfl, trivial⟩ ⟨rfl, hm.balanced, hm.shown, hm.known, hI m hm.kept⟩

theorem steady_load (hf : ∀ cause token, fails (.runtime cause token)) (name : Token) :
    (steady good fails I base).Holds (load name) (load name) fun _ => True := by
  refine steady_of fun m hm => ?_
  unfold load
  simp only [bind_apply, get_apply]
  cases m.stack.head?.bind fun r => r.members.get? name.text with
  | some v => exact .ok ⟨rfl, trivial⟩ hm
  | none => exact .error (hm.failed (hf _ _))

theorem steady_functionNamed (hf : ∀ cause token, fails (.runtime cause token)) (name : Token) :
    (steady good fails I base).Holds (functionNamed name) (functionNamed name)
      fun f => good name.text f := by
  refine steady_of fun m hm => ?_
  unfold functionNamed
  simp only [bind_apply, get_apply]
  cases h : m.functions.get? name.text with
  | some f => exact .ok ⟨rfl, hm.known _ f h⟩ hm
  | none => exact .error (hm.failed (hf _ _))

/-- A value is shown right after it is stored. In between, the stack cannot be relied on. -/
theorem steady_assign {target : Token} (hf : fails (.number .tooLongToWrite))
    (hnil : ∀ m, I m → m.stack = [] → fails .noRecord)
    (hstore : ∀ m r rest v, I m → m.stack = r :: rest →
      I { m with stack := r.set target.text v :: rest })
    (hremark : ∀ {level text} m, Remark level text → I m →
      I { m with log := m.log.write level text }) (v : Value) :
    (steady good fails I base).Holds (assign target v) (assign target v) fun _ => True := by
  refine steady_of fun m hm => ?_
  unfold assign store
  simp only [bind_apply, get_apply]
  cases hstack : m.stack with
  | nil => exact .error (hm.failed (hnil m hm.kept hstack))
  | cons r rest =>
    have hb : base.Balanced (r.set target.text v :: rest) :=
      hm.balanced.trans (hstack ▸ .cons ⟨rfl, rfl, rfl⟩)
    have hI := hstore m r rest v hm.kept hstack
    simp only [set_apply]
    cases ht : v.text with
    | error e =>
      obtain rfl := Value.text_eq_error ht
      refine .error ⟨rfl, rfl, hb, hI, nofun, ?_⟩
      rintro _ ⟨⟩
      exact hf
    | ok t =>
      have hshown := hm.shown
      rw [hstack] at hshown
      exact .ok ⟨rfl, trivial⟩ ⟨rfl, hb, .cons (hshown.head.set ⟨t, ht⟩) hshown.tail, hm.known,
        hremark _ (.assign _ t) hI⟩

theorem steady_declare {name : Token} {parameters : List Parameter} {body : Node}
    (hg : good name.text ⟨parameters, body⟩)
    (hinsert : ∀ m, I m → I { m with functions := m.functions.insert name.text ⟨parameters, body⟩ })
    (hremark : ∀ {level text} m, Remark level text → I m →
      I { m with log := m.log.write level text }) :
    (steady good fails I base).Holds (declare name parameters body) (declare name parameters body)
      fun _ => True := by
  refine steady_of fun m hm => .ok ⟨rfl, trivial⟩
    ⟨rfl, hm.balanced, hm.shown, fun key f h => ?_,
      hremark _ (.define _) (hinsert m hm.kept)⟩
  simp only [Table.get?_insert] at h
  split at h
  · next hkey =>
    cases h
    exact hkey ▸ hg
  · exact hm.known key f h

theorem steady_watch {monitor : Monitor} {p p' : Running Value} {post : Value → Prop}
    (h : (steady good fails I base).Holds p p' post)
    (hm : ∀ m r, Held good I base m m → base.Balanced (after r).stack → I (after r) →
      monitor m r = r) :
    (steady good fails I base).Holds p (watch monitor p') post := by
  intro m m' hheld
  have hended : Ended good fails I base post (p m) (p' m') := h m m' hheld
  obtain rfl := hheld.same
  obtain ⟨heq, hb, hI⟩ := hended.same
  show Ended good fails I base post (p m) (monitor m (p' m))
  rw [heq] at hended
  rw [heq, hm m _ hheld hb hI]
  exact hended

end

/-! ## Records -/

/-- A record may come on top of the stack: one property gives way to another until it is gone. -/
structure Encloses (I I' : Machine → Prop) (m : Machine) (record : Record) : Prop where
  enter {t : String} : CallStack.text (record :: m.stack) = .ok t → I' ((m.push record).dump t)
  leave {m' : Machine} {top : Record} : I' m' → m'.stack = top :: m.stack → I (after (leave m'))

theorem stack_leave {top : Record} {rest : CallStack} (h : m.stack = top :: rest) :
    (after (leave m)).stack = rest := by
  obtain ⟨log, hl | ⟨-, hl⟩⟩ := leave_cases h
  · rw [hl]
    rfl
  · rw [hl]
    rfl

section

variable {record : Record}

/-- At the end of a body its record goes, and the stack is the one from before. -/
theorem ended_leave {stack : CallStack} {top : Record} (hf : fails (.number .tooLongToWrite))
    (hs : stack.Shown) (htop : m.stack = top :: stack) (hI : I (after (leave m))) :
    (m.stack.Shown → Known good m.functions → ∀ v, Ended good fails I stack (fun _ => True)
      ((do leave; return v : Running Value) m) ((do leave; return v : Running Value) m)) ∧
    ∀ e, fails e → Ended good fails I stack (fun _ => True)
      ((do leave; fail e : Running Value) m) ((do leave; fail e : Running Value) m) := by
  have failed {e : Failure} (he : fails e) {m' : Machine} (hstack : m'.stack = stack)
      (hI : I m') : Halted good fails I stack (.failed e) (.failed e) m' m' := by
    refine ⟨rfl, rfl, hstack ▸ .refl _, hI, nofun, ?_⟩
    rintro _ ⟨⟩
    exact he
  obtain ⟨log, hl | ⟨hshown, hl⟩⟩ := leave_cases htop
  · rw [hl] at hI
    refine ⟨fun _ hk v => ?_, fun e he => ?_⟩
    · simp only [bind_apply, hl]
      exact .ok ⟨rfl, trivial⟩ ⟨rfl, .refl _, hs, hk, hI⟩
    · simp only [bind_apply, hl]
      exact .error (failed he rfl hI)
  · rw [hl] at hI
    refine ⟨fun hshown' => ?_, fun e _ => ?_⟩
    · rw [htop] at hshown'
      exact absurd hshown'.head hshown
    · simp only [bind_apply, hl]
      exact .error (failed hf rfl hI)

theorem ended_activate {body body' : Running Value} (hf : fails (.number .tooLongToWrite))
    (hr : record.Shown) (hs : m.stack.Shown) (hk : Known good m.functions)
    (he : Encloses I I' m record)
    (hbody : ∀ base, (steady good fails I' base).Holds body body' fun _ => True) :
    Ended good fails I m.stack (fun _ => True) (activate record body m)
      (activate record body' m) := by
  obtain ⟨t, ht, henter⟩ := enter_shown hr hs
  rw [activate_of_enter henter, activate_of_enter henter]
  have hended : Ended good fails I' (record :: m.stack) (fun _ => True)
      (body ((m.push record).dump t)) (body' ((m.push record).dump t)) :=
    hbody _ _ _ ⟨rfl, .refl _, .cons hr hs, hk, he.enter ht⟩
  generalize body ((m.push record).dump t) = r at hended
  generalize body' ((m.push record).dump t) = r' at hended
  cases hended with
  | ok ha hm =>
    obtain ⟨rfl, -⟩ := ha
    obtain rfl := hm.same
    obtain ⟨top, htop⟩ := hm.balanced.of_cons
    exact (ended_leave hf hs htop (he.leave hm.kept htop)).1 hm.shown hm.known _
  | @error stop _ _ _ h =>
    obtain rfl := h.stops
    obtain rfl := h.same
    obtain ⟨top, htop⟩ := h.balanced.of_cons
    have hleave := @ended_leave good fails I _ _ _ hf hs htop (he.leave h.kept htop)
    cases stop with
    | returned v =>
      obtain ⟨hshown, hknown⟩ := h.returned v rfl
      exact hleave.1 hshown hknown v
    | failed e => exact hleave.2 e (h.failed e rfl)

/-- What is said on top of the stack from before can be said on top of an earlier one. -/
theorem Ended.on {stack : CallStack} {r r' : EStateM.Result Stop Machine α}
    (h : Ended good fails I stack post r r') (hb : base.Balanced stack) :
    Ended good fails I base post r r' := by
  cases h with
  | ok ha hm => exact .ok ha ⟨hm.same, hb.trans hm.balanced, hm.shown, hm.known, hm.kept⟩
  | error h =>
    exact .error ⟨h.stops, h.same, hb.trans h.balanced, h.kept, h.returned, h.failed⟩

theorem ended_start (name : String) {block block' : Running Value}
    (hf : fails (.number .tooLongToWrite)) (hs : m.stack.Shown) (hk : Known good m.functions)
    (he : Encloses I I' { m with lastProgram := none } { kind := .program, name, level := 1 })
    (hblock : ∀ base, (steady good fails I' base).Holds block block' fun _ => True) :
    Ended good fails I m.stack (fun _ => True) (start name block m) (start name block' m) :=
  @ended_activate good fails I I' { m with lastProgram := none } _ _ _ hf
    (fun _ hm => by cases hm) hs hk he hblock

end

/-! ## Walks -/

/-- The failures that any walk may end with are let through, and those of an expression itself. -/
structure Admits (fails : Failure → Prop) (E : Node → Prop) : Prop where
  runtime (cause : RuntimeCause) (token : Option Token) : fails (.runtime cause token)
  tooLong : fails (.number .tooLongToWrite)
  beyondFloat : fails (.number .beyondFloat)
  tooDeep : fails .tooDeep
  own {n : Node} {e : Failure} : E n → ownFailure? n = some e → fails e

/-- What a property `I` of machines has to satisfy for all walks to keep it, over statements `X` and
expressions `E`. -/
structure Laws {W : Type} (good : String → Function → Prop) (fails : Failure → Prop)
    (I : W → Machine → Prop) (X : W → Node → Prop) (E : Node → Prop) : Prop
    extends Admits fails E where
  statement {w : W} {n : Node} : X w n → Node.Layer .identity (Node.Both (X w)) (Node.Both E) Eq n n
  expression {n : Node} : E n →
    Node.Layer .identity (fun _ _ => True) (Node.Both E) (fun _ _ => True) n n
  self {w : W} {n : Node} : X w n → evaluated n = [n] → E n
  remark {w : W} {level : Int} {text : String} (m : Machine) : Remark level text → I w m →
    I w { m with log := m.log.write level text }
  noRecord {w : W} {type : Option Token} {target op : Token} {value : Node} (m : Machine) :
    X w (.assign type target op value) → I w m → m.stack = [] → fails .noRecord
  store {w : W} {type : Option Token} {target op : Token} {value : Node} (m : Machine) (r : Record)
    (rest : CallStack) (v : Value) : X w (.assign type target op value) → I w m →
    m.stack = r :: rest → I w { m with stack := r.set target.text v :: rest }
  declared {w : W} {name : Token} {parameters : List Parameter} {body : Node} :
    X w (.function name parameters body) → good name.text ⟨parameters, body⟩
  declare {w : W} (m : Machine) (name : String) (f : Function) : I w m →
    I w { m with functions := m.functions.insert name f }
  enterCall {w : W} {name : Token} {f : Function} (m : Machine) : good name.text f → I w m →
    ∃ w', X w' f.body ∧
      ∀ values, Encloses (I w) (I w') m (callRecord name f values (m.stack.length + 1))
  enterProgram {w : W} {name : String} {block : Node} (m : Machine) : X w (.program name block) →
    I w m → ∃ w', X w' block ∧ Encloses (I w) (I w') { m with lastProgram := none }
      { kind := .program, name, level := 1 }

namespace Laws

variable {W : Type} {I : W → Machine → Prop} {X : W → Node → Prop} {E : Node → Prop} {w : W}
  {n : Node}

theorem rules (L : Laws good fails I X E) (w : W) (base : CallStack) :
    (steady good fails (I w) base).Rules .identity where
  text := steady_text L.tooLong
  remark h := steady_note fun m => L.remark m h
  operands := by
    rintro op _ cause rfl -
    exact steady_fail (L.runtime cause op)
  beyondFloat := steady_fail L.beyondFloat

section

variable {evaluate evaluate' execute execute' : Node → Running Value}

theorem executeNode (L : Laws good fails I X E) (hn : X w n)
    (hev : ∀ c, E c →
      (steady good fails (I w) base).Holds (evaluate c) (evaluate' c) fun _ => True)
    (hex : ∀ w base c, X w c →
      (steady good fails (I w) base).Holds (execute c) (execute' c) (Contract.Gets c)) :
    (steady good fails (I w) base).Holds (executeNode evaluate execute n)
      (Running.executeNode evaluate' execute' n) (Contract.Gets n) := by
  refine Contract.executeNode_same (L.rules w base) (fun h => h) (L.statement hn) (L.self hn) hev
    (hex w base) (fun v => steady_return v) ?_ ?_ ?_
  · rintro type target op value rfl v
    exact steady_assign L.tooLong (fun m => L.noRecord m hn)
      (fun m r rest v => L.store m r rest v hn) L.remark v
  · rintro name ps body rfl
    exact steady_declare (L.declared hn) (fun m => L.declare m _ _) L.remark
  · rintro name block rfl hblock m _ hm
    obtain rfl := hm.same
    obtain ⟨w', hblock', he⟩ := L.enterProgram m hn hm.kept
    refine (ended_start name L.tooLong hm.shown hm.known he fun base => ?_).on hm.balanced
    exact Contract.weaken (hex w' base block hblock') fun _ _ => trivial

theorem call (L : Laws good fails I X E) {arguments : List Node} (hargs : ∀ a ∈ arguments, E a)
    (hev : ∀ c, E c →
      (steady good fails (I w) base).Holds (evaluate c) (evaluate' c) fun _ => True)
    (hex : ∀ w base c, X w c →
      (steady good fails (I w) base).Holds (execute c) (execute' c) (Contract.Gets c))
    (name : Token) :
    (steady good fails (I w) base).Holds (call evaluate execute name arguments)
      (Running.call evaluate' execute' name arguments) fun _ => True := by
  refine Contract.call_same (L.rules w base) (steady_functionNamed L.runtime name)
    (fun f _ _ => steady_fail (L.runtime _ _)) (fun a ha => hev a (hargs a ha)) ?_
  intro f values hf _ hvalues m m' hm
  obtain rfl := hm.same
  obtain ⟨w', hbody, he⟩ := L.enterCall m hf hm.kept
  refine (ended_activate L.tooLong (shown_callRecord hvalues) hm.shown hm.known (he values)
    fun base => ?_).on hm.balanced
  exact Contract.weaken (hex w' base f.body hbody) fun _ _ => trivial

theorem evaluateNode (L : Laws good fails I X E) (hn : E n)
    {call call' : Token → List Node → Running Value}
    (hev : ∀ c, E c →
      (steady good fails (I w) base).Holds (evaluate c) (evaluate' c) fun _ => True)
    (hcall : ∀ name arguments, (∀ a ∈ arguments, E a) →
      (steady good fails (I w) base).Holds (call name arguments) (call' name arguments)
        fun _ => True) :
    (steady good fails (I w) base).Holds (evaluateNode evaluate call n)
      (Running.evaluateNode evaluate' call' n) fun _ => True :=
  Contract.evaluateNode_same (L.rules w base) (L.expression hn) hev
    (fun t _ => steady_load L.runtime t) (fun t as _ => hcall t as)
    fun _ he => steady_fail (L.own hn he)

end

/-- A walk whose calls are watched. The induction is on the depth, for both walks at once. -/
theorem under (L : Laws good fails I X E) (monitor : Monitor)
    (hm : ∀ w m r, I w m → m.stack.Balanced (after r).stack → I w (after r) → monitor m r = r)
    (depth : Nat) :
    (∀ w base n, X w n → (steady good fails (I w) base).Holds (execute depth n)
      (executeUnder monitor depth n) (Contract.Gets n)) ∧
    ∀ w base n, E n → (steady good fails (I w) base).Holds (evaluate depth n)
      (evaluateUnder monitor depth n) fun _ => True := by
  have hwatch {w : W} {base : CallStack} {p p' : Running Value} {post : Value → Prop}
      (h : (steady good fails (I w) base).Holds p p' post) :
      (steady good fails (I w) base).Holds p (watch monitor p') post :=
    steady_watch h fun m r hheld hb hI => hm w m r hheld.kept (hheld.balanced.of_common hb) hI
  induction depth with
  | zero =>
    exact ⟨fun w base n _ => hwatch (steady_fail L.tooDeep),
      fun w base n _ => hwatch (steady_fail L.tooDeep)⟩
  | succ depth ih =>
    obtain ⟨hex, hev⟩ := ih
    refine ⟨fun w base n hn => ?_, fun w base n hn => ?_⟩
    · rw [execute_succ, executeUnder]
      exact hwatch (L.executeNode hn (hev w base) hex)
    · rw [evaluate_succ, evaluateUnder]
      exact hwatch (L.evaluateNode hn (hev w base) fun name arguments hargs =>
        hwatch (L.call hargs (hev w base) hex name))

end Laws

/-! ## Where there is a record -/

/-- What nodes have to satisfy that are only walked over where there is a record. -/
structure Nodes (good : String → Function → Prop) (fails : Failure → Prop) (X E : Node → Prop) :
    Prop extends Admits fails E where
  statement {n : Node} : X n → Node.Layer .identity (Node.Both X) (Node.Both E) Eq n n
  expression {n : Node} : E n →
    Node.Layer .identity (fun _ _ => True) (Node.Both E) (fun _ _ => True) n n
  self {n : Node} : X n → evaluated n = [n] → E n
  declared {name : Token} {parameters : List Parameter} {body : Node} :
    X (.function name parameters body) → good name.text ⟨parameters, body⟩
  body {name : String} {f : Function} : good name f → X f.body
  inner {name : String} {block : Node} : ¬X (.program name block)

/-- What a property of machines has to satisfy to be kept where there is a record. -/
structure Kept (I : Machine → Prop) : Prop where
  remark {level : Int} {text : String} (m : Machine) : Remark level text → I m →
    I { m with log := m.log.write level text }
  store (m : Machine) (r : Record) (rest : CallStack) (name : String) (v : Value) : I m →
    m.stack = r :: rest → I { m with stack := r.set name v :: rest }
  declare (m : Machine) (name : String) (f : Function) : I m →
    I { m with functions := m.functions.insert name f }
  call (m : Machine) (name : Token) (f : Function) (values : List Value) : I m → m.stack ≠ [] →
    Encloses I I m (callRecord name f values (m.stack.length + 1))

theorem kept_true : Kept fun _ => True :=
  ⟨fun _ _ _ => trivial, fun _ _ _ _ _ _ _ => trivial, fun _ _ _ _ => trivial,
    fun _ _ _ _ _ _ => ⟨fun _ => trivial, fun _ _ => trivial⟩⟩

theorem Encloses.inner {record : Record} (h : Encloses I I' m record) :
    Encloses I (fun m => I' m ∧ m.stack ≠ []) m record :=
  ⟨fun ht => ⟨h.enter ht, nofun⟩, fun hI => h.leave hI.1⟩

theorem Nodes.laws {X E : Node → Prop} (N : Nodes good fails X E) (K : Kept I) :
    Laws good fails (fun (_ : Unit) m => I m ∧ m.stack ≠ []) (fun _ => X) E where
  toAdmits := N.toAdmits
  statement := N.statement
  expression := N.expression
  self := N.self
  remark m h hI := ⟨K.remark m h hI.1, hI.2⟩
  noRecord _ _ hI hnil := absurd hnil hI.2
  store m r rest v _ hI hs := ⟨K.store m r rest _ v hI.1 hs, nofun⟩
  declared := N.declared
  declare m name f hI := ⟨K.declare m name f hI.1, hI.2⟩
  enterCall {_ name f} m hf hI := by
    refine ⟨(), N.body hf, fun values => ?_⟩
    have hinner := (K.call m name f values hI.1 hI.2).inner
    refine ⟨hinner.enter, fun hI' htop => ⟨hinner.leave hI' htop, ?_⟩⟩
    rw [stack_leave htop]
    exact hI.2
  enterProgram _ h := absurd h N.inner

end LittleLang.Running
