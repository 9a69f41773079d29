import LittleLang.Proofs.Run.Steps

/-!
# What a step can reach

Of the machine, a step within one record can change the functions, the variables of that record and
the log. The rest is its frame: the records below, what is remembered of the last program, and the
record itself but for its variables. `Frame.Holds` gives the machine by its frame and by what can
change. A program and a call have frames of their own (`activate_ends`), and once a call is over the
machine is back in the frame of the caller (`Left.holds`).
-/

namespace LittleLang.Running

variable {α : Type} {F F' : Table Function} {M M' : Table Value} {m m' : Machine}

/-- What a step within one record leaves alone. -/
structure Frame where
  /-- The record on top of the stack, whose variables may change. -/
  record : Record
  rest : CallStack
  last : Option Record

/-- The machine is in the frame, with these functions and variables. -/
structure Frame.Holds (frame : Frame) (F : Table Function) (M : Table Value) (m : Machine) :
    Prop where
  functions : m.functions = F
  stack : m.stack = { frame.record with members := M } :: frame.rest
  last : m.lastProgram = frame.last

theorem Frame.exists_holds (h : m.stack ≠ []) :
    ∃ frame M, Frame.Holds frame m.functions M m := by
  cases hs : m.stack with
  | nil => exact absurd hs h
  | cons record rest => exact ⟨⟨record, rest, m.lastProgram⟩, record.members, rfl, hs, rfl⟩

namespace Frame.Holds

variable {frame : Frame}

theorem withLog (h : frame.Holds F M m) (log : Log) : frame.Holds F M { m with log } :=
  ⟨h.functions, h.stack, h.last⟩

theorem stack_eq (h : frame.Holds F M m) (h' : frame.Holds F' M m') : m'.stack = m.stack :=
  h'.stack.trans h.stack.symm

theorem shown_record (h : frame.Holds F M m) (hs : m.stack.Shown) :
    ({ frame.record with members := M } : Record).Shown := by
  rw [h.stack] at hs
  exact hs.head

theorem load (h : frame.Holds F M m) (name : Token) :
    Running.load name m = match M.get? name.text with
      | some v => .ok v m
      | none => .error (.failed (.runtime (.variableNotFound name.text) name)) m := by
  unfold Running.load
  simp only [bind_apply, get_apply, h.stack, List.head?_cons, Option.bind_some]
  cases M.get? name.text <;> rfl

theorem functionNamed (h : frame.Holds F M m) (name : Token) :
    Running.functionNamed name m = match F.get? name.text with
      | some f => .ok f m
      | none => .error (.failed (.runtime (.functionNotFound name.text) name)) m := by
  unfold Running.functionNamed
  simp only [bind_apply, get_apply, h.functions]
  cases F.get? name.text <;> rfl

/-- A value is stored in the record on top, and if it can be shown the stack still can. -/
theorem store (h : frame.Holds F M m) (name : String) (v : Value) :
    ∃ m', Running.store name v m = .ok () m' ∧ frame.Holds F (M.insert name v) m' ∧
      (m.stack.Shown → v.Shown → m'.stack.Shown) := by
  let record : Record := { frame.record with members := M }
  refine ⟨{ m with stack := record.set name v :: frame.rest }, ?_,
    ⟨h.functions, rfl, h.last⟩, fun hs hv => ?_⟩
  · unfold Running.store
    simp only [bind_apply, get_apply, h.stack, set_apply]
    rfl
  · rw [h.stack] at hs
    exact .cons (hs.head.set hv) hs.tail

end Frame.Holds

/-! ## Records that come and go -/

/-- The record is off the stack again, with these functions and variables at its end. -/
structure Left (record : Record) (m : Machine) (F : Table Function) (M : Table Value)
    (m' : Machine) : Prop where
  functions : m'.functions = F
  stack : m'.stack = m.stack
  last : m'.lastProgram = remembered { record with members := M } m.lastProgram

theorem Frame.Holds.leave {record : Record}
    (h : Frame.Holds ⟨record, m.stack, m.lastProgram⟩ F M m') :
    ∃ m'', Left record m F M m'' ∧ (Running.leave m' = .ok () m'' ∨
      ¬({ record with members := M } : Record).Shown ∧
        Running.leave m' = .error (.failed (.number .tooLongToWrite)) m'') := by
  obtain ⟨log, hl⟩ := leave_cases h.stack
  refine ⟨_, ?_, hl⟩
  exact ⟨h.functions, rfl, congrArg (remembered _) h.last⟩

/-- A body is carried out in a frame of its own, which is left at the end. The record can be shown
then, or the body has failed for a value that cannot be: either way all ends like the body. -/
theorem activate_ends {record : Record} (hr : record.Shown) (hs : m.stack.Shown) :
    ∃ m₁, enter record m = .ok () m₁ ∧
      Frame.Holds ⟨record, m.stack, m.lastProgram⟩ m.functions record.members m₁ ∧
      m₁.stack.Shown ∧ ∀ body : Running Value,
        (∀ v m₂ F' M', body m₁ = .ok v m₂ ∨ body m₁ = .error (.returned v) m₂ →
          Frame.Holds ⟨record, m.stack, m.lastProgram⟩ F' M' m₂ → m₂.stack.Shown →
          ∃ m', activate record body m = .ok v m' ∧ Left record m F' M' m') ∧
        ∀ e m₂ F' M', body m₁ = .error (.failed e) m₂ →
          Frame.Holds ⟨record, m.stack, m.lastProgram⟩ F' M' m₂ →
          (e ≠ .number .tooLongToWrite → m₂.stack.Shown) →
          ∃ m', activate record body m = .error (.failed e) m' ∧ Left record m F' M' m' := by
  obtain ⟨t, -, henter⟩ := enter_shown hr hs
  refine ⟨(m.push record).dump t, henter, ⟨rfl, rfl, rfl⟩, .cons hr hs,
    fun body => ⟨?_, ?_⟩⟩
  · intro v m₂ F' M' hbody h₂ hs₂
    obtain ⟨m', hm', hl⟩ := h₂.leave
    have hl := hl.resolve_right fun hl => hl.1 (h₂.shown_record hs₂)
    refine ⟨m', ?_, hm'⟩
    rw [activate_of_enter henter]
    rcases hbody with hbody | hbody
    · simp only [hbody, bind_apply, hl]
      rfl
    · simp only [hbody, bind_apply, hl]
      rfl
  · intro e m₂ F' M' hbody h₂ hs₂
    obtain ⟨m', hm', hl⟩ := h₂.leave
    refine ⟨m', ?_, hm'⟩
    rw [activate_of_enter henter]
    rcases hl with hl | ⟨hshown, hl⟩
    · simp only [hbody, bind_apply, hl]
      rfl
    · have he : e = .number .tooLongToWrite := Classical.byContradiction fun he =>
        hshown (h₂.shown_record (hs₂ he))
      simp only [hbody, bind_apply, hl, he]

theorem Left.holds {record : Record} {frame : Frame} (hl : Left record m F' M' m')
    (hk : record.kind = .function) (h : frame.Holds F M m) : frame.Holds F' M m' := by
  refine ⟨hl.functions, hl.stack.trans h.stack, hl.last.trans ?_⟩
  simp [remembered, hk, h.last]

/-! ## Calls -/

/-- The variables of a call: its parameters with their values. -/
def bound (parameters : List Parameter) (values : List Value) : Table Value :=
  (parameters.zip values).foldl (fun t (p, v) => t.insert p.name.text v) {}

theorem callRecord_eq (name : Token) (f : Function) (values : List Value) (level : Nat) :
    callRecord name f values level =
      { kind := .function, name := name.text, level, members := bound f.parameters values } := by
  unfold callRecord bound
  generalize f.parameters.zip values = pairs
  have hfold (t : Table Value) :
      pairs.foldl (fun (record : Record) (p, v) => record.set p.name.text v)
          { kind := .function, name := name.text, level, members := t } =
        { kind := .function, name := name.text, level,
          members := pairs.foldl (fun t (p, v) => t.insert p.name.text v) t } := by
    induction pairs generalizing t with
    | nil => rfl
    | cons pair pairs ih => exact ih _
  exact hfold {}

theorem contains_bound {parameters : List Parameter} {values : List Value}
    (h : values.length = parameters.length) {p : Parameter} (hp : p ∈ parameters) :
    (bound parameters values).contains p.name.text = true := by
  have hfold {pairs : List (Parameter × Value)} {t : Table Value} {x : String}
      (hx : t.contains x = true ∨ x ∈ pairs.map (·.1.name.text)) :
      (pairs.foldl (fun t (p, v) => t.insert p.name.text v) t).contains x = true := by
    induction pairs generalizing t with
    | nil => exact hx.resolve_right nofun
    | cons pair pairs ih =>
      refine ih ?_
      rw [Table.contains_insert]
      simp only [List.map_cons, List.mem_cons] at hx
      grind
  refine hfold (.inr ?_)
  have hzip : (parameters.zip values).map Prod.fst = parameters :=
    List.map_fst_zip (Nat.le_of_eq h.symm)
  rw [← hzip] at hp
  obtain ⟨pair, hpair, rfl⟩ := List.mem_map.mp hp
  exact List.mem_map.mpr ⟨pair, hpair, rfl⟩

end LittleLang.Running
