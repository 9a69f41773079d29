import LittleLang.Proofs.Acceptance
import LittleLang.Proofs.Analysis.Objections
import LittleLang.Proofs.Run.Steady
import LittleLang.Proofs.Shape
import LittleLang.Run

/-!
# How a text can end

Whatever text is run, it ends in a value or with a failure that says something about the text
(`ends_runWithin`). The failures that stand for a fault of the program itself do not occur: a form
of node that a walk does not know, a literal that cannot be read, a scope or a record that is not
there, a return with nothing to return to. That holds even where the analysis had an objection and
the tree is run all the same.

The trees of the parser have the shape that the walks rely on; the machine keeps the bodies of
declared functions in that shape. -/

namespace LittleLang

/-- The failures that a text can lead to. -/
inductive Foreseen : Failure → Prop where
  | lexical (e : LexicalError) : Foreseen (.lexical e)
  | unexpected (token : Token) : Foreseen (.unexpected token)
  | semantic (cause : SemanticCause) (token : Token) : Foreseen (.semantic cause token)
  | runtime (cause : RuntimeCause) (token : Option Token) : Foreseen (.runtime cause token)
  | tooLongToRead (digits : Nat) : Foreseen (.number (.tooLongToRead digits))
  | tooLongToWrite : Foreseen (.number .tooLongToWrite)
  | beyondFloat : Foreseen (.number .beyondFloat)
  | tooDeep : Foreseen .tooDeep

/-- A value, or a failure that a text can lead to. -/
inductive Ends : Except Failure Value → Prop where
  | value (v : Value) : Ends (.ok v)
  | failure {e : Failure} : Foreseen e → Ends (.error e)

/-! ## Nodes of the right shape -/

theorem Executable.of_executed {node : Node} (h : Executable node) :
    ∀ n ∈ Running.executed node, Executable n := by
  cases h with
  | compound hs => exact hs
  | branch _ _ ht hf => simpa [Running.executed] using ⟨ht, hf⟩
  | expression h => cases h <;> simp [Running.executed]
  | _ => simp [Running.executed]

theorem Executable.of_evaluated {node : Node} (h : Executable node) :
    ∀ n ∈ Running.evaluated node, Evaluable n := by
  cases h with
  | assign _ _ _ hv => simpa [Running.evaluated] using hv
  | branch _ hc => simpa [Running.evaluated] using hc
  | ret hv => simpa [Running.evaluated] using hv
  | expression h =>
    have hself : Running.evaluated node = [node] := by cases h <;> rfl
    simpa [hself] using h
  | _ => simp [Running.evaluated]

theorem Executable.body {name : Token} {parameters : List Parameter} {body : Node}
    (h : Executable (.function name parameters body)) : Executable body := by
  cases h with
  | function _ _ hb => exact hb
  | expression h => cases h

theorem Evaluable.of_operands {node : Node} (h : Evaluable node) :
    ∀ n ∈ Running.operands node, Evaluable n := by
  cases h with
  | unary _ hv => simpa [Running.operands] using hv
  | binary _ hl hr => simpa [Running.operands] using ⟨hl, hr⟩
  | call _ hargs => exact hargs
  | _ => simp [Running.operands]

theorem Executable.of_operands {node : Node} (h : Executable node) :
    ∀ n ∈ Running.operands node, Evaluable n := by
  cases h with
  | expression h => exact h.of_operands
  | _ => simp [Running.operands]

/-- What can be wrong with an expression itself is the length of an integer. -/
theorem Evaluable.foreseen {node : Node} (h : Evaluable node) {e : Failure}
    (he : Running.ownFailure? node = some e) : Foreseen e := by
  cases h with
  | @int t hread =>
    cases hr : Number.readInt t.text with
    | ok n => simp [Running.ownFailure?, hr, Running.ownFailure?.failure?] at he
    | error fault =>
      obtain ⟨digits, rfl⟩ := hread fault hr
      simp only [Running.ownFailure?, hr, Running.ownFailure?.failure?, Option.some.injEq] at he
      exact he ▸ .tooLongToRead digits
  | float hread =>
    obtain ⟨x, hr⟩ := hread
    simp [Running.ownFailure?, hr, Running.ownFailure?.failure?] at he
  | bool hread =>
    obtain ⟨b, hr⟩ := hread
    simp [Running.ownFailure?, hr, Running.ownFailure?.failure?] at he
  | _ => cases he

namespace Running

/-! ## Runs -/

theorem nodes_shaped : Nodes (fun _ f => Executable f.body) Foreseen Executable Evaluable where
  runtime := .runtime
  tooLong := .tooLongToWrite
  beyondFloat := .beyondFloat
  tooDeep := .tooDeep
  own h he := h.foreseen he
  statement h := .self (fun c hc => ⟨rfl, h.of_executed c hc⟩)
    (fun c hc => ⟨rfl, h.of_evaluated c hc⟩) (fun c hc => ⟨rfl, h.of_operands c hc⟩)
    fun _ _ _ _ => rfl
  expression h := .self (fun _ _ => trivial)
    (fun c hc => ⟨rfl, Executable.of_evaluated (.expression h) c hc⟩)
    (fun c hc => ⟨rfl, h.of_operands c hc⟩) fun _ _ _ _ => trivial
  self {n} h hself := h.of_evaluated n (by simp [hself])
  declared h := h.body
  body h := h
  inner h := by
    cases h with
    | expression h => cases h

theorem enter_ne_returned (record : Record) (m : Machine) (v : Value) (m' : Machine) :
    enter record m ≠ .error (.returned v) m' := by
  rw [enter_eq]
  split
  · exact nofun
  · split
    · exact nofun
    · exact nofun

theorem leave_ne_returned (m : Machine) (v : Value) (m' : Machine) :
    leave m ≠ .error (.returned v) m' := by
  cases hs : m.stack with
  | nil =>
    rw [leave_nil hs]
    exact nofun
  | cons record rest =>
    obtain ⟨_, hl | ⟨-, hl⟩⟩ := leave_cases hs
    · rw [hl]
      exact nofun
    · rw [hl]
      exact nofun

/-- A return goes no further than to the record that it leaves. -/
theorem activate_ne_returned (record : Record) (body : Running Value) (m : Machine) (v : Value)
    (m' : Machine) : activate record body m ≠ .error (.returned v) m' := by
  have hleave {m₁ : Machine} {next : Running Value} (hn : ∀ m, next m ≠ .error (.returned v) m') :
      (do leave; next : Running Value) m₁ ≠ .error (.returned v) m' := by
    intro h
    rw [bind_apply] at h
    cases hl : leave m₁ with
    | ok _ m₂ =>
      rw [hl] at h
      exact hn m₂ h
    | error e m₂ =>
      rw [hl] at h
      cases h
      exact leave_ne_returned _ _ _ hl
  cases henter : enter record m with
  | error e m₁ =>
    intro h
    have h := (bind_apply _ _ m).symm.trans h
    rw [henter] at h
    cases h
    exact enter_ne_returned _ _ _ _ henter
  | ok _ m₁ =>
    rw [activate_of_enter henter]
    match body m₁ with
    | .ok v' m₂ => exact hleave fun m h => by cases h
    | .error (.returned v') m₂ => exact hleave fun m h => by cases h
    | .error (.failed e) m₂ => exact hleave fun m h => by cases h

end Running

/-! ## Programs -/

theorem Machine.ends_interpretWithin {m : Machine} {depth : Nat} {name : String} {block : Node}
    (h : Executable block) (hm : m.stack = []) :
    Ends (m.interpretWithin depth (.program name block)).1 := by
  cases depth with
  | zero => exact .failure .tooDeep
  | succ depth =>
    let start : Machine := { m with functions := {} }
    have hrun : Running.execute (depth + 1) (.program name block) start =
        Running.start name (Running.execute depth block) start := by
      rw [Running.execute_succ]
      rfl
    have hshown : start.stack.Shown := by
      rw [show start.stack = [] from hm]
      exact fun _ hr => by cases hr
    have hwalk := ((Running.nodes_shaped.laws Running.kept_true).under (fun _ r => r)
      (fun _ _ _ _ _ _ => rfl) depth).1
    have hended := Running.ended_start (m := start) (I := fun _ => True) name
      Running.nodes_shaped.tooLong hshown (fun _ _ hf => by cases hf)
      (Running.Encloses.inner ⟨fun _ => trivial, fun _ _ => trivial⟩)
      fun base => Running.Contract.weaken (hwalk () base block h) fun _ _ => trivial
    rw [← hrun] at hended
    unfold interpretWithin perform
    cases hr : Running.execute (depth + 1) (.program name block) start with
    | ok v m' => exact .value v
    | error stop m' =>
      cases stop with
      | returned v => exact absurd (hrun.symm.trans hr) (Running.activate_ne_returned _ _ _ _ _)
      | failed e =>
        rw [hr] at hended
        exact .failure hended.failed

theorem ends_interpretWithin {depth : Nat} {log : Log} {name : String} {block : Node}
    (h : Executable block) : Ends (interpretWithin depth log (.program name block)).1 :=
  Machine.ends_interpretWithin h rfl

/-! ## Texts -/

theorem foreseen_of_parseWithin {text : String} {depth : Nat} {e : Failure}
    (h : parseWithin .byOffset depth text = .error e) : Foreseen e := by
  cases failsBelow_byOffset h with
  | lexical e => exact .lexical e
  | unexpected t => exact .unexpected t
  | tooDeep => exact .tooDeep

theorem shaped_of_parseWithin {text : String} {depth : Nat} {tree : Node}
    (h : parseWithin .byOffset depth text = .ok tree) :
    ∃ block, tree = .program "main" block ∧ Executable block :=
  shaped_program (derivable_of_parseWithin h).2 (allSpelled_tokenize text)

theorem foreseen_of_analyzeWithin {depth : Nat} {log : Log} {name : String} {block : Node}
    {e : Failure} (h : Executable block)
    (he : (analyzeWithin depth log (.program name block)).1 = .error e) : Foreseen e := by
  cases Analysis.objection_of_analyzeWithin h he with
  | semantic cause token => exact .semantic cause token
  | tooDeep => exact .tooDeep

theorem Ends.runWithin (depth : Nat) (log : Log) (source : String) :
    Ends (runWithin depth log source).1 := by
  unfold LittleLang.runWithin
  cases hp : parseWithin .byOffset depth source with
  | error e => exact .failure (foreseen_of_parseWithin hp)
  | ok tree =>
    obtain ⟨block, rfl, hblock⟩ := shaped_of_parseWithin hp
    rcases ha : analyzeWithin depth log (.program "main" block) with ⟨result, log'⟩
    dsimp only
    rw [ha]
    cases result with
    | error e => exact .failure (foreseen_of_analyzeWithin hblock (congrArg Prod.fst ha))
    | ok _ => exact ends_interpretWithin hblock

end LittleLang
