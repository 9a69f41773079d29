import LittleLang.Proofs.Run.Balance
import LittleLang.Proofs.Verbosity

/-!
# A machine forgets

What a machine was asked for before, in whatever way that ended, has no bearing on the next run of
a program: its outcome, its messages and what it leaves behind are those of a new machine
(`interpret_forgets`). A run starts without functions and drops what is remembered of the last
program; that it starts from an empty stack is due to all walks before, which have put the stack
back. So the two machines differ in their logs alone, and of a log only the level is ever asked for.
-/

namespace LittleLang

/-! ## Messages of a run -/

namespace Log

/-- Writes messages one after another. -/
def writeAll (log : Log) (messages : List Entry) : Log :=
  messages.foldl (fun log message => log.write message.level message.text) log

theorem level_writeAll (log : Log) (messages : List Entry) :
    (log.writeAll messages).level = log.level := by
  induction messages generalizing log with
  | nil => rfl
  | cons message rest ih => exact (ih _).trans level_write

/-- The same messages have been written to two logs, and both show all of them. -/
def Gained (before before' log log' : Log) : Prop :=
  ∃ messages : List Entry, (∀ message ∈ messages, message.level ≤ before.level) ∧
    log = before.writeAll messages ∧ log' = before'.writeAll messages

theorem gained_nil (log log' : Log) : Gained log log' log log' :=
  ⟨[], by simp, rfl, rfl⟩

theorem tied_gained {before before' : Log} (h : before.level = before'.level) :
    Tied (Gained before before') := by
  refine ⟨fun log log' level text _ hlog => ?_, fun hlog => ?_⟩
  · obtain ⟨messages, hshown, rfl, rfl⟩ := hlog
    by_cases hlevel : level ≤ before.level
    · refine ⟨messages ++ [⟨level, text⟩], ?_, ?_, ?_⟩
      · simpa [or_imp, forall_and] using ⟨hshown, hlevel⟩
      · simp [writeAll]
      · simp [writeAll]
    · -- neither log shows the message
      have hdrop {log : Log} (hl : log.level = before.level) : log.write level text = log := by
        simp [write, enabled, hl, hlevel]
      rw [hdrop (level_writeAll ..), hdrop ((level_writeAll ..).trans h.symm)]
      exact ⟨messages, hshown, rfl, rfl⟩
  · obtain ⟨messages, -, rfl, rfl⟩ := hlog
    rw [level_writeAll, level_writeAll, h]

theorem tied_level (level : Int) : Tied fun log log' => log = log' ∧ log.level = level :=
  ⟨fun _ _ _ _ _ h => ⟨h.1 ▸ rfl, level_write.trans h.2⟩, fun h => congrArg Log.level h.1⟩

end Log

namespace Machine

open Running

/-! ## Requests -/

theorem layer_eq (n n' : Node) (h : n = n') : Node.Layer .identity Eq Eq Eq n n' :=
  h ▸ .self (fun _ _ => rfl) (fun _ _ => rfl) (fun _ _ => rfl) fun _ _ _ _ => rfl

theorem level_serveBy (m : Machine) (depth : Nat) (request : Request) :
    (m.serveBy (Running.execute depth) (Running.evaluate depth) request).2.log.level =
      m.log.level := by
  have hL := Log.tied_level m.log.level
  obtain ⟨hex, hev⟩ := like_walk hL.lasting layer_eq depth
  have hself (F : Table Function) : Settled .identity Eq
      (fun log log' => log = log' ∧ log.level = m.log.level) { m with functions := F }
      { m with functions := F } :=
    ⟨⟨rfl, List.forall₂_same.mpr fun _ _ => ⟨rfl, List.forall₂_same.mpr fun _ _ => ⟨rfl, rfl⟩, rfl⟩,
      rfl, rfl, rfl⟩, .inl hL⟩
  cases request with
  | interpret tree => exact (like_perform (hex tree tree rfl) (hself {})).2.log.2
  | execute tree => exact (like_perform (hex tree tree rfl) (hself m.functions)).2.log.2
  | evaluate tree => exact (like_perform (hev tree tree rfl) (hself m.functions)).2.log.2

theorem level_serveAll (m : Machine) (depth : Nat) (requests : List Request) :
    (m.serveAll depth requests).2.log.level = m.log.level := by
  unfold serveAll
  induction requests generalizing m with
  | nil => rfl
  | cons request rest ih => exact (ih _).trans (level_serveBy m depth request)

/-! ## The next run -/

/-- Machines with empty stacks and logs of one level run a program alike. -/
theorem interpretWithin_of_nil {m m' : Machine} (hm : m.stack = []) (hm' : m'.stack = [])
    (hlevel : m.log.level = m'.log.level) {depth : Nat} (hdepth : 0 < depth) (name : String)
    (block : Node) :
    (m.interpretWithin depth (.program name block)).1 =
        (m'.interpretWithin depth (.program name block)).1 ∧
      Machines .identity Eq (Log.Gained m.log m'.log)
        (m.interpretWithin depth (.program name block)).2
        (m'.interpretWithin depth (.program name block)).2 := by
  obtain ⟨depth, rfl⟩ := Nat.exists_eq_succ_of_ne_zero (Nat.ne_of_gt hdepth)
  have hL := Log.tied_gained hlevel
  have hwalk := (like_walk hL.lasting layer_eq (depth + 1)).1 (.program name block) _ rfl
  -- The program drops what is remembered, so it might as well have been dropped before.
  have hdrop (m : Machine) : m.interpretWithin (depth + 1) (.program name block) =
      { m with lastProgram := none, functions := {} }.perform
        (Running.execute (depth + 1) (.program name block)) := by
    unfold interpretWithin perform
    rw [execute_succ]
    rfl
  rw [hdrop, hdrop]
  have hsettled : Settled .identity Eq (Log.Gained m.log m'.log)
      { m with lastProgram := none, functions := {} }
      { m' with lastProgram := none, functions := {} } :=
    ⟨⟨hm.trans hm'.symm, Table.aligned_empty, rfl, Log.gained_nil _ _⟩, .inl hL⟩
  obtain ⟨hresult, hmachines⟩ := like_perform hwalk hsettled
  exact ⟨hresult.eq, hmachines⟩

/-- After any requests, the run of a program goes as on a new machine whose log has the same level:
it has the same outcome, it leaves the same functions, the same stack and the same record of the
program, and it writes the same messages. -/
theorem interpret_forgets (log log' : Log) (hlevel : log.level = log'.level) (depth depth' : Nat)
    (hdepth : 0 < depth') (requests : List Request) (name : String) (block : Node) :
    let used := ((start log).serveAll depth requests).2
    let next := used.interpretWithin depth' (.program name block)
    let fresh := (start log').interpretWithin depth' (.program name block)
    next.1 = fresh.1 ∧ next.2.functions = fresh.2.functions ∧ next.2.stack = fresh.2.stack ∧
      next.2.lastProgram = fresh.2.lastProgram ∧
      ∃ messages : List Entry, (∀ message ∈ messages, message.level ≤ log.level) ∧
        next.2.log = used.log.writeAll messages ∧ fresh.2.log = log'.writeAll messages := by
  intro used next fresh
  have hpass : Monitor.Passes fun _ r => r := fun _ _ _ => rfl
  have hused : used.stack = [] := (serveAll_of_nil hpass rfl depth requests).1
  have hkept : used.log.level = log.level := level_serveAll (start log) depth requests
  have hfresh : (start log').stack = [] := rfl
  obtain ⟨hresult, hm⟩ := interpretWithin_of_nil hused hfresh (hkept.trans hlevel) hdepth name block
  have hfunctions : next.2.functions = fresh.2.functions :=
    Table.Aligned.eq (hm.functions.imp fun _ _ he =>
      ⟨he.1, congrArg₂ Function.mk (Likeness.Parameters.eq he.2.parameters) he.2.body⟩)
  obtain ⟨messages, hshown, hlog, hlog'⟩ := hm.log
  rw [hkept] at hshown
  exact ⟨hresult, hfunctions, hm.stack, hm.lastProgram, messages, hshown, hlog, hlog'⟩

/-- A return from nowhere and a node of no form come first, and then a program that returns `7`. -/
theorem interpret_forgets_failures :
    let program : Node := .program "main" (.compound [.ret (.intLiteral ⟨.intLiteral, "7", 1, 8⟩)])
    let used := ((start (.start 1 true)).serveAll 9
      [.execute (.ret (.boolLiteral ⟨.kwTrue, "true", 1, 1⟩)), .interpret (.program "bad" .bare)])
    used.1 = [.error .strayReturn, .error (.unknownForm .evaluation (some "Node"))] ∧
      used.2.lastProgram.isSome = true ∧
      (used.2.interpretWithin 9 program).1 = .ok (.int 7) ∧
      (used.2.interpretWithin 9 program).1 =
        ((start (.start 1 false)).interpretWithin 9 program).1 := by
  intro program used
  have h := interpret_forgets (.start 1 true) (.start 1 false) rfl 9 9 (by decide)
    [.execute (.ret (.boolLiteral ⟨.kwTrue, "true", 1, 1⟩)), .interpret (.program "bad" .bare)]
    "main" (.compound [.ret (.intLiteral ⟨.intLiteral, "7", 1, 8⟩)])
  exact ⟨by rfl, by rfl, by rfl, h.1⟩

end Machine

end LittleLang
