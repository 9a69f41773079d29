import LittleLang.Proofs.Run.Steady

/-!
# The stack is balanced

Every call of a walk, at any depth and however it ends, leaves the stack with the records it found,
and below the top with their variables (`serveAll_balanced`). It is said by means of monitors: one
that passes each balanced call on as it is, and may do anything else with any other, changes no run.
Since it may leave a mark in the log at any other call, there is no such call. The nodes of the tree
may be any. -/

namespace LittleLang

namespace Running

variable {α : Type}

/-- The monitor passes on a call that leaves the stack balanced. -/
def Monitor.Passes (monitor : Monitor) : Prop :=
  ∀ m r, m.stack.Balanced (after r).stack → monitor m r = r

/-- Steady steps with nothing to rely on but the stack. -/
abbrev balancing (base : CallStack) : Contract :=
  steady (fun _ _ => True) (fun _ => True) (fun _ => True) base

theorem laws_all : Laws (fun _ _ => True) (fun _ => True) (fun (_ : Unit) _ => True)
    (fun _ _ => True) fun _ => True where
  statement _ := .self (fun _ _ => ⟨rfl, trivial⟩) (fun _ _ => ⟨rfl, trivial⟩)
    (fun _ _ => ⟨rfl, trivial⟩) fun _ _ _ _ => rfl
  expression _ := .self (fun _ _ => trivial) (fun _ _ => ⟨rfl, trivial⟩)
    (fun _ _ => ⟨rfl, trivial⟩) fun _ _ _ _ => trivial
  self _ _ := trivial
  runtime _ _ := trivial
  tooLong := trivial
  beyondFloat := trivial
  tooDeep := trivial
  own _ _ := trivial
  remark _ _ _ := trivial
  noRecord _ _ _ _ := trivial
  store _ _ _ _ _ _ _ := trivial
  declared _ := trivial
  declare _ _ _ _ := trivial
  enterCall _ _ _ := ⟨(), trivial, fun _ => ⟨fun _ => trivial, fun _ _ => trivial⟩⟩
  enterProgram _ _ _ := ⟨(), trivial, fun _ => trivial, fun _ _ => trivial⟩

theorem balancing_walk {monitor : Monitor} (hm : monitor.Passes) (depth : Nat) (base : CallStack)
    (node : Node) :
    (balancing base).Holds (execute depth node) (executeUnder monitor depth node)
        (Contract.Gets node) ∧
      (balancing base).Holds (evaluate depth node) (evaluateUnder monitor depth node)
        fun _ => True := by
  obtain ⟨hex, hev⟩ := laws_all.under monitor (fun _ m r _ hb _ => hm m r hb) depth
  exact ⟨hex () base node trivial, hev () base node trivial⟩

end Running

/-! ## Requests to a machine -/

/-- What a machine is asked for. -/
inductive Request where
  | interpret (tree : Node)
  | execute (tree : Node)
  | evaluate (tree : Node)

namespace Machine

open Running

def serveBy (execute evaluate : Node → Running Value) (m : Machine) :
    Request → Except Failure Value × Machine
  | .interpret tree => { m with functions := {} }.perform (execute tree)
  | .execute tree => m.perform (execute tree)
  | .evaluate tree => m.perform (evaluate tree)

/-- Serves requests one after another: their results, and the machine after them. -/
def serveAllBy (execute evaluate : Node → Running Value) (m : Machine) :
    List Request → List (Except Failure Value) × Machine
  | [] => ([], m)
  | request :: rest =>
    let (result, m) := m.serveBy execute evaluate request
    let (results, m) := serveAllBy execute evaluate m rest
    (result :: results, m)

/-- Serves requests by walks to a depth. -/
def serveAll (depth : Nat) : Machine → List Request → List (Except Failure Value) × Machine :=
  serveAllBy (Running.execute depth) (Running.evaluate depth)

/-- Serves requests by walks to a depth, with a monitor on each call of them. -/
def serveAllUnder (monitor : Monitor) (depth : Nat) :
    Machine → List Request → List (Except Failure Value) × Machine :=
  serveAllBy (executeUnder monitor depth) (evaluateUnder monitor depth)

section

variable {monitor : Monitor} {m : Machine}

/-- A step from an empty stack leaves an empty one, and its watched form does the same. -/
theorem perform_balanced {step step' : Running Value} {post : Value → Prop}
    (h : (balancing []).Holds step step' post) (hm : m.stack = []) :
    (m.perform step).2.stack = [] ∧ m.perform step' = m.perform step := by
  have hended : Ended _ _ _ [] post (step m) (step' m) :=
    h m m ⟨rfl, hm ▸ .nil, hm ▸ (fun _ hr => by cases hr), fun _ _ _ => trivial, trivial⟩
  obtain ⟨heq, hb, -⟩ := hended.same
  have hnil := hb.of_nil
  unfold perform
  rw [heq]
  refine ⟨?_, rfl⟩
  match hr : step m with
  | .ok v m' =>
    rw [hr] at hnil
    exact hnil
  | .error (.returned v) m' =>
    rw [hr] at hnil
    exact hnil
  | .error (.failed e) m' =>
    rw [hr] at hnil
    exact hnil

theorem serveBy_balanced (hp : monitor.Passes) (hm : m.stack = []) (depth : Nat)
    (request : Request) :
    (m.serveBy (Running.execute depth) (Running.evaluate depth) request).2.stack = [] ∧
      m.serveBy (executeUnder monitor depth) (evaluateUnder monitor depth) request =
        m.serveBy (Running.execute depth) (Running.evaluate depth) request := by
  cases request with
  | interpret tree => exact perform_balanced (balancing_walk hp depth [] tree).1 hm
  | execute tree => exact perform_balanced (balancing_walk hp depth [] tree).1 hm
  | evaluate tree => exact perform_balanced (balancing_walk hp depth [] tree).2 hm

theorem serveAll_of_nil (hp : monitor.Passes) (hm : m.stack = []) (depth : Nat)
    (requests : List Request) :
    (m.serveAll depth requests).2.stack = [] ∧
      m.serveAllUnder monitor depth requests = m.serveAll depth requests := by
  unfold serveAll serveAllUnder
  induction requests generalizing m with
  | nil => exact ⟨hm, rfl⟩
  | cons request rest ih =>
    obtain ⟨hnil, heq⟩ := serveBy_balanced hp hm depth request
    obtain ⟨hnil', heq'⟩ := ih hnil
    simp only [serveAllBy, heq, heq']
    exact ⟨hnil', trivial⟩

end

/-- Requests are served from an empty stack to an empty stack. On the way every call of a walk, at
any depth and however it ends, leaves the stack balanced: a monitor on all calls that passes the
balanced ones on, whatever it does with others, changes neither a result nor the machine. -/
theorem serveAll_balanced (m : Machine) (depth : Nat) (requests : List Request) :
    ({ m with stack := [] }.serveAll depth requests).2.stack = [] ∧
      ∀ monitor : Monitor, monitor.Passes →
        { m with stack := [] }.serveAllUnder monitor depth requests =
          { m with stack := [] }.serveAll depth requests := by
  have hpass : Monitor.Passes fun _ r => r := fun _ _ _ => rfl
  exact ⟨(serveAll_of_nil hpass rfl depth requests).1,
    fun _ hp => (serveAll_of_nil hp rfl depth requests).2⟩

end Machine

end LittleLang
