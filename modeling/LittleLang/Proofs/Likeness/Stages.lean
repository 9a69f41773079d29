import LittleLang.Proofs.Likeness.Analysis
import LittleLang.Proofs.Likeness.Parsing
import LittleLang.Proofs.Likeness.Run
import LittleLang.Run

/-!
# Stage by stage

The likeness of two texts, carried through the stages of `runWithin`: streams that are alike give
trees that are alike (`like_parseWithin`), and with these both walks come to outcomes that are
alike, with the same messages in their logs (`like_runWithin`).
-/

namespace LittleLang

variable {l : Likeness} {L : Log → Log → Prop} {log log' : Log}
  {text text' : String} {tree tree' : Node}

theorem like_parseWithin {reuse : Parsing.Reuse} (hr : Parsing.Respects l reuse) {s s' : Stream}
    (h : Stream.ofText text = .ok s) (h' : Stream.ofText text' = .ok s') (hs : l.Streams s s')
    (depth : Nat) :
    l.Outcomes l.Trees (parseWithin reuse depth text) (parseWithin reuse depth text') := by
  unfold parseWithin
  rw [h, h']
  have halike := Parsing.like_program hr depth hs [] [] .nil
  dsimp only
  generalize Parsing.program reuse depth s [] = r at halike
  generalize Parsing.program reuse depth s' [] = r' at halike
  cases halike with
  | ok hn _ => exact .ok hn
  | error he => exact .error he.1

theorem like_analyzeWithin (hL : Log.Lasting L) (hlog : L log log') (hn : l.Trees tree tree')
    (depth : Nat) :
    l.Outcomes Eq (analyzeWithin depth log tree).1 (analyzeWithin depth log' tree').1 ∧
      L (analyzeWithin depth log tree).2 (analyzeWithin depth log' tree').2 := by
  unfold analyzeWithin Analysis.analyzeWithin Analysis.start
  have halike := Analyzing.like_visit hL depth hn none
    { log, keep := false } { log := log', keep := false } ⟨rfl, rfl, rfl, rfl, hlog⟩
  dsimp only
  generalize Analyzing.visit depth tree none _ = r at halike
  generalize Analyzing.visit depth tree' none _ = r' at halike
  cases halike with
  | ok _ hs => exact ⟨.ok rfl, hs.log⟩
  | error he => exact ⟨.error he.1, he.2.log⟩

theorem like_interpretWithin (hL : Log.Lasting L) (hlog : L log log')
    (hn : l.Trees tree tree') (depth : Nat) :
    l.Outcomes Eq (interpretWithin depth log tree).1 (interpretWithin depth log' tree').1 ∧
      L (interpretWithin depth log tree).2 (interpretWithin depth log' tree').2 := by
  have hsettled : Running.Settled l l.Trees L (.start log) (.start log') :=
    ⟨⟨rfl, Table.aligned_empty, rfl, hlog⟩, .inr fun _ hr => by cases hr⟩
  have hwalk := (Running.like_walk hL (fun _ _ h => h.layer) depth).1 tree tree' hn
  obtain ⟨hresult, hm⟩ := Running.like_perform hwalk hsettled
  exact ⟨hresult, hm.log⟩

theorem runWithin_of_error {depth : Nat} {e : Failure}
    (h : parseWithin .byOffset depth text = .error e) :
    runWithin depth log text = (.error e, log) := by
  unfold runWithin
  rw [h]

theorem like_runWithin {depth : Nat} (hL : Log.Lasting L) (hlog : L log log')
    (h : parseWithin .byOffset depth text = .ok tree)
    (h' : parseWithin .byOffset depth text' = .ok tree') (hn : l.Trees tree tree') :
    l.Outcomes Eq (runWithin depth log text).1 (runWithin depth log' text').1 ∧
      L (runWithin depth log text).2 (runWithin depth log' text').2 := by
  unfold runWithin
  rw [h, h']
  obtain ⟨hresult, hlog⟩ := like_analyzeWithin hL hlog hn depth
  dsimp only
  generalize analyzeWithin depth log tree = r at hresult hlog
  generalize analyzeWithin depth log' tree' = r' at hresult hlog
  obtain ⟨result, log⟩ := r
  obtain ⟨result', log'⟩ := r'
  cases hresult with
  | ok _ => exact like_interpretWithin hL hlog hn depth
  | error he => exact ⟨.error he, hlog⟩

def failure? : Except Failure Value → Option Failure
  | .ok _ => none
  | .error e => some e

theorem eq_of_failure? {r : Except Failure Value} {e : Failure} (h : failure? r = some e) :
    r = .error e := by
  cases r with
  | ok v => cases h
  | error e' => exact congrArg Except.error (Option.some.inj h)

end LittleLang
