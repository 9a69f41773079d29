import LittleLang.Proofs.Run.Frames
import LittleLang.Proofs.Run.Moments
import LittleLang.Proofs.Run.Trace
import LittleLang.Proofs.Shape

/-!
# The log mirrors the stack

At every moment of a run the messages of the run trace the stack, and at its end, however that comes
about, they trace an empty one (`runWithin_traced`). The one step that could break this is the
showing of the stack after a record has come on top. A run only gets there with a stack that can be
shown, on which steady steps rely (`kept_mirrors`). -/

namespace LittleLang

namespace Running

variable {before : List Entry} {m : Machine}

/-- The record of a call comes on top of others, all of which are shown then. -/
theorem encloses_mirrors {name : Token} {f : Function} {values : List Value}
    (h : Mirrors before m) (hne : m.stack ≠ []) :
    Encloses (Mirrors before) (Mirrors before) m
      (callRecord name f values (m.stack.length + 1)) where
  enter {dump} hd := by
    rw [callRecord_eq] at hd ⊢
    have hopened : m.stack.headings ≠ [] := fun hnil => hne (List.map_eq_nil_iff.mp hnil)
    exact h.push rfl hd fun _ _ htrace hshows => htrace.call hopened rfl hshows
  leave h' htop := h'.leave htop

theorem kept_mirrors (before : List Entry) : Kept (Mirrors before) where
  remark _ h hI := hI.write h.not_marks
  store m r rest name v hI hs := by
    refine hI.same rfl ?_ ?_
    · rw [hs]
      rfl
    · rw [hs]
      rfl
  declare _ _ _ hI := hI.same rfl rfl rfl
  call _ _ _ _ hI hne := encloses_mirrors hI hne

/-! ## Whole runs -/

theorem mirrors_start {log : Log} (hl : 1 ≤ log.level) (h : log.InOnePlace) :
    Mirrors log.written (Machine.start log) :=
  ⟨hl, h, rfl, [], (List.append_nil _).symm, .nil⟩

theorem encloses_mirrors_program {log : Log} (h : Mirrors log.written (Machine.start log)) :
    Encloses (Mirrors log.written) (Mirrors log.written)
      { Machine.start log with lastProgram := none }
      { kind := .program, name := "main", level := 1 } where
  enter hd := by
    refine h.push rfl hd fun trace hwritten _ hshows => ?_
    obtain rfl : trace = [] := List.self_eq_append_right.mp hwritten
    exact .program hshows
  leave h' htop := h'.leave htop

/-- The run of a program leaves a log whose messages trace an empty stack; and if it is watched
where they do not trace the stack, nothing is seen. -/
theorem mirrors_program {log : Log} (hl : 1 ≤ log.level) (h : log.InOnePlace) (depth : Nat)
    {parts : List Node} (hparts : ∀ n ∈ parts, n.IsPart fun _ => True) (seen : Node → Monitor)
    (hseen : ∀ n m r, Mirrors log.written m → seen n m r = r) :
    let step := execute depth (.program "main" (.compound parts))
    executeSeen seen depth (.program "main" (.compound parts)) (.start log) = step (.start log) ∧
      (after (step (.start log))).stack = [] ∧ Mirrors log.written (after (step (.start log))) := by
  have hstart := mirrors_start hl h
  cases depth with
  | zero => exact ⟨rfl, rfl, hstart⟩
  | succ depth =>
    have hended := ended_seen (kept_mirrors log.written) (.start log) depth hparts rfl
      (fun _ _ hf => by cases hf) (encloses_mirrors_program hstart)
      fun n m r _ _ _ hm _ => hseen n m r hm
    obtain ⟨heq, hbalanced, hmirrors⟩ := hended.same
    exact ⟨heq, hbalanced.of_nil, hmirrors⟩

end Running

/-- An analysis writes to a log where it wrote before, and leaves its level. -/
theorem analyzeWithin_log {log : Log} (h : log.InOnePlace) (depth : Nat) (tree : Node) :
    (analyzeWithin depth log tree).2.level = log.level ∧
      (analyzeWithin depth log tree).2.InOnePlace := by
  have hlasting : Log.Lasting fun log' _ => log'.level = log.level ∧ log'.InOnePlace :=
    fun _ _ _ _ _ h => ⟨Log.level_write.trans h.1, h.2.write⟩
  have htree : Likeness.identity.Trees tree tree := .refl (fun _ => rfl) tree
  exact (@like_analyzeWithin _ _ log log tree tree hlasting ⟨rfl, h⟩ htree depth).2

/-- The log when the run of a text starts, with what its analysis has written. A text that is
refused comes to no run. -/
def logBeforeRun (depth : Nat) (log : Log) (source : String) : Log :=
  match parseWithin .byOffset depth source with
  | .error _ => log
  | .ok tree => (analyzeWithin depth log tree).2

open Running in
/-- The messages of a run open and close records in a balanced way: the program first, and the
records of calls within it, each with a show of all records that are open then. At the end none is
open, also if the run has failed; and whenever an expression is evaluated, the open records are
those on the stack. -/
theorem runWithin_traced {level : Int} (h : 1 ≤ level) (depth : Nat) (wantsFile : Bool)
    (source : String) :
    (∃ trace, (runWithin depth (.start level wantsFile) source).2.written =
        (logBeforeRun depth (.start level wantsFile) source).written ++ trace ∧ Trace trace []) ∧
    ∀ tree node m, parseWithin .byOffset depth source = .ok tree →
      Evaluates (.start (logBeforeRun depth (.start level wantsFile) source)) depth tree node m →
      ∃ trace, m.log.written =
          (logBeforeRun depth (.start level wantsFile) source).written ++ trace ∧
        Trace trace m.stack.headings := by
  unfold logBeforeRun runWithin
  cases hparse : parseWithin .byOffset depth source with
  | error e => exact ⟨⟨[], (List.append_nil _).symm, .nil⟩, nofun⟩
  | ok tree =>
    have hanalysis := analyzeWithin_log (Log.inOnePlace_start level wantsFile) depth tree
    rw [Log.level_start] at hanalysis
    obtain ⟨parts, rfl, hparts⟩ := parts_of_parseWithin hparse
    have hparts : ∀ n ∈ parts, n.IsPart fun _ => True := fun n hn =>
      (hparts n hn).imp fun _ _ => trivial
    dsimp only
    generalize analyzeWithin depth (.start level wantsFile) (.program "main" (.compound parts)) =
      r at hanalysis ⊢
    obtain ⟨result, log⟩ := r
    obtain ⟨rfl, hplace⟩ := hanalysis
    refine ⟨?_, ?_⟩
    · cases result with
      | error e => exact ⟨[], (List.append_nil _).symm, .nil⟩
      | ok _ =>
        obtain ⟨-, hnil, hmirrors⟩ :=
          mirrors_program h hplace depth hparts (fun _ _ r => r) fun _ _ _ _ => rfl
        obtain ⟨trace, hwritten, htrace⟩ := hmirrors.traced
        rw [hnil] at htrace
        refine ⟨trace, ?_, htrace⟩
        show ((Machine.start log).perform _).2.log.written = _
        rw [snd_perform]
        exact hwritten
    · rintro _ node m ⟨⟩ hm
      exact (hm.of_passes (Q := fun _ m => Mirrors log.written m) fun seen hseen =>
        (mirrors_program h hplace depth hparts seen hseen).1).traced

/-- A call that fails in an argument of another. -/
theorem runWithin_traced_failing :
    let source := "func f(int n) { return 1 / n; } x := f(f(0));"
    (1 : Int) ≤ 1 ∧
      (runWithin 60 (.start 1 false) source).2.written.drop
        (logBeforeRun 60 (.start 1 false) source).written.length = [
          ⟨1, "ENTER: PROGRAM main"⟩, ⟨1, "CALL STACK\n1: PROGRAM main\n"⟩,
          ⟨1, "ENTER: FUNCTION f"⟩,
          ⟨1, "CALL STACK\n2: FUNCTION f\n    n                   : 0\n1: PROGRAM main\n"⟩,
          ⟨1, "LEAVE: FUNCTION f"⟩, ⟨1, "2: FUNCTION f\n    n                   : 0\n"⟩,
          ⟨1, "LEAVE: PROGRAM main"⟩, ⟨1, "1: PROGRAM main\n"⟩] ∧
      ∃ trace, (runWithin 60 (.start 1 false) source).2.written =
        (logBeforeRun 60 (.start 1 false) source).written ++ trace ∧ Trace trace [] :=
  ⟨by decide, by decide +kernel, (runWithin_traced (by decide) 60 false _).1⟩

end LittleLang
