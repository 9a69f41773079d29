import LittleLang.Proofs.Run.Walk
import LittleLang.Proofs.Verbosity

/-!
# Messages that trace the stack

A log that shows records tells of each record when it comes on the stack and when it is taken off
again. `Trace es opened`: read from the start, the messages `es` open and close records in a
balanced way, and leave those with the headings `opened` open. The log mirrors the stack of a
machine if the messages of its run trace the headings of the records on the stack
(`Running.Mirrors`). Messages about something else keep this, and so do records that come or go,
those with or without a text of them. -/

namespace LittleLang

/-! ## Messages about records -/

/-- What the log calls a record. -/
structure Heading where
  kind : RecordKind
  name : String
  deriving DecidableEq, Repr

namespace Heading

def entering (h : Heading) : String :=
  s!"ENTER: {h.kind.name} {h.name}"

def leaving (h : Heading) : String :=
  s!"LEAVE: {h.kind.name} {h.name}"

def main : Heading :=
  ⟨.program, "main"⟩

end Heading

def Record.heading (r : Record) : Heading :=
  ⟨r.kind, r.name⟩

/-- The headings of the records on a stack, the latest first. -/
def CallStack.headings (stack : CallStack) : List Heading :=
  stack.map Record.heading

/-- The message says that a record comes or goes. -/
def Entry.Marks (e : Entry) : Prop :=
  ∃ h : Heading, e.text = h.entering ∨ e.text = h.leaving

/-- The levels `n`, `n - 1`, …, `1`. -/
def countdown : Nat → List Int
  | 0 => []
  | n + 1 => (n + 1 : Nat) :: countdown n

/-- The text shows a stack of records with these headings, and with levels that count down to 1. -/
def Shows (dump : String) (headings : List Heading) : Prop :=
  ∃ stack : CallStack, stack.headings = headings ∧
    stack.map Record.level = countdown stack.length ∧ stack.text = .ok dump

/-- The messages open and close records; those with these headings are still open, the latest first.
The program is opened before anything else, and all other records are those of calls. Each message
that opens a record is followed by a show of all that are open. -/
inductive Trace : List Entry → List Heading → Prop where
  | nil : Trace [] []
  | program {dump : String} : Shows dump [.main] →
      Trace [⟨1, Heading.main.entering⟩, ⟨1, dump⟩] [.main]
  | call {es : List Entry} {opened : List Heading} {h : Heading} {dump : String} :
      Trace es opened → opened ≠ [] → h.kind = .function → Shows dump (h :: opened) →
      Trace (es ++ [⟨1, h.entering⟩, ⟨1, dump⟩]) (h :: opened)
  | leave {es : List Entry} {opened : List Heading} {h : Heading} :
      Trace es (h :: opened) → Trace (es ++ [⟨1, h.leaving⟩]) opened
  | other {es : List Entry} {opened : List Heading} {e : Entry} :
      Trace es opened → ¬e.Marks → Trace (es ++ [e]) opened

/-! ## Other messages -/

/-- A message that starts with another letter is about no record. -/
theorem Entry.not_marks {level : Int} {text : String} {c : Char}
    (h : text.toList.head? = some c) (hE : c ≠ 'E') (hL : c ≠ 'L') :
    ¬(Entry.mk level text).Marks := by
  rintro ⟨heading, rfl | rfl⟩
  · simp [Heading.entering, toString, hE.symm] at h
  · simp [Heading.leaving, toString, hL.symm] at h

theorem Running.Remark.not_marks {level : Int} {text : String} (h : Running.Remark level text) :
    ¬(Entry.mk level text).Marks := by
  cases h with
  | assign => exact Entry.not_marks (c := 'a') (by simp [toString]) (by decide) (by decide)
  | condition => exact Entry.not_marks (c := 'i') (by simp [toString]) (by decide) (by decide)
  | call => exact Entry.not_marks (c := 'c') (by simp [toString]) (by decide) (by decide)
  | define => exact Entry.not_marks (c := 'd') (by simp [toString]) (by decide) (by decide)

theorem head?_repr (n : Nat) : ∃ c, n.repr.toList.head? = some c ∧ c.isDigit = true := by
  rw [Nat.toList_repr]
  obtain ⟨c, cs, hcs⟩ := List.exists_cons_of_ne_nil (@Nat.toDigits_ne_nil n 10)
  have hc : c ∈ Nat.toDigits 10 n := by simp [hcs]
  exact ⟨c, by simp [hcs], Nat.isDigit_of_mem_toDigits (by decide) (by decide) hc⟩

/-- The text of a record starts with its level. -/
theorem Record.not_marks_text {r : Record} {t : String} (h : r.text = .ok t) (level : Int) :
    ¬(Entry.mk level t).Marks := by
  obtain ⟨c, hc, hE, hL⟩ : ∃ c, (toString r.level).toList.head? = some c ∧ c ≠ 'E' ∧ c ≠ 'L' := by
    cases r.level with
    | ofNat n =>
      obtain ⟨c, hc, hdigit⟩ := head?_repr n
      refine ⟨c, hc, ?_, ?_⟩
      · rintro rfl
        cases hdigit
      · rintro rfl
        cases hdigit
    | negSucc n => exact ⟨'-', by simp [toString, Int.repr], by decide, by decide⟩
  unfold Record.text at h
  cases hlines : r.members.entries.mapM Record.memberText with
  | error e =>
    rw [hlines] at h
    cases h
  | ok lines =>
    rw [hlines] at h
    cases h
    have hhead (back : String) : (toString r.level ++ back).toList.head? = some c := by
      simp only [String.toList_append, List.head?_append, hc, Option.some_or]
    simp only [String.append_assoc]
    exact Entry.not_marks (hhead _) hE hL

/-! ## The log and the stack -/

namespace Log

variable {log : Log} {text : String}

theorem written_write_one (h : log.InOnePlace) (hl : 1 ≤ log.level) :
    (log.write 1 text).written = log.written ++ [⟨1, text⟩] := by
  rw [written_write h, if_pos hl]

end Log

namespace Running

/-- The messages of the run trace the stack, where `before` was written before the run. -/
structure Mirrors (before : List Entry) (m : Machine) : Prop where
  level : 1 ≤ m.log.level
  inOnePlace : m.log.InOnePlace
  /-- The records have the levels that they have on the stack. -/
  levels : m.stack.map Record.level = countdown m.stack.length
  traced : ∃ trace, m.log.written = before ++ trace ∧ Trace trace m.stack.headings

variable {before : List Entry} {m m' : Machine}

/-- A step that leaves the log alone, and of the records all but their variables. -/
theorem Mirrors.same (h : Mirrors before m) (hlog : m'.log = m.log)
    (hheadings : m'.stack.headings = m.stack.headings)
    (hlevels : m'.stack.map Record.level = m.stack.map Record.level) : Mirrors before m' := by
  have hlength : m'.stack.length = m.stack.length := by
    simpa using congrArg List.length hlevels
  refine ⟨hlog ▸ h.level, hlog ▸ h.inOnePlace, ?_, ?_⟩
  · rw [hlevels, hlength, h.levels]
  · rw [hlog, hheadings]
    exact h.traced

theorem Mirrors.write (h : Mirrors before m) {level : Int} {text : String}
    (ht : ¬(Entry.mk level text).Marks) :
    Mirrors before { m with log := m.log.write level text } := by
  obtain ⟨trace, hwritten, htrace⟩ := h.traced
  refine ⟨?_, h.inOnePlace.write, h.levels, ?_⟩
  · exact Log.level_write.symm ▸ h.level
  · show ∃ trace, (m.log.write level text).written = before ++ trace ∧ Trace trace m.stack.headings
    rw [Log.written_write h.inOnePlace, hwritten, List.append_assoc]
    split
    · exact ⟨_, rfl, htrace.other ht⟩
    · exact ⟨_, rfl, (List.append_nil trace).symm ▸ htrace⟩

theorem Mirrors.pop (h : Mirrors before m) {record : Record} {rest : CallStack}
    (hs : m.stack = record :: rest) : Mirrors before (m.pop record rest) := by
  obtain ⟨trace, hwritten, htrace⟩ := h.traced
  have hlevels := h.levels
  rw [hs] at hlevels htrace
  refine ⟨?_, h.inOnePlace.write, (List.cons.inj hlevels).2, trace ++ [⟨1, record.heading.leaving⟩],
    ?_, htrace.leave⟩
  · exact Log.level_write.symm ▸ h.level
  · show (m.log.write 1 record.heading.leaving).written = _
    rw [Log.written_write_one h.inOnePlace h.level, hwritten, List.append_assoc]

/-- A record that is taken off the stack is told of, even if it cannot be shown then. -/
theorem Mirrors.leave (h : Mirrors before m) {record : Record} {rest : CallStack}
    (hs : m.stack = record :: rest) : Mirrors before (after (leave m)) := by
  have hpop := h.pop hs
  rw [leave_eq hs]
  cases ht : record.text with
  | ok t => exact hpop.write (Record.not_marks_text ht 1)
  | error e =>
    dsimp only
    split
    · exact hpop
    · exact hpop

/-- A record comes on top of the stack, which is shown with it. -/
theorem Mirrors.push (h : Mirrors before m) {record : Record} {dump : String}
    (hl : record.level = m.stack.length + 1) (hd : CallStack.text (record :: m.stack) = .ok dump)
    (ht : ∀ trace, m.log.written = before ++ trace → Trace trace m.stack.headings →
      Shows dump (record.heading :: m.stack.headings) →
      Trace (trace ++ [⟨1, record.heading.entering⟩, ⟨1, dump⟩])
        (record.heading :: m.stack.headings)) :
    Mirrors before ((m.push record).dump dump) := by
  obtain ⟨trace, hwritten, htrace⟩ := h.traced
  have hlevels : (record :: m.stack).map Record.level = countdown (record :: m.stack).length := by
    simp [countdown, hl, h.levels]
  have hlevel : 1 ≤ (m.log.write 1 record.heading.entering).level := Log.level_write.symm ▸ h.level
  refine ⟨?_, h.inOnePlace.write.write, hlevels, _, ?_,
    ht trace hwritten htrace ⟨record :: m.stack, rfl, hlevels, hd⟩⟩
  · exact Log.level_write.symm ▸ hlevel
  · show ((m.log.write 1 record.heading.entering).write 1 dump).written = _
    rw [Log.written_write_one h.inOnePlace.write hlevel,
      Log.written_write_one h.inOnePlace h.level, hwritten]
    simp

end Running

end LittleLang
