import LittleLang.Command.Session
import LittleLang.Proofs.Outcomes
import LittleLang.Proofs.Verbosity

/-!
# Sessions

What the read loop makes of a line does not depend on the lines before it (`readLoop_lines`): a line
prints what it prints on its own (`Prints`), and the loop goes on with the next one. There is one
way for a line to end the loop (`Stops`): a number that is too large, whether to be read, to be
turned into a float or into text. Such a fault is none of the errors that the loop reports, and so
the lines after it are never read. -/

namespace LittleLang

/-- The fault is the size of a number. -/
def NumberFault.isOfSize : NumberFault → Bool
  | tooLongToRead _ | tooLongToWrite | beyondFloat => true
  | notInt _ | notFloat _ | notBool _ => false

/-- Of the failures that a text can lead to, those that are not reported are about the size of a
number. -/
theorem Foreseen.isReported_or {e : Failure} (h : Foreseen e) :
    e.isReported = true ∨ ∃ fault, e = .number fault ∧ fault.isOfSize = true := by
  cases h with
  | tooLongToRead digits => exact .inr ⟨_, rfl, rfl⟩
  | tooLongToWrite => exact .inr ⟨_, rfl, rfl⟩
  | beyondFloat => exact .inr ⟨_, rfl, rfl⟩
  | _ => exact .inl rfl

theorem run_fst_eq (log log' : Log) (source : String) : (run log source).1 = (run log' source).1 :=
  (@runWithin_of_lasting (fun _ _ => True) (fun _ _ _ _ _ _ => trivial)
    log log' trivial maxDepth source).1

namespace Command

open LittleLang.Text

/-! ## Lines on their own -/

/-- What a line prints on its own: nothing if it is blank or has no result, the text of its value,
or the report of an error. -/
inductive Prints (line : String) : String → Prop where
  | blank : isBlankText line = true → Prints line ""
  | nothing : isBlankText line = false → (run { level := 0 } line).1 = .ok .none → Prints line ""
  | value {v : Value} {text : String} : isBlankText line = false →
      (run { level := 0 } line).1 = .ok v → v.isNone = false → v.text = .ok text →
      Prints line (text ++ "\n")
  | error {e : Failure} : isBlankText line = false → (run { level := 0 } line).1 = .error e →
      e.isReported = true → Prints line ("Error: " ++ e.message ++ "\n")

/-- The line comes to a number that is too large: in its run, or for its result. -/
inductive Stops (line : String) : NumberFault → Prop where
  | run {fault : NumberFault} : isBlankText line = false →
      (run { level := 0 } line).1 = .error (.number fault) → fault.isOfSize = true →
      Stops line fault
  | result {v : Value} : isBlankText line = false → (run { level := 0 } line).1 = .ok v →
      v.text = .error .tooLongToWrite → Stops line .tooLongToWrite

theorem prints_or_stops (line : String) :
    (∃ text, Prints line text) ∨ ∃ fault, Stops line fault := by
  cases hblank : isBlankText line with
  | true => exact .inl ⟨_, .blank hblank⟩
  | false =>
    have hends : Ends (run { level := 0 } line).1 := .runWithin maxDepth _ line
    cases hrun : (run { level := 0 } line).1 with
    | error e =>
      rw [hrun] at hends
      cases hends with
      | failure he =>
        obtain hrep | ⟨fault, rfl, hsize⟩ := he.isReported_or
        · exact .inl ⟨_, .error hblank hrun hrep⟩
        · exact .inr ⟨fault, .run hblank hrun hsize⟩
    | ok v =>
      cases hnone : v.isNone with
      | true =>
        cases v with
        | none => exact .inl ⟨_, .nothing hblank hrun⟩
        | int _ => cases hnone
        | float _ => cases hnone
        | bool _ => cases hnone
      | false =>
        cases htext : v.text with
        | ok text => exact .inl ⟨_, .value hblank hrun hnone htext⟩
        | error fault =>
          obtain rfl := Value.text_eq_error htext
          exact .inr ⟨_, .result hblank hrun htext⟩

/-! ## One line of a session -/

section

variable {log : Log} {line : String}

/-- Under a silent log, a line that is not blank comes to what its result shows, and the log stays
as it was. -/
theorem runLine_eq (h : log.level ≤ 0) (hblank : isBlankText line = false)
    {result : Except Failure Value} (hrun : (run { level := 0 } line).1 = result) :
    runLine log line = match shown result with
      | .nothing => (.ok "", log)
      | .text text | .report text => (.ok (text ++ "\n"), log)
      | .crash e => (.error e, log) := by
  have hresult : (run log line).1 = result := (run_fst_eq log _ line).trans hrun
  have hlog : (run log line).2 = log := log_runWithin h maxDepth line
  rw [runLine, hblank, show run log line = (result, log) from Prod.ext hresult hlog]
  rfl

theorem shown_value {v : Value} (h : v.isNone = false) {text : String} (ht : v.text = .ok text) :
    shown (.ok v) = .text text := by
  cases v with
  | none => cases h
  | int _ => simp only [shown, ht]
  | float _ => simp only [shown, ht]
  | bool _ => simp only [shown, ht]

theorem shown_tooLong {v : Value} {fault : NumberFault} (ht : v.text = .error fault) :
    shown (.ok v) = .crash (.number fault) := by
  cases v with
  | none => cases ht
  | int _ => simp only [shown, ht]
  | float _ => cases ht
  | bool _ => cases ht

theorem Prints.runLine_eq (h : log.level ≤ 0) {text : String} (hp : Prints line text) :
    runLine log line = (.ok text, log) := by
  cases hp with
  | blank hblank => rw [runLine, hblank, if_pos rfl]
  | nothing hblank hrun => rw [Command.runLine_eq h hblank hrun, shown]
  | value hblank hrun hnone ht => rw [Command.runLine_eq h hblank hrun, shown_value hnone ht]
  | error hblank hrun hrep => rw [Command.runLine_eq h hblank hrun, shown, if_pos hrep]; rfl

theorem Stops.runLine_eq (h : log.level ≤ 0) {fault : NumberFault} (hs : Stops line fault) :
    runLine log line = (.error (.number fault), log) := by
  cases hs with
  | run hblank hrun => rw [Command.runLine_eq h hblank hrun]; rfl
  | result hblank hrun ht => rw [Command.runLine_eq h hblank hrun, shown_tooLong ht]

end

/-! ## Sessions -/

/-- What is printed for lines that print these texts: each after the prompt for its line. -/
def transcript (texts : List String) : String :=
  String.join (texts.map (prompt ++ ·))

theorem readLoop_append {log : Log} (h : log.level ≤ 0) {before texts : List String}
    (hbefore : List.Forall₂ Prints before texts) (printed : String) (rest : List String) :
    readLoop log printed (before ++ rest) = readLoop log (printed ++ transcript texts) rest := by
  induction hbefore generalizing printed with
  | nil => simp [transcript, String.join]
  | @cons line text before texts hline _ ih =>
    have hjoin : transcript (text :: texts) = prompt ++ text ++ transcript texts := by
      simp [transcript, String.join_cons]
    rw [List.cons_append, readLoop, hline.runLine_eq h]
    dsimp only
    rw [ih, hjoin]
    simp only [String.append_assoc]

/-- Every line prints something on its own or comes to a number that is too large. If all lines of a
session print something, the loop reads them all, and what it prints is what they print, each after
a prompt. The first line with a number that is too large ends the loop, whatever comes after it. -/
theorem readLoop_lines {log : Log} (h : log.level ≤ 0) :
    (∀ line, (∃ text, Prints line text) ∨ ∃ fault, Stops line fault) ∧
    (∀ lines texts, List.Forall₂ Prints lines texts →
      readLoop log "" lines =
        { out := transcript texts ++ prompt ++ "\n", debug := log.fileText }) ∧
    ∀ before texts line fault rest, List.Forall₂ Prints before texts → Stops line fault →
      readLoop log "" (before ++ line :: rest) =
        { exit := .crashed (.failure (.number fault)), out := transcript texts ++ prompt,
          debug := log.fileText } := by
  refine ⟨prints_or_stops, ?_, ?_⟩
  · intro lines texts hlines
    have hall := readLoop_append h hlines "" []
    rw [List.append_nil, String.empty_append] at hall
    rw [hall, readLoop]
  · intro before texts line fault rest hbefore hline
    rw [readLoop_append h hbefore, readLoop, hline.runLine_eq h, String.empty_append]

/-- The second line multiplies an integer that is beyond the range of floats by a float. The loop
ends there, and the last line is never read. -/
theorem readLoop_lines_beyondFloat :
    ((0 : Int) ≤ 0 ∧
      Stops "func f(int n)\x7breturn n*n*n*n;\x7dreturn f(f(100000000000000000000))*1.0;"
        .beyondFloat) ∧
    readLoop { level := 0 } "" (["1/0"] ++
        "func f(int n)\x7breturn n*n*n*n;\x7dreturn f(f(100000000000000000000))*1.0;" :: ["1"]) =
      { exit := .crashed (.failure (.number .beyondFloat)),
        out := transcript ["Error: division by zero (line: 1, col: 2)\n"] ++ "$ " } := by
  have hzero : Prints "1/0" "Error: division by zero (line: 1, col: 2)\n" :=
    @Prints.error "1/0" (.runtime .divisionByZero (some ⟨.divide, "/", 1, 2⟩)) (by decide +kernel)
      (eq_of_failure? (by decide +kernel)) rfl
  have hstop : Stops
      "func f(int n)\x7breturn n*n*n*n;\x7dreturn f(f(100000000000000000000))*1.0;" .beyondFloat :=
    .run (by decide +kernel) (eq_of_failure? (by decide +kernel)) rfl
  refine ⟨⟨by decide, hstop⟩, ?_⟩
  exact (readLoop_lines (by decide)).2.2 _ _ _ _ ["1"] (.cons hzero .nil) hstop

end Command

end LittleLang
