import LittleLang.Proofs.Acceptance
import LittleLang.Proofs.Likeness.Stages

/-!
# Where failures point

Every failure of a run that tells of a place tells of one in its text: a lexical error is the first
one of the text, and a token that is blamed is one of its tokens (`located_runWithin`). Tokens come
a long way, through the memo, the tree and the functions that a run declares; but no stage makes a
token. So a run goes along with itself under the likeness in which each token of the text, and no
other one, is like itself.
-/

namespace LittleLang

/-! ## Places of a text -/

/-- The failure points at the text: at its first lexical error, or at a token of it. A failure that
tells of no place points nowhere. -/
def Failure.Located (text : String) : Failure → Prop
  | lexical error => (tokenize text).2 = some error
  | unexpected token => token ∈ (tokenize text).1
  | semantic _ token => token ∈ (tokenize text).1
  | runtime _ token => ∃ t ∈ (tokenize text).1, token = some t
  | _ => True

theorem Failure.located_of_isPlaceless {text : String} {e : Failure}
    (h : e.isPlaceless = true) : e.Located text := by
  cases e with
  | lexical => cases h
  | unexpected => cases h
  | semantic => cases h
  | runtime => cases h
  | _ => trivial

def Likeness.ofText (text : String) : Likeness where
  token t t' := t = t' ∧ t ∈ (tokenize text).1
  error e e' := e = e' ∧ (tokenize text).2 = some e
  offset := Eq
  kind_eq h := congrArg Token.kind h.1
  text_eq h := congrArg Token.text h.1

namespace Likeness

variable {text : String}

theorem streams_self {s : Stream} (htokens : ∀ t ∈ s.tokens, t ∈ (tokenize text).1)
    (herror : s.error? = (tokenize text).2) : (ofText text).Streams s s := by
  induction s with
  | finish head => exact .finish ⟨rfl, htokens _ (by simp [Stream.tokens])⟩ rfl
  | blocked head error =>
    exact .blocked ⟨rfl, htokens _ (by simp [Stream.tokens])⟩ rfl ⟨rfl, herror.symm⟩
  | more head tail ih =>
    refine .more ⟨rfl, htokens _ (by simp [Stream.tokens])⟩ rfl (ih (fun t ht => ?_) herror)
    exact htokens t (by simp [Stream.tokens, ht])

theorem Failures.located {e e' : Failure} (h : (ofText text).Failures e e') : e.Located text := by
  cases h with
  | lexical he => exact he.2
  | unexpected ht => exact ht.2
  | semantic _ ht => exact ht.2
  | runtime _ ht => exact ⟨_, ht.2, rfl⟩
  | placeless hp => exact Failure.located_of_isPlaceless hp

theorem Outcomes.located {α : Type} {A : α → α → Prop} {r r' : Except Failure α}
    (h : (ofText text).Outcomes A r r') {e : Failure} (he : r = .error e) : e.Located text := by
  cases h with
  | ok => cases he
  | error hf =>
    cases he
    exact hf.located

end Likeness

/-! ## The first lexical error -/

/-- The lexical error that stops the reading of a text. -/
def stopOf : Except LexicalError Stream → Option LexicalError
  | .error e => some e
  | .ok s => s.error?

/-- A stream is stopped by the first error that a scan passes over. -/
theorem stopOf_ofCursor (rounds : Nat) (c : Cursor) :
    stopOf (Stream.ofCursor rounds c) = (scanFrom rounds c).2.head? := by
  induction rounds generalizing c with
  | zero => rfl
  | succ rounds ih =>
    unfold Stream.ofCursor scanFrom
    cases c.next with
    | error e => rfl
    | ok c' =>
      dsimp only
      split
      · rfl
      · rw [← ih c']
        cases Stream.ofCursor rounds c' with
        | error e => rfl
        | ok tail => rfl

theorem error?_tokenize (text : String) : (tokenize text).2 = (scan text).2.head? := by
  refine Eq.trans ?_ (stopOf_ofCursor (text.length + 1) (.ofText text))
  unfold tokenize Stream.ofText
  cases Stream.ofCursor (text.length + 1) (.ofText text) with
  | error e => rfl
  | ok s => rfl

/-! ## Failures of a run -/

theorem outcomes_parseWithin (text : String) (depth : Nat) :
    (Likeness.ofText text).Outcomes (Likeness.ofText text).Trees
      (parseWithin .byOffset depth text) (parseWithin .byOffset depth text) := by
  cases hs : Stream.ofText text with
  | error e =>
    rw [parseWithin_eq_lexical hs]
    refine .error (.lexical ⟨rfl, ?_⟩)
    unfold tokenize
    rw [hs]
  | ok s =>
    have htext : tokenize text = (s.tokens, s.error?) := by
      unfold tokenize
      rw [hs]
    have hself : (Likeness.ofText text).Streams s s :=
      Likeness.streams_self (by simp [htext]) (by rw [htext])
    exact like_parseWithin (Parsing.respects_byOffset fun _ _ h => h) hs hs hself depth

theorem located_of_run {text : String} {depth : Nat} {log : Log} {e : Failure}
    (h : (runWithin depth log text).1 = .error e) : e.Located text := by
  have hparse := outcomes_parseWithin text depth
  cases hp : parseWithin .byOffset depth text with
  | error e' =>
    rw [runWithin_of_error hp] at h
    cases h
    exact hparse.located hp
  | ok tree =>
    rw [hp] at hparse
    cases hparse with
    | ok hn => exact (like_runWithin Log.lasting_eq rfl hp hp hn).1.located h

/-- A failure of a run points at its text, and a text with a lexical error is never parsed. The
lexical error of a text is the first one that a scan of it reports. -/
theorem located_runWithin (text : String) :
    (∀ depth log e, (runWithin depth log text).1 = .error e → e.Located text) ∧
    (tokenize text).2 = (scan text).2.head? ∧
    ((tokenize text).2 ≠ none → ∀ depth tree, parseWithin .byOffset depth text ≠ .ok tree) := by
  refine ⟨fun _ _ _ h => located_of_run h, error?_tokenize text, fun he depth tree h => ?_⟩
  exact he (derivable_of_parseWithin h).1

/-- The body of a function fails when it is run again, and a lexical error is met behind a reading
that is given up. -/
theorem located_runWithin_samples :
    ((runWithin 60 { level := 0 } "func f(int n) \x7b return 1/n; \x7d\nf(2); f(0);").1 =
        .error (.runtime .divisionByZero (some ⟨.divide, "/", 1, 25⟩)) ∧
      ⟨.divide, "/", 1, 25⟩ ∈ (tokenize "func f(int n) \x7b return 1/n; \x7d\nf(2); f(0);").1) ∧
    (tokenize "x := (1 <\n ? ;").2 = some ⟨'?', 2, 2⟩ ∧
      ∀ depth tree, parseWithin .byOffset depth "x := (1 <\n ? ;" ≠ .ok tree := by
  have hfail : (runWithin 60 { level := 0 }
      "func f(int n) \x7b return 1/n; \x7d\nf(2); f(0);").1 =
        .error (.runtime .divisionByZero (some ⟨.divide, "/", 1, 25⟩)) :=
    eq_of_failure? (by decide +kernel)
  refine ⟨⟨hfail, ?_⟩, by decide +kernel, ?_⟩
  · obtain ⟨t, ht, heq⟩ := (located_runWithin _).1 _ _ _ hfail
    cases heq
    exact ht
  · exact (located_runWithin _).2.2 (by decide +kernel)

end LittleLang
