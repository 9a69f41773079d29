import LittleLang.Proofs.Memo.Operands
import LittleLang.Proofs.Soundness.Expressions

/-!
# Parsing with a memo and without

`Agree` says when two outcomes count as the same: they are equal, or one of them gave up for its
depth. Where the text ends in `!` (`Blurred`), two failures on a token count as the same too, since
the `!` and the end of the text then share an entry of the memo.

A memo is `Sound` if each of its entries agrees with the number that the parser without a memo reads
at the same place. `Follows` is the simulation: from a sound memo, a step with a memo agrees with
the step without one and leaves a sound memo. There is one lemma for each way to put steps together;
the one for `Reuse.byOffset` is where entries are used and made. -/

open LittleLang.Stream

namespace LittleLang.Parsing

variable {α β : Type}

/-! ## Outcomes -/

/-- The outcome of a step, without the memo. -/
def outcome : EStateM.Result Failure Memo α → Except Failure α
  | .ok a _ => .ok a
  | .error e _ => .error e

/-- The stream ends in `!`, and the end of the text has the same offset. -/
def Blurred (whole : Stream) : Prop :=
  ∃ ts l e, Reads whole ts (.more l (.finish e)) ∧ l.token.kind = .bang ∧ l.stop = e.stop

/-- Two outcomes count as the same. The first may have given up for its depth only if `deep`. -/
inductive Agree (deep blurred : Prop) : Except Failure α → Except Failure α → Prop where
  | same (r : Except Failure α) : Agree deep blurred r r
  | token (t t' : Token) : blurred →
      Agree deep blurred (.error (.unexpected t)) (.error (.unexpected t'))
  | deepSecond (r : Except Failure α) : Agree deep blurred r (.error .tooDeep)
  | deepFirst (r : Except Failure α) : deep → Agree deep blurred (.error .tooDeep) r

section

variable {deep deep' blurred blurred' : Prop}

theorem Agree.imp {r r' : Except Failure α} (h : Agree deep blurred r r') (hd : deep → deep')
    (hb : blurred → blurred') : Agree deep' blurred' r r' := by
  cases h with
  | same => exact .same _
  | token t t' h => exact .token t t' (hb h)
  | deepSecond => exact .deepSecond _
  | deepFirst _ h => exact .deepFirst _ (hd h)

theorem Agree.error_of_error {e e' : Failure}
    (h : Agree deep blurred (.error e : Except Failure α) (.error e')) :
    Agree deep blurred (.error e : Except Failure β) (.error e') := by
  cases h with
  | same => exact .same _
  | token t t' hb => exact .token t t' hb
  | deepSecond => exact .deepSecond _
  | deepFirst _ h => exact .deepFirst _ h

def attempted : Except Failure α → Except Failure (Option α)
  | .ok a => .ok (some a)
  | .error (.unexpected _) => .ok none
  | .error e => .error e

theorem outcome_attempt (p : Parsing α) (memo : Memo) :
    outcome (attempt p memo) = attempted (outcome (p memo)) := by
  unfold attempt
  cases p memo with
  | ok a memo => rfl
  | error e memo => cases e <;> rfl

theorem Agree.attempted {r r' : Except Failure α} (h : Agree deep blurred r r') :
    Agree deep blurred (attempted r) (attempted r') := by
  cases h with
  | same => exact .same _
  | token => exact .same _
  | deepSecond => exact .deepSecond _
  | deepFirst _ h => exact .deepFirst _ h

end

/-! ## Sound memos -/

/-- The outcome that an entry of the memo stands for. -/
def recorded : Except Token Parsed → Except Failure Parsed
  | .ok parsed => .ok parsed
  | .error t => .error (.unexpected t)

/-- The entry is what the parser without a memo gives at this place. -/
structure Answers (whole s : Stream) (entry : Except Token Parsed) : Prop where
  agrees : ∀ depth memo, Agree False (Blurred whole) (recorded entry)
    (outcome (numExpr .never depth s memo))
  atEnd : ∀ parsed, entry = .ok parsed → AtEnd whole parsed.2

/-- Every entry answers for every place of its offset where a number may be asked for. -/
def Sound (whole : Stream) (memo : Memo) : Prop :=
  ∀ s entry, AtOperand whole s → memo.lookup s.head.stop = some entry → Answers whole s entry

theorem sound_nil (whole : Stream) : Sound whole [] := by
  intro s entry _ h
  cases h

/-! ### Entries for two places -/

/-- Without a memo, no number starts here; the token is blamed. -/
def Blames (s : Stream) (t : Token) : Prop :=
  ∀ depth, Meets (numExpr .never depth s) (fun e => e = .tooDeep ∨ e = .unexpected t) fun _ => False

theorem blames_of_factor {s : Stream} {t : Token}
    (h : ∀ depth, Meets (factor .never depth s) (fun e => e = .tooDeep ∨ e = .unexpected t)
      fun _ => False) : Blames s t := by
  intro depth
  match depth with
  | 0 => exact meets_throw (.inl rfl)
  | 1 => exact Meets.bind_of_false (meets_throw (.inl rfl))
  | depth + 2 => exact Meets.bind_of_false (h depth).bind_of_false

theorem blames_self {s : Stream} (hk : s.kind.startsNumber = false) : Blames s s.token := by
  refine blames_of_factor fun depth => ?_
  cases depth with
  | zero => exact meets_throw (.inl rfl)
  | succ depth =>
    have hfactor : factor .never (depth + 1) s = var s := by
      rw [factor_eq]
      generalize s.kind = k at hk
      cases k <;> simp_all [Kind.startsNumber]
    have hne : s.kind ≠ .identifier := by
      intro h
      simp [h, Kind.startsNumber] at hk
    rw [hfactor, var, eat, if_neg hne]
    exact Meets.bind_of_false (meets_throw (.inr rfl))

theorem startsNumber_finish {e : Placed} (he : e.token.kind = .endOfInput) :
    (Stream.finish e).kind.startsNumber = false := by
  rw [show (Stream.finish e).kind = .endOfInput from he]
  rfl

/-- At an opening parenthesis before the end of the text, the end is blamed. -/
theorem blames_open {l e : Placed} (hl : l.token.kind = .leftParen)
    (he : e.token.kind = .endOfInput) : Blames (.more l (.finish e)) e.token := by
  refine blames_of_factor fun depth => ?_
  cases depth with
  | zero => exact meets_throw (.inl rfl)
  | succ depth =>
    have hk : (Stream.more l (.finish e)).kind = .leftParen := hl
    rw [factor_eq, if_pos hk, parenthesized, eat, if_pos hk]
    exact (blames_self (startsNumber_finish he) depth).bind_of_false

theorem Answers.eq_error {whole s : Stream} {entry : Except Token Parsed} {t : Token}
    (h : Answers whole s entry) (hs : s.Proper) (hb : Blames s t) :
    ∃ t', entry = .error t' ∧ (t' = t ∨ Blurred whole) := by
  -- The rule is run deep enough to reach the token.
  have hmeets := hb (8 * s.length + 4) []
  have hdeep := (soundAt (8 * s.length + 4)).numExpr s hs []
  have hagree := h.agrees (8 * s.length + 4) []
  cases hn : numExpr .never (8 * s.length + 4) s [] with
  | ok a memo =>
    rw [hn] at hmeets
    exact hmeets.elim
  | error e memo =>
    rw [hn] at hmeets hdeep hagree
    rcases hmeets with rfl | rfl
    · cases hdeep with
      | tooDeep h => exact absurd h (Nat.lt_irrefl _)
    · cases entry with
      | ok parsed => cases hagree
      | error t' =>
        refine ⟨t', rfl, ?_⟩
        cases hagree with
        | same => exact .inl rfl
        | token _ _ hb => exact .inr hb

theorem answers_of_blames {whole s : Stream} {t t' : Token} (hb : Blames s t)
    (ht : t' = t ∨ Blurred whole) : Answers whole s (.error t') := by
  refine ⟨fun depth memo => ?_, fun _ h => by cases h⟩
  have hmeets := hb depth memo
  cases hn : numExpr .never depth s memo with
  | ok a memo' =>
    rw [hn] at hmeets
    exact hmeets.elim
  | error e memo' =>
    rw [hn] at hmeets
    rcases hmeets with rfl | rfl
    · exact .deepSecond _
    · rcases ht with rfl | h
      · exact .same _
      · exact .token _ _ h

/-- After `(` both places blame the end of the text; after `!` each blames its own token. -/
theorem Twins.blames {whole s₁ s₂ : Stream} (hw : whole.Proper) (h₁ : Within whole s₁)
    (ht : Twins s₁ s₂) : ∃ t₁ t₂, Blames s₁ t₁ ∧ Blames s₂ t₂ ∧ (t₁ = t₂ ∨ Blurred whole) := by
  obtain ⟨l, e, rfl, rfl, hstop, hk⟩ := ht
  have he : e.token.kind = .endOfInput := (h₁.proper hw).2
  have hend : Blames (.finish e) e.token := blames_self (startsNumber_finish he)
  rcases hk with hk | hk
  · exact ⟨e.token, e.token, blames_open hk he, hend, .inl rfl⟩
  · have hbang : (Stream.more l (.finish e)).kind.startsNumber = false := by
      rw [show (Stream.more l (.finish e)).kind = .bang from hk]
      rfl
    obtain ⟨ts, hr⟩ := h₁
    exact ⟨l.token, e.token, blames_self hbang, hend, .inr ⟨ts, l, e, hr, hk, hstop⟩⟩

/-- Of two places with one offset, an entry for one answers for the other. -/
theorem Answers.twin {whole s₁ s₂ : Stream} {entry : Except Token Parsed} (hw : whole.Proper)
    (h₁ : Within whole s₁) (h₂ : Within whole s₂) (ht : Twins s₁ s₂ ∨ Twins s₂ s₁)
    (h : Answers whole s₁ entry) : Answers whole s₂ entry := by
  have hblames : ∃ t₁ t₂, Blames s₁ t₁ ∧ Blames s₂ t₂ ∧ (t₁ = t₂ ∨ Blurred whole) := by
    rcases ht with ht | ht
    · exact Twins.blames hw h₁ ht
    · obtain ⟨t₂, t₁, hb₂, hb₁, ht⟩ := Twins.blames hw h₂ ht
      exact ⟨t₁, t₂, hb₁, hb₂, ht.imp_left Eq.symm⟩
  obtain ⟨t₁, t₂, hb₁, hb₂, ht⟩ := hblames
  obtain ⟨t, rfl, ht'⟩ := h.eq_error (h₁.proper hw) hb₁
  refine answers_of_blames hb₂ ?_
  rcases ht' with rfl | hblur
  · exact ht
  · exact .inr hblur

/-- What is found in a memo with one more entry is this entry, asked for at its own place or at the
one that shares the offset, or it was there before. -/
theorem lookup_cons_cases {whole s s' : Stream} {memo : Memo}
    {entry entry' : Except Token Parsed} (hw : whole.Proper) (ho : whole.Ordered)
    (hs : AtOperand whole s) (hs' : AtOperand whole s')
    (hl : List.lookup s'.head.stop ((s.head.stop, entry) :: memo) = some entry') :
    (entry = entry' ∧ (s = s' ∨ Twins s s' ∨ Twins s' s)) ∨
      memo.lookup s'.head.stop = some entry' := by
  by_cases hstop : s'.head.stop = s.head.stop
  · exact .inl ⟨by simpa [List.lookup_cons, hstop] using hl, hs.eq_or_twins hw ho hs' hstop.symm⟩
  · rw [List.lookup_cons, beq_false_of_ne hstop] at hl
    exact .inr hl

theorem Sound.cons {whole s : Stream} {memo : Memo} {entry : Except Token Parsed}
    (hw : whole.Proper) (ho : whole.Ordered) (h : Sound whole memo) (hs : AtOperand whole s)
    (ha : Answers whole s entry) : Sound whole ((s.head.stop, entry) :: memo) := by
  intro s' entry' hs' hl
  rcases lookup_cons_cases hw ho hs hs' hl with ⟨rfl, rfl | ht⟩ | hl
  · exact ha
  · exact ha.twin hw hs.within hs'.within ht
  · exact h s' entry' hs' hl

/-! ## Following -/

/-- From a sound memo the first step agrees with the second, its results have a property, and it
leaves a sound memo. -/
def Follows (whole : Stream) (deep : Prop) (p q : Parsing α) (post : α → Prop) : Prop :=
  ∀ memo memo', Sound whole memo →
    match p memo with
    | .ok a memo₁ => Sound whole memo₁ ∧ post a ∧
        Agree deep (Blurred whole) (.ok a) (outcome (q memo'))
    | .error e memo₁ => Sound whole memo₁ ∧
        Agree deep (Blurred whole) (.error e) (outcome (q memo'))

section

variable {whole : Stream} {deep deep' : Prop} {p q : Parsing α} {post post' : α → Prop}

theorem Follows.imp (h : Follows whole deep p q post) (hd : deep → deep')
    (hp : ∀ a, post a → post' a) : Follows whole deep' p q post' := by
  intro memo memo' hm
  have h := h memo memo' hm
  split at h
  · exact ⟨h.1, hp _ h.2.1, h.2.2.imp hd id⟩
  · exact ⟨h.1, h.2.imp hd id⟩

theorem Follows.weaken (h : Follows whole deep p q post) (hp : ∀ a, post a → post' a) :
    Follows whole deep p q post' :=
  h.imp id hp

theorem Follows.throw_second (h : Follows whole deep p q post) :
    Follows whole deep' p (throw .tooDeep) post := by
  intro memo memo' hm
  have h := h memo memo' hm
  split at h
  · exact ⟨h.1, h.2.1, .deepSecond _⟩
  · exact ⟨h.1, .deepSecond _⟩

theorem follows_throw_first (h : deep ∨ q = throw .tooDeep) :
    Follows whole deep (throw .tooDeep) q post := by
  intro memo memo' hm
  refine ⟨hm, ?_⟩
  rcases h with h | rfl
  · exact .deepFirst _ h
  · exact .same _

theorem follows_pure {a : α} (h : post a) : Follows whole deep (pure a) (pure a) post :=
  fun _ _ hm => ⟨hm, h, .same _⟩

theorem follows_throw (e : Failure) : Follows whole deep (throw e) (throw e) post :=
  fun _ _ hm => ⟨hm, .same _⟩

theorem Follows.bind {f g : α → Parsing β} {post : β → Prop} {mid : α → Prop}
    (h : Follows whole deep p q mid) (hf : ∀ a, mid a → Follows whole deep (f a) (g a) post) :
    Follows whole deep (p >>= f) (q >>= g) post := by
  intro memo memo' hm
  have hp := h memo memo' hm
  simp only [Bind.bind, EStateM.bind]
  cases hpm : p memo with
  | ok a memo₁ =>
    rw [hpm] at hp
    obtain ⟨hm₁, hmid, hagree⟩ := hp
    cases hqm : q memo' with
    | ok b memo₂ =>
      rw [hqm] at hagree
      cases hagree
      exact hf a hmid memo₁ memo₂ hm₁
    | error e memo₂ =>
      -- The second step gave up, so that only the memo of the first is to be looked after.
      rw [hqm] at hagree
      cases hagree
      exact (hf a hmid).throw_second memo₁ memo₂ hm₁
  | error e memo₁ =>
    rw [hpm] at hp
    obtain ⟨hm₁, hagree⟩ := hp
    refine ⟨hm₁, ?_⟩
    cases hqm : q memo' with
    | ok b memo₂ =>
      rw [hqm] at hagree
      cases hagree with
      | deepFirst _ h => exact .deepFirst _ h
    | error e' memo₂ =>
      rw [hqm] at hagree
      exact hagree.error_of_error

theorem Follows.ite {c : Prop} [Decidable c] {p' q' : Parsing α}
    (h : c → Follows whole deep p q post) (h' : ¬c → Follows whole deep p' q' post) :
    Follows whole deep (if c then p else p') (if c then q else q') post := by
  split
  · exact h ‹c›
  · exact h' ‹¬c›

theorem Follows.attempt (h : Follows whole deep p q post) :
    Follows whole deep (attempt p) (attempt q) fun r => ∀ a, r = some a → post a := by
  intro memo memo' hm
  have hp := h memo memo' hm
  rw [outcome_attempt]
  unfold Parsing.attempt
  cases hpm : p memo with
  | ok a memo₁ =>
    rw [hpm] at hp
    exact ⟨hp.1, by rintro _ ⟨⟩; exact hp.2.1, hp.2.2.attempted⟩
  | error e memo₁ =>
    rw [hpm] at hp
    have hagree := hp.2.attempted
    cases e with
    | unexpected t => exact ⟨hp.1, by simp, hagree⟩
    | _ => exact ⟨hp.1, hagree⟩

end

/-! ### The memo -/

theorem numExpr_never_succ (depth : Nat) (s : Stream) :
    numExpr .never (depth + 1) s = chain Kind.isAdditive (numTerm .never depth) s := by
  unfold numExpr
  rfl

/-- What a step gave that agrees with the parser without a memo at every depth may be recorded. -/
theorem answers_of_agree {whole s : Stream} {deep : Nat → Prop} {entry : Except Token Parsed}
    (hagree : ∀ depth memo, Agree (deep depth) (Blurred whole) (recorded entry)
      (outcome (chain Kind.isAdditive (numTerm .never depth) s memo)))
    (hend : ∀ parsed, entry = .ok parsed → AtEnd whole parsed.2) : Answers whole s entry := by
  refine ⟨fun depth memo => ?_, hend⟩
  cases depth with
  | zero => exact .deepSecond _
  | succ depth =>
    rw [numExpr_never_succ]
    have h := hagree depth memo
    -- An entry is never a failure for the depth.
    generalize outcome (chain Kind.isAdditive (numTerm .never depth) s memo) = r at h
    cases entry with
    | ok parsed =>
      cases h with
      | same => exact .same _
      | deepSecond => exact .deepSecond _
    | error t =>
      cases h with
      | same => exact .same _
      | token _ t' hb => exact .token t t' hb
      | deepSecond => exact .deepSecond _

theorem follows_byOffset {whole s : Stream} {deep : Nat → Prop} {rule : Parsing Parsed}
    (hw : whole.Proper) (ho : whole.Ordered) (hs : AtOperand whole s)
    (h : ∀ depth, Follows whole (deep depth) rule
      (chain Kind.isAdditive (numTerm .never depth) s) fun r => AtEnd whole r.2) (depth : Nat) :
    Follows whole (deep depth) (Reuse.byOffset s.head.stop rule) (numExpr .never (depth + 1) s)
      fun r => AtEnd whole r.2 := by
  intro memo memo' hm
  unfold Reuse.byOffset
  cases hl : memo.lookup s.head.stop with
  | some entry =>
    have ha := hm s entry hs hl
    have hagree := (ha.agrees (depth + 1) memo').imp (fun h : False => (h.elim : deep depth)) id
    cases entry with
    | ok parsed => exact ⟨hm, ha.atEnd parsed rfl, hagree⟩
    | error t => exact ⟨hm, hagree⟩
  | none =>
    have hrule depth memo' := h depth memo memo' hm
    rw [numExpr_never_succ]
    dsimp only
    cases hr : rule memo with
    | ok parsed memo₁ =>
      simp only [hr] at hrule
      obtain ⟨hm₁, hend, hagree⟩ := hrule depth memo'
      refine ⟨hm₁.cons hw ho hs ?_, hend, hagree⟩
      refine answers_of_agree (fun d m => (hrule d m).2.2) ?_
      rintro _ ⟨⟩
      exact hend
    | error e memo₁ =>
      simp only [hr] at hrule
      obtain ⟨hm₁, hagree⟩ := hrule depth memo'
      cases e with
      | unexpected t =>
        refine ⟨hm₁.cons hw ho hs ?_, hagree⟩
        exact answers_of_agree (fun d m => (hrule d m).2) fun _ h => by cases h
      | _ => exact ⟨hm₁, hagree⟩

end LittleLang.Parsing
