import LittleLang.Proofs.Blame.Decided
import LittleLang.Proofs.Blame.Viable

/-!
# Blame that is deserved

A blamed token is `Deserved` if what stands before it is viable and, unless only bools have such
tokens, the rule at work is decided to blame it by the tokens up to it. `Vouches` is the contract of
a step of the parser with its memo: it blames deservedly, and its results are decided by the tokens
that it read and the one after them. An entry of the memo outlives the rule that made it, so each is
vouched for at every place where a number may be asked for at its offset (`Remembers`).

There is one lemma for each way to put steps together, and the one for `Reuse.byOffset` is where
entries are used and made.
-/

open LittleLang.Stream LittleLang.Grammar

namespace LittleLang

/-! ## Places in a stream -/

namespace Stream

variable {whole s s' : Stream} {ts us : List Token}

theorem Reads.determined (h : Reads whole ts s) (h' : Reads whole ts s') : s = s' := by
  induction h with
  | nil => exact h'.eq_of_nil.symm
  | cons _ ih =>
    cases h' with
    | cons h' => exact ih h'

theorem Reads.after (h : Reads whole ts s) (h' : Reads whole (ts ++ us) s') : Reads s us s' := by
  obtain ⟨s₁, h₁, h₂⟩ := h'.split
  rwa [h.determined h₁]

theorem Reads.tokens_determined (h : Reads whole ts s) (h' : Reads whole us s) : ts = us := by
  have hempty {vs : List Token} (hv : Reads s vs s) : vs = [] := by
    have := hv.length
    exact List.length_eq_zero_iff.mp (by omega)
  rcases h.comparable h' with ⟨vs, rfl, hv⟩ | ⟨vs, rfl, hv⟩ <;> simp [hempty hv]

end Stream

namespace Parsing

variable {ι α β : Type} {whole s : Stream} {before : List Token}

/-! ## Blame -/

/-- A verdict says what comes of some tokens with one after them: a result, or that the one after
them is blamed. -/
abbrev Verdict (α : Type) := List Token → Token → Option α → Prop

/-- What stands before the token is viable. Unless only bools have the token or it ends the text, it
is blamed by the verdict. -/
def Deserved (whole : Stream) (before : List Token) (D : Verdict α) (t : Token) : Prop :=
  ∃ us s', Reads whole us s' ∧ s'.token = t ∧ Viable us ∧
    (t.kind.ofBools = false → t.kind ≠ .endOfInput → ∃ ts, us = before ++ ts ∧ D ts t none)

/-- A step may be sure of its results in any case, or unless a token follows that only bools have.
-/
def Sure (firm : Bool) (k : Kind) : Prop :=
  firm = true ∨ k.ofBools = false

/-- What was read behind some tokens has a property, and the verdict agrees with it where the step
is sure. -/
def Gained (whole : Stream) (before : List Token) (firm : Bool) (D : Verdict α)
    (post : List Token → α → Stream → Prop) (r : α × Stream) : Prop :=
  ∃ ts, Reads whole (before ++ ts) r.2 ∧ (Sure firm r.2.kind → D ts r.2.token (some r.1)) ∧
    post ts r.1 r.2

theorem Deserved.imp {D : Verdict α} {D' : Verdict β} {before' front : List Token} {t : Token}
    (h : Deserved whole (before ++ front) D t) (hb : before' = before)
    (hD : ∀ ts, t.kind.ofBools = false → (∃ s', Reads whole (before ++ front ++ ts) s' ∧ s'.token = t) →
      D ts t none → D' (front ++ ts) t none) : Deserved whole before' D' t := by
  obtain ⟨us, s', hr, ht, hv, hd⟩ := h
  refine ⟨us, s', hr, ht, hv, fun hk he => ?_⟩
  obtain ⟨ts, rfl, hts⟩ := hd hk he
  exact ⟨front ++ ts, by simp [hb], hD ts hk ⟨s', hr, ht⟩ hts⟩

/-! ## Memos -/

/-- What is read up to a place is derivable, and the token there may follow it. -/
structure ReadAs (whole : Stream) (Symbol : List Token → α → Prop) (follow : Kind → Prop)
    (ts : List Token) (a : α) (s : Stream) : Prop where
  derived : Symbol ts a
  atEnd : AtEnd whole s
  follow : follow s.kind

abbrev IsNumber (whole : Stream) : List Token → Node → Stream → Prop :=
  ReadAs whole NumExpr fun k => k.isArithmetic = false

/-- The entry is vouched for, as the outcome of a number behind these tokens. -/
def Fits (whole : Stream) (before : List Token) : Except Token Parsed → Prop
  | .ok r => Gained whole before true (Decided (numExpr .never)) (IsNumber whole) r
  | .error t => Deserved whole before (Decided (numExpr .never)) t

/-- Each entry of the memo is vouched for at every place of its offset. -/
def Remembers (whole : Stream) (memo : Memo) : Prop :=
  ∀ before s entry, Reads whole before s → AtOperand whole s →
    memo.lookup s.head.stop = some entry → Fits whole before entry

theorem remembers_nil (whole : Stream) : Remembers whole [] :=
  fun _ _ _ _ _ h => nomatch h

theorem not_decided_of_ok {q : ι → Stream → Parsing (α × Stream)} {i : ι} {t : Token}
    {r : α × Stream} {memo : Memo} (hp : s.Proper) (ht : s.token = t)
    (h : q i s [] = .ok r memo) : ¬Decided q [] t none := by
  intro hd
  have hmeets := hd i s s hp (.nil s) ht []
  rw [h] at hmeets
  exact nomatch hmeets.1

theorem not_decided_of_samples {q : Nat → Stream → Parsing (α × Stream)} {t : Token} {k : Kind}
    (ks : List Kind) (ht : t.kind = k) (hks : .endOfInput ∉ k :: ks)
    (h : ∀ text line column, ∃ r memo, q 9
      (.ofTokens (⟨k, text, line, column⟩ :: samples ks) (.sample .endOfInput)) [] = .ok r memo) :
    ¬Decided q [] t none := by
  obtain ⟨_, text, line, column⟩ := t
  obtain rfl : _ = k := ht
  obtain ⟨r, memo, h⟩ := h text line column
  refine not_decided_of_ok (Stream.proper_ofTokens (fun u hu => ?_) rfl) rfl h
  rcases List.mem_cons.mp hu with rfl | hu
  · exact fun he => hks (he ▸ List.mem_cons_self)
  · obtain ⟨l, hl, rfl⟩ := List.mem_map.mp hu
    exact fun he => hks (List.mem_cons_of_mem _ (he ▸ hl))

theorem NumExpr.ne_single {t : Token} {n : Node} (h : NumExpr [t] n) :
    t.kind ≠ .leftParen ∧ t.kind ≠ .bang := by
  obtain ⟨u, us, heq, hu⟩ := NumExpr.first_token h
  obtain rfl : t = u := (List.cons.inj heq).1
  refine ⟨fun hk => ?_, fun hk => by rw [hk] at hu; cases hu⟩
  obtain ⟨us, m, tail, heq, hfactor, -⟩ := NumExpr.first h
  cases hfactor with
  | paren => simp at heq
  | sign hop hfactor =>
    have := hfactor.ne_nil
    simp_all
  | call hcall =>
    cases hcall
    simp at heq
  | float hlit | int hlit | var hlit =>
    obtain rfl : t = _ := (List.cons.inj heq).1
    rw [hlit] at hk
    cases hk

/-- Two places with one offset are those before and behind the last token of the text. -/
theorem places_of_twins {s₁ s₂ : Stream} {front after : List Token} (h₁ : Reads whole front s₁)
    (h₂ : Reads whole after s₂) (ht : Twins s₁ s₂ ∨ Twins s₂ s₁) :
    ∃ us l e, Reads whole us (.more l (.finish e)) ∧
      (l.token.kind = .leftParen ∨ l.token.kind = .bang) ∧
      (front = us ∨ front = us ++ [l.token]) := by
  rcases ht with ⟨l, e, rfl, rfl, -, hl⟩ | ⟨l, e, rfl, rfl, -, hl⟩
  · exact ⟨front, l, e, h₁, hl, .inl rfl⟩
  · refine ⟨after, l, e, h₂, hl, .inr ?_⟩
    exact h₁.tokens_determined (h₂.append (.single l (.finish e)))

theorem reads_last {l e : Placed} {ts : List Token} {s' : Stream}
    (h : Reads (.more l (.finish e)) ts s') :
    ts = [] ∨ ts = [l.token] ∧ s'.token = e.token := by
  cases h with
  | nil => exact .inl rfl
  | cons h =>
    cases h
    exact .inr ⟨rfl, rfl⟩

/-- Of two places with one offset, no number is read at either, and what is blamed is blamed alike.
-/
theorem Fits.twin {s₁ s₂ : Stream} {front after : List Token} {entry : Except Token Parsed}
    (hw : whole.Proper) (h₁ : Reads whole front s₁) (h₂ : Reads whole after s₂)
    (ht : Twins s₁ s₂ ∨ Twins s₂ s₁) (h : Fits whole front entry) : Fits whole after entry := by
  obtain ⟨us, l, e, hr, hl, hplaces⟩ := places_of_twins h₁ h₂ ht
  have hend : Reads whole (us ++ [l.token]) (.finish e) := hr.append (.single l (.finish e))
  have he : e.token.kind = .endOfInput := hend.proper hw
  cases entry with
  | ok r =>
    obtain ⟨n, s'⟩ := r
    obtain ⟨ts, hts, -, hnum⟩ := h
    have hnum := hnum.derived
    have hts : Reads whole (front ++ ts) s' := hts
    have hne := hnum.ne_nil
    rcases hplaces with rfl | rfl
    · rcases reads_last (hr.after hts) with rfl | ⟨rfl, -⟩
      · exact absurd rfl hne
      · obtain ⟨hparen, hbang⟩ := NumExpr.ne_single hnum
        exact (hl.elim hparen hbang).elim
    · have hts := hend.after hts
      cases hts
      exact absurd rfl hne
  | error t =>
    obtain ⟨vs, s', hvs, ht, hv, hd⟩ := h
    refine ⟨vs, s', hvs, ht, hv, fun hk hne => ?_⟩
    obtain ⟨ts, rfl, hts⟩ := hd hk hne
    rcases hplaces with rfl | rfl
    · rcases reads_last (hr.after hvs) with rfl | ⟨rfl, hs'⟩
      · obtain rfl : l.token = t := by
          rw [List.append_nil] at hvs
          rw [← ht, ← hr.determined hvs]
          rfl
        rcases hl with hl | hl
        · exact absurd hts (not_decided_of_samples [.intLiteral, .rightParen] hl (by decide)
            fun _ _ _ => ⟨_, _, rfl⟩)
        · rw [hl] at hk
          cases hk
      · rw [← ht, hs'] at hne
        exact absurd he hne
    · have hvs := hend.after hvs
      cases hvs
      exact absurd (ht ▸ he) hne

theorem Remembers.cons {memo : Memo} {entry : Except Token Parsed} (hw : whole.Proper)
    (ho : whole.Ordered) (h : Remembers whole memo) (hr : Reads whole before s)
    (hs : AtOperand whole s) (he : Fits whole before entry) :
    Remembers whole ((s.head.stop, entry) :: memo) := by
  intro before' s' entry' hr' hs' hl
  rcases lookup_cons_cases hw ho hs hs' hl with ⟨rfl, rfl | ht⟩ | hl
  · rwa [← hr.tokens_determined hr']
  · exact he.twin hw hr hr' ht
  · exact h before' s' entry' hr' hs' hl

/-! ## Vouching -/

/-- From a memo that is vouched for, the step leaves such a memo, its results have a property and
are decided where it is sure, and it blames deservedly. -/
def Vouches (whole : Stream) (before : List Token) (firm : Bool) (p : Parsing (α × Stream))
    (D : Verdict α) (post : List Token → α → Stream → Prop) : Prop :=
  ∀ memo, Remembers whole memo → match p memo with
    | .ok r memo' => Remembers whole memo' ∧ Gained whole before firm D post r
    | .error (.unexpected t) memo' => Remembers whole memo' ∧ Deserved whole before D t
    | .error _ _ => True

section

variable {firm firm' : Bool} {p p' : Parsing (α × Stream)} {D D' : Verdict α}
  {q q' : ι → Stream → Parsing (α × Stream)} {post post' : List Token → α → Stream → Prop}

theorem vouches_tooDeep : Vouches whole before firm (throw .tooDeep) D post :=
  fun _ _ => trivial

theorem vouches_pure {a : α} (hr : Reads whole before s) (hD : D [] s.token (some a))
    (h : post [] a s) : Vouches whole before firm (pure (a, s)) D post :=
  fun _ hm => ⟨hm, [], by rwa [List.append_nil], fun _ => hD, h⟩

theorem vouches_refuse (hr : Reads whole before s) (hv : Viable before)
    (hD : s.kind.ofBools = false → D [] s.token none) :
    Vouches whole before firm (refuse s) D post :=
  fun _ hm => ⟨hm, before, s, hr, rfl, hv, fun hk _ => ⟨[], by rw [List.append_nil], hD hk⟩⟩

theorem Vouches.imp (h : Vouches whole before firm p D post) (hr : Reads whole before s)
    (hnone : ∀ ts s', Reads s ts s' → s'.kind.ofBools = false → D ts s'.token none →
      D' ts s'.token none)
    (hsome : ∀ ts a s', Reads s ts s' → post ts a s' → (Sure firm s'.kind → D ts s'.token (some a)) →
      (Sure firm' s'.kind → D' ts s'.token (some a)) ∧ post' ts a s') :
    Vouches whole before firm' p D' post' := by
  intro memo hm
  have hp := h memo hm
  split at hp
  · obtain ⟨hm', ts, hts, hd, hpost⟩ := hp
    obtain ⟨hd', hpost'⟩ := hsome ts _ _ (hr.after hts) hpost hd
    exact ⟨hm', ts, hts, hd', hpost'⟩
  · obtain ⟨hm', hd⟩ := hp
    refine ⟨hm', ?_⟩
    rw [← List.append_nil before] at hd
    refine hd.imp rfl fun ts hk hs' hts => ?_
    obtain ⟨s', hs', rfl⟩ := hs'
    rw [List.append_nil] at hs'
    exact hnone ts s' (hr.after hs') hk hts
  · trivial

theorem Vouches.weaken (h : Vouches whole before firm p D post) (hr : Reads whole before s)
    (hpost : ∀ ts a s', Reads s ts s' → post ts a s' → post' ts a s') :
    Vouches whole before firm p D post' :=
  h.imp hr (fun _ _ _ _ hd => hd) fun ts a s' hts ha hd => ⟨hd, hpost ts a s' hts ha⟩

theorem Vouches.congr (h : Vouches whole before firm p (Decided q) post)
    (hr : Reads whole before s) (hq : ∀ i s₁, s₁.token = s.token → q' i s₁ = q i s₁) :
    Vouches whole before firm p (Decided q') post := by
  have hcongr {ts : List Token} {s' : Stream} {v : Option α} (hts : Reads s ts s')
      (hd : Decided q ts s'.token v) : Decided q' ts s'.token v := by
    refine hd.congr fun i s₁ hs₁ => hq i s₁ ?_
    exact Option.some.inj (hs₁.symm.trans (hts.head?_eq rfl))
  exact h.imp hr (fun ts s' hts _ hd => hcongr hts hd) fun ts a s' hts ha hd =>
    ⟨fun hsure => hcongr hts (hd hsure), ha⟩

theorem Vouches.ite (c : Kind → Prop) [DecidablePred c] (hr : Reads whole before s)
    (h : c s.kind → Vouches whole before firm p (Decided q) post)
    (h' : ¬c s.kind → Vouches whole before firm p' (Decided q') post) :
    Vouches whole before firm (if c s.kind then p else p')
      (Decided fun i s => if c s.kind then q i s else q' i s) post := by
  by_cases hc : c s.kind
  · rw [if_pos hc]
    refine (h hc).congr hr fun i s₁ hs₁ => if_pos ?_
    rwa [Stream.kind, hs₁]
  · rw [if_neg hc]
    refine (h' hc).congr hr fun i s₁ hs₁ => if_neg ?_
    rwa [Stream.kind, hs₁]

theorem Vouches.of_succ {q q' : Nat → Stream → Parsing (α × Stream)}
    (h : Vouches whole before firm p (Decided q') post) (hr : Reads whole before s)
    (h0 : ∀ s, q 0 s = throw .tooDeep)
    (hq : ∀ depth s₁, s₁.token = s.token → q (depth + 1) s₁ = q' depth s₁) :
    Vouches whole before firm p (Decided q) post := by
  have hsucc : Vouches whole before firm p (Decided fun depth => q (depth + 1)) post :=
    h.congr hr hq
  exact hsucc.imp hr (fun _ _ _ _ hd => hd.of_succ h0) fun _ _ _ _ ha hd =>
    ⟨fun hsure => (hd hsure).of_succ h0, ha⟩

/-- The contract of a rule for a symbol: it stands at a place for the symbol. -/
def VouchesRule (whole : Stream) (firm : Bool) (Symbol : List Token → α → Prop)
    (follow : Kind → Prop) (pre : Stream → Prop) (p : Stream → Parsing (α × Stream))
    (q : ι → Stream → Parsing (α × Stream)) : Prop :=
  ∀ before s, Reads whole before s → pre s → Hole Symbol before s →
    Vouches whole before firm (p s) (Decided q) (ReadAs whole Symbol follow)

/-! ### Sequences -/

theorem Vouches.bind_imp {f : α × Stream → Parsing (β × Stream)} {D' : Verdict β}
    {post' : List Token → β → Stream → Prop} (h : Vouches whole before firm p D post)
    (hnone : ∀ ts t, D ts t none → D' ts t none)
    (hf : ∀ ts a s', Reads whole (before ++ ts) s' → post ts a s' →
      (Sure firm s'.kind → D ts s'.token (some a)) →
      Vouches whole (before ++ ts) firm' (f (a, s')) (fun us => D' (ts ++ us))
        fun us => post' (ts ++ us)) :
    Vouches whole before firm' (p >>= f) D' post' := by
  intro memo hm
  have hp := h memo hm
  simp only [Bind.bind, EStateM.bind]
  cases hpm : p memo with
  | ok r memo₁ =>
    rw [hpm] at hp
    obtain ⟨hm₁, ts, hts, hd, hpost⟩ := hp
    have hq := hf ts r.1 r.2 hts hpost hd memo₁ hm₁
    dsimp only
    cases hfm : f r memo₁ with
    | ok b memo₂ =>
      rw [hfm] at hq
      obtain ⟨hm₂, us, hus, hd', hpost'⟩ := hq
      exact ⟨hm₂, ts ++ us, by rwa [← List.append_assoc], hd', hpost'⟩
    | error e memo₂ =>
      rw [hfm] at hq
      cases e with
      | unexpected t => exact ⟨hq.1, hq.2.imp rfl fun _ _ _ hd => hd⟩
      | _ => trivial
  | error e memo₁ =>
    rw [hpm] at hp
    cases e with
    | unexpected t =>
      refine ⟨hp.1, ?_⟩
      rw [← List.append_nil before] at hp
      exact hp.2.imp rfl fun ts _ _ hd => hnone ts t hd
    | _ => trivial

theorem Vouches.map {post' : List Token → β → Stream → Prop}
    (h : Vouches whole before firm p D post) (f : α → β)
    (hf : ∀ ts a s', post ts a s' → post' ts (f a) s') :
    Vouches whole before firm (p >>= fun r => pure (f r.1, r.2))
      (fun ts next v => ∃ w, D ts next w ∧ v = w.map f) post' := by
  intro memo hm
  have hp := h memo hm
  simp only [Bind.bind, EStateM.bind]
  cases hpm : p memo with
  | ok r memo' =>
    rw [hpm] at hp
    obtain ⟨hm', ts, hts, hd, hpost⟩ := hp
    exact ⟨hm', ts, hts, fun hs => ⟨_, hd hs, rfl⟩, hf ts r.1 r.2 hpost⟩
  | error e memo' =>
    rw [hpm] at hp
    cases e with
    | unexpected t =>
      refine ⟨hp.1, ?_⟩
      rw [← List.append_nil before] at hp
      exact hp.2.imp rfl fun _ _ _ hd => ⟨none, hd, rfl⟩
    | _ => trivial

/-- The next step comes to its end at once, as a step that is not sure either if it does not
fail. -/
def Halts (firm : Bool) (p : Parsing (α × Stream)) (s : Stream) : Prop :=
  p = refuse s ∨ firm = false ∧ ∃ a, p = pure (a, s)

theorem Vouches.of_halts (h : Vouches whole before firm p D post) (hp : Halts firm p s)
    (hs : s.kind.ofBools = true) : Vouches whole before firm p D' post := by
  intro memo hm
  have h := h memo hm
  rcases hp with rfl | ⟨rfl, a, rfl⟩
  · obtain ⟨hm', us, s', hus, ht, hv, -⟩ := h
    refine ⟨hm', us, s', hus, ht, hv, fun hk => ?_⟩
    rw [Stream.kind, hk] at hs
    cases hs
  · obtain ⟨hm', ts, hts, -, hpost⟩ := h
    refine ⟨hm', ts, hts, fun hsure => ?_, hpost⟩
    rcases hsure with hsure | hsure
    · cases hsure
    · rw [show s.kind.ofBools = false from hsure] at hs
      cases hs

/-- One step after another. Where the first is not sure of its result the other one halts. -/
theorem Vouches.bind {f : α × Stream → Parsing (β × Stream)}
    {g : ι → α × Stream → Parsing (β × Stream)} {post' : List Token → β → Stream → Prop}
    (h : Vouches whole before firm p (Decided q) post)
    (hf : ∀ ts a s', Reads whole (before ++ ts) s' → post ts a s' →
      Vouches whole (before ++ ts) firm' (f (a, s')) (Decided fun i s => g i (a, s))
        fun us => post' (ts ++ us))
    (hhalt : ∀ ts a s', post ts a s' → s'.kind.ofBools = true →
      firm = true ∨ Halts firm' (f (a, s')) s') :
    Vouches whole before firm' (p >>= f) (Decided fun i s => q i s >>= g i) post' := by
  refine h.bind_imp (fun ts t hd => hd.bind_none) fun ts a s' hts hpost hd => ?_
  have hf := hf ts a s' hts hpost
  by_cases hsure : Sure firm s'.kind
  · refine hf.imp hts (fun us s₂ hus _ hd' => ?_) fun us b s₂ hus hb hd' => ⟨fun hs => ?_, hb⟩
    · exact (hd hsure).bind hd' (hus.head?_eq rfl)
    · exact (hd hsure).bind (hd' hs) (hus.head?_eq rfl)
  · simp only [Sure, not_or, Bool.not_eq_false] at hsure
    exact hf.of_halts ((hhalt ts a s' hpost hsure.2).resolve_left hsure.1) hsure.2

theorem Vouches.bind_firm {f : α × Stream → Parsing (β × Stream)}
    {g : ι → α × Stream → Parsing (β × Stream)} {post' : List Token → β → Stream → Prop}
    (h : Vouches whole before true p (Decided q) post)
    (hf : ∀ ts a s', Reads whole (before ++ ts) s' → post ts a s' →
      Vouches whole (before ++ ts) firm' (f (a, s')) (Decided fun i s => g i (a, s))
        fun us => post' (ts ++ us)) :
    Vouches whole before firm' (p >>= f) (Decided fun i s => q i s >>= g i) post' :=
  h.bind hf fun _ _ _ _ _ => .inl rfl

theorem Vouches.advance_imp {f : Stream → Parsing (α × Stream)} (hw : whole.Proper)
    (hr : Reads whole before s) (hk : s.kind ≠ .endOfInput)
    (h : ∀ s', Reads s [s.token] s' → Reads whole (before ++ [s.token]) s' →
      Vouches whole (before ++ [s.token]) firm (f s') (fun us => D (s.token :: us))
        fun us => post (s.token :: us)) :
    Vouches whole before firm (advance s >>= f) D post := by
  unfold advance
  rcases (hr.proper hw).next_cases hk with ⟨s', hnext, hs'⟩ | ⟨e, hnext⟩
  · rw [hnext]
    intro memo hm
    have hf := h s' hs' (hr.append hs') memo hm
    change (match f s' memo with
      | .ok r memo' => Remembers whole memo' ∧ Gained whole before firm D post r
      | .error (.unexpected t) memo' => Remembers whole memo' ∧ Deserved whole before D t
      | .error _ _ => True)
    split at hf
    · obtain ⟨hm', ts, hts, hd, hpost⟩ := hf
      exact ⟨hm', s.token :: ts, by simpa using hts, hd, hpost⟩
    · exact ⟨hf.1, hf.2.imp rfl fun _ _ _ hd => hd⟩
    · trivial
  · rw [hnext]
    exact fun _ _ => trivial

theorem Vouches.advance {f : Stream → Parsing (α × Stream)} (hw : whole.Proper)
    (hr : Reads whole before s) (hk : s.kind ≠ .endOfInput)
    (h : ∀ s', Reads s [s.token] s' → Reads whole (before ++ [s.token]) s' →
      Vouches whole (before ++ [s.token]) firm (f s') (Decided q) fun us => post (s.token :: us)) :
    Vouches whole before firm (advance s >>= f) (Decided fun i s => Parsing.advance s >>= q i)
      post := by
  refine Vouches.advance_imp hw hr hk fun s' hs' hr' => ?_
  exact (h s' hs' hr').imp hr' (fun _ _ _ _ hd => hd.advance) fun _ _ _ _ ha hd =>
    ⟨fun hsure => (hd hsure).advance, ha⟩

theorem Vouches.eat {kind : Kind} {f : Stream → Parsing (α × Stream)} (hw : whole.Proper)
    (hr : Reads whole before s) (hv : Viable before) (hk : kind ≠ .endOfInput)
    (h : ∀ s', s.kind = kind → Reads s [s.token] s' → Reads whole (before ++ [s.token]) s' →
      Vouches whole (before ++ [s.token]) firm (f s') (Decided q) fun us => post (s.token :: us)) :
    Vouches whole before firm (eat kind s >>= f) (Decided fun i s => Parsing.eat kind s >>= q i)
      post := by
  by_cases hs : s.kind = kind
  · have hadvance : Vouches whole before firm (Parsing.advance s >>= f) _ post :=
      Vouches.advance hw hr (hs ▸ hk) fun s' hs' hr' => h s' hs hs' hr'
    have heat {s₁ : Stream} (hs₁ : s₁.kind = kind) : Parsing.eat kind s₁ = Parsing.advance s₁ :=
      if_pos hs₁
    rw [heat hs]
    refine hadvance.congr hr fun i s₁ hs₁ => ?_
    rw [heat (show s₁.kind = kind by rw [Stream.kind, hs₁]; exact hs)]
  · have heat : Parsing.eat kind s >>= f = refuse s := by
      rw [Parsing.eat, if_neg hs]
      rfl
    rw [heat]
    exact vouches_refuse hr hv fun _ => decided_eat_none hs

theorem halts_eat {kind : Kind} {f : Stream → Parsing (α × Stream)} (hk : s.kind ≠ kind) :
    Halts firm (Parsing.eat kind s >>= f) s := by
  refine .inl ?_
  rw [Parsing.eat, if_neg hk]
  rfl

/-- The second token says which of two rules is at work, and both accept the first one. -/
theorem Vouches.peek {kind : Kind} (hw : whole.Proper) (hr : Reads whole before s)
    (hk : s.kind ≠ .endOfInput)
    (h : Vouches whole before firm p (Decided q) post)
    (h' : Vouches whole before firm p' (Decided q') post)
    (hpost : ∀ ts a s', post ts a s' → ts ≠ []) (hq : ¬Decided q [] s.token none)
    (hq' : ¬Decided q' [] s.token none) :
    Vouches whole before firm
      (Parsing.advance s >>= fun rest => if rest.kind = kind then p else p')
      (Decided fun i s => Parsing.advance s >>= fun rest =>
        if rest.kind = kind then q i s else q' i s) post := by
  unfold Parsing.advance
  rcases (hr.proper hw).next_cases hk with ⟨s₁, hnext, hs₁⟩ | ⟨e, hnext⟩
  · rw [hnext]
    have hboth : Vouches whole before firm (if s₁.kind = kind then p else p')
        (Decided (if s₁.kind = kind then q else q')) post := by
      split
      · exact h
      · exact h'
    have hblamed : ¬Decided (if s₁.kind = kind then q else q') [] s.token none := by
      split <;> assumption
    have hpeek {ts : List Token} {s' : Stream} {v : Option α} (hts : Reads s ts s') (hne : ts ≠ [])
        (hd : Decided (if s₁.kind = kind then q else q') ts s'.token v) :
        Decided (fun i s => Parsing.advance s >>= fun rest =>
          if rest.kind = kind then q i s else q' i s) ts s'.token v := by
      refine hd.peek hne ?_
      cases hts with
      | nil => exact absurd rfl hne
      | cons hts =>
        cases hs₁ with
        | cons hs₁ =>
          cases hs₁
          exact hts.head?_eq rfl
    refine hboth.imp hr (fun ts s' hts _ hd => hpeek hts ?_ hd) fun ts a s' hts ha hd =>
      ⟨fun hs => hpeek hts (hpost ts a s' ha) (hd hs), ha⟩
    rintro rfl
    obtain rfl := hts.eq_of_nil
    exact hblamed hd
  · rw [hnext]
    exact fun _ _ => trivial

/-! ### Two readings -/

/-- The first reading may fail on any token. Where it is taken it has to be decided, and where not
the second reading decides. -/
theorem Vouches.prefer {p p' : Parsing Parsed} {D₁ D₂ D : Verdict Node} {refused : Kind → Bool}
    {post₁ post₂ post : List Token → Node → Stream → Prop} (hr : Reads whole before s)
    (h : Vouches whole before true p D₁ post₁) (h' : Vouches whole before firm p' D₂ post₂)
    (hfirst : ∀ ts n s', Reads s ts s' → post₁ ts n s' → refused s'.kind = false →
      D₁ ts s'.token (some n) → D ts s'.token (some n) ∧ post ts n s')
    (hnone : ∀ ts t, t.kind.ofBools = false → D₂ ts t none → D ts t none)
    (hsome : ∀ ts n s', post₂ ts n s' → (Sure firm s'.kind → D₂ ts s'.token (some n)) →
      (Sure firm' s'.kind → D ts s'.token (some n)) ∧ post ts n s') :
    Vouches whole before firm' (prefer p refused p') D post := by
  have hsecond : Vouches whole before firm' p' D post :=
    h'.imp hr (fun ts s' _ hk hd => hnone ts s'.token hk hd) fun ts n s' _ hn hd =>
      hsome ts n s' hn hd
  intro memo hm
  have hp := h memo hm
  simp only [Parsing.prefer, attempt, Bind.bind, EStateM.bind]
  cases hpm : p memo with
  | ok r memo₁ =>
    rw [hpm] at hp
    obtain ⟨hm₁, ts, hts, hd, hpost⟩ := hp
    dsimp only
    by_cases hrefused : refused r.2.kind = true
    · rw [if_pos hrefused]
      exact hsecond memo₁ hm₁
    · rw [if_neg hrefused]
      obtain ⟨hd', hpost'⟩ :=
        hfirst ts r.1 r.2 (hr.after hts) hpost (by simpa using hrefused) (hd (.inl rfl))
      exact ⟨hm₁, ts, hts, fun _ => hd', hpost'⟩
  | error e memo₁ =>
    rw [hpm] at hp
    cases e with
    | unexpected t => exact hsecond memo₁ hp.1
    | _ => trivial

end

/-! ### The memo -/

/-- An entry is taken from a memo that is vouched for, or made by a step that is. -/
theorem Vouches.byOffset {p : Parsing Parsed} (hw : whole.Proper) (ho : whole.Ordered)
    (hr : Reads whole before s) (hs : AtOperand whole s)
    (h : Vouches whole before true p (Decided (numExpr .never)) (IsNumber whole)) :
    Vouches whole before true (Reuse.byOffset s.head.stop p) (Decided (numExpr .never))
      (IsNumber whole) := by
  intro memo hm
  unfold Reuse.byOffset
  cases hl : memo.lookup s.head.stop with
  | some entry =>
    have hfits := hm before s entry hr hs hl
    cases entry with
    | ok r => exact ⟨hm, hfits⟩
    | error t => exact ⟨hm, hfits⟩
  | none =>
    have hp := h memo hm
    dsimp only
    cases hpm : p memo with
    | ok r memo₁ =>
      rw [hpm] at hp
      exact ⟨hp.1.cons hw ho hr hs hp.2, hp.2⟩
    | error e memo₁ =>
      rw [hpm] at hp
      cases e with
      | unexpected t => exact ⟨hp.1.cons hw ho hr hs hp.2, hp.2⟩
      | _ => trivial

end Parsing

end LittleLang
