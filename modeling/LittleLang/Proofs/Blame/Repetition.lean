import LittleLang.Proofs.Blame.Vouching

/-!
# Loops are vouched for

A loop of the parser runs for a number of rounds, which differs from one stream to another. So its
verdict holds for all numbers of rounds that are enough for the tokens it reads (`DecidedFrom`).
There is one lemma for a chain of operands, one for a list with commas and one for items up to an
end. -/

open LittleLang.Stream LittleLang.Grammar

namespace LittleLang.Parsing

variable {ι α : Type} {whole : Stream} {firm : Bool} {pre : Stream → Prop}

/-- The tokens decide what the loop does, if it has a round for each of them and one more. -/
def DecidedFrom (q : Nat → ι → Stream → Parsing (α × Stream)) : Verdict α :=
  fun ts next v => ∀ rounds, ts.length < rounds → Decided (q rounds) ts next v

theorem decidedFrom_of_succ {q : Nat → ι → Stream → Parsing (α × Stream)} {ts : List Token}
    {next : Token} {v : Option α}
    (h : ∀ rounds, ts.length ≤ rounds → Decided (q (rounds + 1)) ts next v) :
    DecidedFrom q ts next v := by
  intro rounds hr
  obtain ⟨rounds, rfl⟩ := Nat.exists_eq_succ_of_ne_zero (Nat.ne_of_gt (Nat.zero_lt_of_lt hr))
  exact h rounds (Nat.le_of_lt_succ hr)

theorem DecidedFrom.decided {q : Nat → ι → Stream → Parsing (α × Stream)} {ts : List Token}
    {next : Token} {v : Option α} (h : DecidedFrom q ts next v) :
    Decided (fun i s => q s.length i s) ts next v := by
  intro i s s' hp hr ht
  have hlen : ts.length < s.length := by
    have := hr.length
    have := s'.length_pos
    omega
  exact h s.length hlen i s s' hp hr ht

/-! ## Chains -/

section

variable {isOperator : Kind → Bool} {operand : Stream → Parsing Parsed}
  {q : ι → Stream → Parsing Parsed} {op t next : Token} {ts us : List Token} {left right : Node}
  {v : Option Node}

theorem chainFrom_operator {s : Stream} (hop : isOperator op.kind = true) (hs : s.token = op)
    (rounds : Nat) :
    chainFrom isOperator operand (rounds + 1) left s =
      advance s >>= fun rest => operand rest >>= fun r =>
        chainFrom isOperator operand rounds (.binary op left r.1) r.2 := by
  subst hs
  exact if_pos hop

theorem decidedFrom_chain_stop (hnext : isOperator next.kind = false) (left : Node) :
    DecidedFrom (fun rounds i => chainFrom isOperator (q i) rounds left) [] next (some left) := by
  refine decidedFrom_of_succ fun rounds _ => (decided_pure left next).congr fun i s hs => ?_
  obtain rfl : next = s.token := Option.some.inj hs
  exact if_neg (Bool.eq_false_iff.mp hnext)

theorem decidedFrom_chain_refused (hop : isOperator op.kind = true) (h : Decided q us t none) :
    DecidedFrom (fun rounds i => chainFrom isOperator (q i) rounds left) (op :: us) t none :=
  decidedFrom_of_succ fun rounds _ => h.bind_none.advance.congr fun _ _ hs =>
    chainFrom_operator hop (Option.some.inj hs).symm rounds

theorem decidedFrom_chain_step {u : Token} (hop : isOperator op.kind = true)
    (h : Decided q us u (some right))
    (hrest : DecidedFrom (fun rounds i => chainFrom isOperator (q i) rounds (.binary op left right))
      ts next v) (hu : (ts ++ [next]).head? = some u) :
    DecidedFrom (fun rounds i => chainFrom isOperator (q i) rounds left) (op :: (us ++ ts)) next
      v := by
  refine decidedFrom_of_succ fun rounds hr => ?_
  simp only [List.length_cons, List.length_append] at hr
  have hstep : Decided (fun i s => q i s >>= fun r =>
      chainFrom isOperator (q i) rounds (.binary op left r.1) r.2) (us ++ ts) next v :=
    h.bind (hrest rounds (by omega)) hu
  exact hstep.advance.congr fun _ _ hs =>
    chainFrom_operator hop (Option.some.inj hs).symm rounds

theorem decided_chain {u : Token} (h : Decided q us u (some left))
    (hrest : DecidedFrom (fun rounds i => chainFrom isOperator (q i) rounds left) ts next v)
    (hu : (ts ++ [next]).head? = some u) :
    Decided (fun i => chain isOperator (q i)) (us ++ ts) next v := by
  unfold Parsing.chain
  refine h.bind (fun i s s' hp hr ht => ?_) hu
  have hloop := hrest.decided i s s' hp hr ht
  dsimp only at hloop ⊢
  by_cases hop : isOperator s.kind = true
  · rwa [if_pos hop]
  · rw [if_neg hop]
    obtain ⟨rounds, hl⟩ := Nat.exists_eq_succ_of_ne_zero (Nat.ne_of_gt s.length_pos)
    rwa [hl, chainFrom, if_neg hop] at hloop

variable {Operand : List Token → Node → Prop} {follow : Kind → Prop}

/-- From a place inside a chain, the loop reads the rest of it. -/
theorem vouches_chainFrom {ks : List Kind} {n₀ : Node} (hw : whole.Proper)
    (hend : isOperator .endOfInput = false)
    (hnext : ∀ s s', AtEnd whole s → isOperator s.kind = true → Reads s [s.token] s' → pre s')
    (h : VouchesRule whole true Operand follow pre operand q) (hks : areSpelled ks = true)
    (hsample : Operand (samples ks) n₀) {before : List Token} {s : Stream}
    (hole : Hole (Chain isOperator Operand) before s) (rounds : Nat) {left : Node} {s₁ : Stream}
    (hr : Reads whole (before ++ ts) s₁) (hts : ts.head? = some s.token)
    (hdone : ReadAs whole (Chain isOperator Operand) follow ts left s₁) (hrounds : s₁.length ≤ rounds) :
    Vouches whole (before ++ ts) true (chainFrom isOperator operand rounds left s₁)
      (DecidedFrom fun rounds i => chainFrom isOperator (q i) rounds left) fun us n s' =>
        ReadAs whole (Chain isOperator Operand) follow (ts ++ us) n s' ∧ isOperator s'.kind = false := by
  induction rounds generalizing ts left s₁ with
  | zero =>
    have := s₁.length_pos
    omega
  | succ rounds ih =>
    by_cases hop : isOperator s₁.kind = true
    · have hk : s₁.kind ≠ .endOfInput := by
        intro he
        rw [he, hend] at hop
        cases hop
      rw [chainFrom_operator hop rfl]
      refine Vouches.advance_imp hw hr hk fun s₂ hr₂ hr₂' => ?_
      have hinner : Hole Operand (before ++ (ts ++ [s₁.token])) s₂ :=
        hole.inner s₂ (ts ++ [s₁.token]) [] ks (by simp [hts]) rfl hks hsample fun us m hm => by
          have := Chain.snoc hdone.derived hop hm
          exact ⟨_, by simpa [samples] using this⟩
      rw [← List.append_assoc] at hinner
      refine (h _ s₂ hr₂' (hnext s₁ s₂ hdone.atEnd hop hr₂) hinner).bind_imp
        (fun us t hd => decidedFrom_chain_refused hop hd) fun us right s₃ hr₃ hpost hd => ?_
      have hlen : s₃.length ≤ rounds := by
        have := (hr₂.append (hr₂'.after hr₃)).length_lt (by simp)
        omega
      have hassoc : before ++ ts ++ [s₁.token] ++ us = before ++ (ts ++ s₁.token :: us) := by simp
      rw [hassoc] at hr₃ ⊢
      refine (ih hr₃ (by simp [hts]) ⟨.snoc hdone.derived hop hpost.1, hpost.2, hpost.3⟩
        hlen).imp hr₃
        (fun vs s' hvs _ hd' => ?_) fun vs n s' hvs hn hd' => ⟨fun hs => ?_, ?_⟩
      · exact decidedFrom_chain_step hop (hd (.inl rfl)) hd' (hvs.head?_eq rfl)
      · exact decidedFrom_chain_step hop (hd (.inl rfl)) (hd' hs) (hvs.head?_eq rfl)
      · simpa using hn
    · rw [chainFrom, if_neg hop]
      have hop : isOperator s₁.kind = false := by simpa using hop
      refine vouches_pure hr (decidedFrom_chain_stop hop left) ?_
      rw [List.append_nil]
      exact ⟨hdone, hop⟩

theorem vouches_chain {ks : List Kind} {n₀ : Node} (hw : whole.Proper)
    (hend : isOperator .endOfInput = false) (hne : ∀ ts n, Operand ts n → ts ≠ [])
    (hnext : ∀ s s', AtEnd whole s → isOperator s.kind = true → Reads s [s.token] s' → pre s')
    (h : VouchesRule whole true Operand follow pre operand q) (hks : areSpelled ks = true)
    (hsample : Operand (samples ks) n₀) :
    VouchesRule whole true (Chain isOperator Operand)
      (fun k => follow k ∧ isOperator k = false) pre (chain isOperator operand)
      fun i => chain isOperator (q i) := by
  intro before s hr hs hole
  have hfirst : Hole Operand before s := hole.start [] rfl fun us n hn _ =>
    ⟨n, by simpa [samples] using Chain.single hn⟩
  have hloop {left : Node} {s₁ : Stream} : (if isOperator s₁.kind = true then
      chainFrom isOperator operand s₁.length left s₁ else pure (left, s₁)) =
      chainFrom isOperator operand s₁.length left s₁ := by
    by_cases hop : isOperator s₁.kind = true
    · rw [if_pos hop]
    · obtain ⟨rounds, hl⟩ := Nat.exists_eq_succ_of_ne_zero (Nat.ne_of_gt s₁.length_pos)
      rw [if_neg hop, hl, chainFrom, if_neg hop]
  show Vouches whole before true (operand s >>= fun r => if isOperator r.2.kind = true then
    chainFrom isOperator operand r.2.length r.1 r.2 else pure (r.1, r.2)) _ _
  refine (h before s hr hs hfirst).bind_imp (fun us t hd => hd.bind_none)
    fun us left s₁ hr₁ hpost hd => ?_
  have hhead : us.head? = some s.token := (hr.after hr₁).head?_of_ne_nil (hne us left hpost.derived)
  have hdone : ReadAs whole (Chain isOperator Operand) follow us left s₁ :=
    ⟨.single hpost.derived, hpost.atEnd, hpost.follow⟩
  dsimp only
  rw [hloop]
  refine (vouches_chainFrom hw hend hnext h hks hsample hole s₁.length hr₁ hhead hdone
    (Nat.le_refl _)).imp hr₁ (fun vs s' hvs _ hd' => ?_) fun vs n s' hvs hn hd' =>
      ⟨fun hs => ?_, hn.1.derived, hn.1.atEnd, hn.1.follow, hn.2⟩
  · exact decided_chain (hd (.inl rfl)) hd' (hvs.head?_eq rfl)
  · exact decided_chain (hd (.inl rfl)) (hd' hs) (hvs.head?_eq rfl)

end

/-! ## Lists with commas -/

section

variable {item : Stream → Parsing (α × Stream)} {q : ι → Stream → Parsing (α × Stream)}
  {comma t next : Token} {ts us : List Token} {a : α} {v : Option (List α)}

theorem afterCommas_comma {s : Stream} (hs : s.kind = .comma) (rounds : Nat) :
    afterCommas item (rounds + 1) s = advance s >>= fun rest => item rest >>= fun r =>
      afterCommas item rounds r.2 >>= fun r' => pure (r.1 :: r'.1, r'.2) :=
  if_pos hs

theorem afterCommas_stop {s : Stream} (hs : s.kind ≠ .comma) (rounds : Nat) :
    afterCommas item rounds s = pure ([], s) := by
  cases rounds with
  | zero => rfl
  | succ rounds => exact if_neg hs

theorem decidedFrom_commas_stop (hnext : next.kind ≠ .comma) :
    DecidedFrom (fun rounds i => afterCommas (q i) rounds) [] next (some []) := by
  refine fun rounds _ => (decided_pure [] next).congr fun i s hs => ?_
  obtain rfl : next = s.token := Option.some.inj hs
  exact afterCommas_stop hnext rounds

theorem decidedFrom_commas_refused (hcomma : comma.kind = .comma) (h : Decided q us t none) :
    DecidedFrom (fun rounds i => afterCommas (q i) rounds) (comma :: us) t none := by
  refine decidedFrom_of_succ fun rounds _ => ?_
  have hstep : Decided (fun i s => q i s >>= fun r => afterCommas (q i) rounds r.2 >>= fun r' =>
      pure (r.1 :: r'.1, r'.2)) us t none := h.bind_none
  refine hstep.advance.congr fun i s hs => ?_
  obtain rfl : comma = s.token := Option.some.inj hs
  exact afterCommas_comma hcomma rounds

theorem decidedFrom_commas_step {u : Token} (hcomma : comma.kind = .comma)
    (h : Decided q us u (some a))
    (hrest : DecidedFrom (fun rounds i => afterCommas (q i) rounds) ts next v)
    (hu : (ts ++ [next]).head? = some u) :
    DecidedFrom (fun rounds i => afterCommas (q i) rounds) (comma :: (us ++ ts)) next
      (v.map (a :: ·)) := by
  refine decidedFrom_of_succ fun rounds hr => ?_
  simp only [List.length_cons, List.length_append] at hr
  have hstep : Decided (fun i s => q i s >>= fun r => afterCommas (q i) rounds r.2 >>= fun r' =>
      pure (r.1 :: r'.1, r'.2)) (us ++ ts) next (v.map (a :: ·)) :=
    h.bind ((hrest rounds (by omega)).map (a :: ·)) hu
  refine hstep.advance.congr fun i s hs => ?_
  obtain rfl : comma = s.token := Option.some.inj hs
  exact afterCommas_comma hcomma rounds

theorem decided_commaList {u : Token} (h : Decided q us u (some a))
    (hrest : DecidedFrom (fun rounds i => afterCommas (q i) rounds) ts next v)
    (hu : (ts ++ [next]).head? = some u) :
    Decided (fun i => commaList (q i)) (us ++ ts) next (v.map (a :: ·)) :=
  h.bind (hrest.decided.map (a :: ·)) hu

variable {Item : List Token → α → Prop} {follow : Kind → Prop}

/-- Where an item was read without being sure of it, no comma comes after it. -/
theorem vouches_rest {D : Verdict (List α)} {post post' : List Token → List α → Stream → Prop}
    {before : List Token} {s : Stream} {rounds : Nat} (hr : Reads whole before s)
    (h : Vouches whole before firm (afterCommas item rounds s)
      (DecidedFrom fun rounds i => afterCommas (q i) rounds) post)
    (hd : Sure firm s.kind → Decided q us s.token (some a))
    (hD : ∀ ts next v, Decided q us s.token (some a) →
      DecidedFrom (fun rounds i => afterCommas (q i) rounds) ts next v →
      (ts ++ [next]).head? = some s.token → D ts next (v.map (a :: ·)))
    (hpost : ∀ ts as s', post ts as s' → post' ts (a :: as) s') :
    Vouches whole before firm (afterCommas item rounds s >>= fun r => pure (a :: r.1, r.2)) D
      post' := by
  have hmap := h.map (a :: ·) hpost
  by_cases hsure : Sure firm s.kind
  · refine hmap.imp hr (fun ts s' hts _ hd' => ?_) fun ts as s' hts has hd' => ⟨fun hs => ?_, has⟩
    · obtain ⟨w, hw, hnone⟩ := hd'
      rw [hnone]
      exact hD ts s'.token w (hd hsure) hw (hts.head?_eq rfl)
    · obtain ⟨w, hw, hsome⟩ := hd' hs
      rw [hsome]
      exact hD ts s'.token w (hd hsure) hw (hts.head?_eq rfl)
  · simp only [Sure, not_or, Bool.not_eq_true, Bool.not_eq_false] at hsure
    obtain ⟨hfirm, hbools⟩ := hsure
    have hne : s.kind ≠ .comma := by
      intro hk
      rw [hk] at hbools
      cases hbools
    refine hmap.of_halts (.inr ⟨hfirm, [a], ?_⟩) hbools
    rw [afterCommas_stop hne]
    rfl

theorem vouches_afterCommas {ks : List Kind} {a₀ : α} (hw : whole.Proper)
    (hne : ∀ ts a, Item ts a → ts ≠ [])
    (hnext : ∀ s s', AtEnd whole s → s.kind = .comma → Reads s [s.token] s' → pre s')
    (h : VouchesRule whole firm Item follow pre item q) (hks : areSpelled ks = true)
    (hsample : Item (samples ks) a₀) (rounds : Nat) {before : List Token} {s s₁ : Stream}
    (hs : Reads whole before s) (hole : Hole (Separated Item) before s)
    (hr : Reads whole (before ++ ts) s₁) (ha : Item ts a) (hend : AtEnd whole s₁)
    (hrounds : s₁.length ≤ rounds) :
    Vouches whole (before ++ ts) firm (afterCommas item rounds s₁)
      (DecidedFrom fun rounds i => afterCommas (q i) rounds) fun us as s' =>
        ReadAs whole (Separated Item) (· ≠ .comma) (ts ++ us) (a :: as) s' := by
  induction rounds generalizing before s ts a s₁ with
  | zero =>
    have := s₁.length_pos
    omega
  | succ rounds ih =>
    by_cases hc : s₁.kind = .comma
    · have hhead : ts.head? = some s.token := (hs.after hr).head?_of_ne_nil (hne ts a ha)
      rw [afterCommas_comma hc]
      refine Vouches.advance_imp hw hr (by simp [hc]) fun s₂ hr₂ hr₂' => ?_
      have hole₂ : Hole (Separated Item) (before ++ (ts ++ [s₁.token])) s₂ :=
        hole.inner s₂ (ts ++ [s₁.token]) [] ks (by simp [hhead]) rfl hks (.single hsample)
          fun us as has => by
            have := Separated.cons ha hc has
            exact ⟨_, by simpa [samples] using this⟩
      rw [← List.append_assoc] at hole₂
      have hfirst : Hole Item (before ++ ts ++ [s₁.token]) s₂ :=
        hole₂.start [] rfl fun us b hb _ => ⟨[b], by simpa [samples] using Separated.single hb⟩
      refine (h _ s₂ hr₂' (hnext s₁ s₂ hend hc hr₂) hfirst).bind_imp
        (fun us t hd => decidedFrom_commas_refused hc hd) fun us b s₃ hr₃ hpost hd => ?_
      have hlen : s₃.length ≤ rounds := by
        have := (hr₂.append (hr₂'.after hr₃)).length_lt (by simp)
        omega
      refine vouches_rest hr₃ (ih hr₂' hole₂ hr₃ hpost.derived hpost.atEnd hlen) hd
        (fun vs next v hd' hvs hv => decidedFrom_commas_step hc hd' hvs hv) fun vs as s' has => ?_
      exact ⟨.cons ha hc has.derived, has.atEnd, has.follow⟩
    · rw [afterCommas_stop hc]
      refine vouches_pure hr (decidedFrom_commas_stop hc) ?_
      rw [List.append_nil]
      exact ⟨.single ha, hend, hc⟩

theorem vouches_commaList {ks : List Kind} {a₀ : α} (hw : whole.Proper)
    (hne : ∀ ts a, Item ts a → ts ≠ [])
    (hnext : ∀ s s', AtEnd whole s → s.kind = .comma → Reads s [s.token] s' → pre s')
    (h : VouchesRule whole firm Item follow pre item q) (hks : areSpelled ks = true)
    (hsample : Item (samples ks) a₀) :
    VouchesRule whole firm (Separated Item) (· ≠ .comma) pre (commaList item)
      fun i => commaList (q i) := by
  intro before s hr hs hole
  have hfirst : Hole Item before s :=
    hole.start [] rfl fun us b hb _ => ⟨[b], by simpa [samples] using Separated.single hb⟩
  refine (h before s hr hs hfirst).bind_imp (fun us t hd => hd.bind_none)
    fun us a s₁ hr₁ hpost hd => ?_
  exact vouches_rest hr₁ (vouches_afterCommas hw hne hnext h hks hsample s₁.length hr hole hr₁
    hpost.derived hpost.atEnd (Nat.le_refl _)) hd
    (fun vs next v hd' hvs hv => decided_commaList hd' hvs hv)
    fun vs as s' has => has

end

/-! ## Items up to an end -/

section

variable {isEnd : Kind → Bool} {item : Stream → Parsing Parsed} {q : ι → Stream → Parsing Parsed}
  {t next : Token} {ts us : List Token} {n : Node} {v : Option (List Node)}

theorem untilEnd_item {s : Stream} (hs : isEnd s.kind = false) (rounds : Nat) :
    untilEnd isEnd item (rounds + 1) s = item s >>= fun r =>
      untilEnd isEnd item rounds r.2 >>= fun r' => pure (r.1 :: r'.1, r'.2) :=
  if_neg (Bool.eq_false_iff.mp hs)

theorem decidedFrom_untilEnd_stop (hnext : isEnd next.kind = true) :
    DecidedFrom (fun rounds i => untilEnd isEnd (q i) rounds) [] next (some []) := by
  refine decidedFrom_of_succ fun rounds _ => (decided_pure [] next).congr fun i s hs => ?_
  obtain rfl : next = s.token := Option.some.inj hs
  exact if_pos hnext

theorem decidedFrom_untilEnd_refused (h : Decided q us t none)
    (hfirst : ∀ u, (us ++ [t]).head? = some u → isEnd u.kind = false) :
    DecidedFrom (fun rounds i => untilEnd isEnd (q i) rounds) us t none := by
  refine decidedFrom_of_succ fun rounds _ => ?_
  have hstep : Decided (fun i s => q i s >>= fun r => untilEnd isEnd (q i) rounds r.2 >>= fun r' =>
      pure (r.1 :: r'.1, r'.2)) us t none := h.bind_none
  exact hstep.congr fun i s hs => untilEnd_item (hfirst s.token hs) rounds

theorem decidedFrom_untilEnd_step {u : Token} (h : Decided q us u (some n)) (hus : us ≠ [])
    (hfirst : ∀ u, us.head? = some u → isEnd u.kind = false)
    (hrest : DecidedFrom (fun rounds i => untilEnd isEnd (q i) rounds) ts next v)
    (hu : (ts ++ [next]).head? = some u) :
    DecidedFrom (fun rounds i => untilEnd isEnd (q i) rounds) (us ++ ts) next
      (v.map (n :: ·)) := by
  obtain ⟨u₀, us, rfl⟩ := List.exists_cons_of_ne_nil hus
  refine decidedFrom_of_succ fun rounds hr => ?_
  simp only [List.length_cons, List.length_append] at hr
  have hstep : Decided (fun i s => q i s >>= fun r => untilEnd isEnd (q i) rounds r.2 >>= fun r' =>
      pure (r.1 :: r'.1, r'.2)) (u₀ :: us ++ ts) next (v.map (n :: ·)) :=
    h.bind ((hrest rounds (by omega)).map (n :: ·)) hu
  exact hstep.congr fun i s hs => untilEnd_item (hfirst s.token hs) rounds

theorem vouches_untilEnd {Good : List Token → Stream → Prop}
    (h : ∀ before s, Reads whole before s → Good before s → isEnd s.kind = false →
      Vouches whole before true (item s) (Decided q) fun ts _ s' => ts ≠ [] ∧ Good (before ++ ts) s')
    (rounds : Nat) {before : List Token} {s : Stream} (hr : Reads whole before s)
    (hgood : Good before s) (hrounds : s.length ≤ rounds) :
    Vouches whole before true (untilEnd isEnd item rounds s)
      (DecidedFrom fun rounds i => untilEnd isEnd (q i) rounds) fun ts _ s' =>
        Good (before ++ ts) s' ∧ isEnd s'.kind = true := by
  induction rounds generalizing before s with
  | zero =>
    have := s.length_pos
    omega
  | succ rounds ih =>
    by_cases hk : isEnd s.kind = true
    · rw [untilEnd, if_pos hk]
      refine vouches_pure hr (decidedFrom_untilEnd_stop hk) ?_
      rw [List.append_nil]
      exact ⟨hgood, hk⟩
    · have hk : isEnd s.kind = false := by simpa using hk
      rw [untilEnd_item hk]
      -- The first token is no end, whatever comes of the item.
      have hitem : Vouches whole before true (item s)
          (fun ts t v => (ts ++ [t]).head? = some s.token ∧ Decided q ts t v)
          fun ts _ s' => ts ≠ [] ∧ Good (before ++ ts) s' :=
        (h before s hr hgood hk).imp hr (fun ts s' hts _ hd => ⟨hts.head?_eq rfl, hd⟩)
          fun ts n s' hts hn hd => ⟨fun hs => ⟨hts.head?_eq rfl, hd hs⟩, hn⟩
      refine hitem.bind_imp (fun us t hd => ?_) fun us n s₁ hr₁ hpost hd => ?_
      · refine decidedFrom_untilEnd_refused hd.2 fun u hu => ?_
        obtain rfl : s.token = u := Option.some.inj (hd.1.symm.trans hu)
        exact hk
      · obtain ⟨hus, hgood₁⟩ := hpost
        obtain ⟨hhead, hd⟩ := hd (.inl rfl)
        have hlen : s₁.length ≤ rounds := by
          have := (hr.after hr₁).length_lt hus
          omega
        have hfirst (u : Token) (hu : us.head? = some u) : isEnd u.kind = false := by
          obtain rfl : s.token = u := by
            refine Option.some.inj (hhead.symm.trans ?_)
            simp [hu]
          exact hk
        have hrest : Vouches whole (before ++ us) true _ _ fun vs _ s' =>
            Good (before ++ (us ++ vs)) s' ∧ isEnd s'.kind = true :=
          (ih hr₁ hgood₁ hlen).map (n :: ·) fun vs ns s' hns => by rwa [← List.append_assoc]
        refine hrest.imp hr₁ (fun vs s' hvs _ hd' => ?_) fun vs ns s' hvs hns hd' =>
          ⟨fun hs => ?_, hns⟩
        · obtain ⟨w, hw, hnone⟩ := hd'
          rw [hnone]
          exact decidedFrom_untilEnd_step hd hus hfirst hw (hvs.head?_eq rfl)
        · obtain ⟨w, hw, hsome⟩ := hd' hs
          rw [hsome]
          exact decidedFrom_untilEnd_step hd hus hfirst hw (hvs.head?_eq rfl)

end

end LittleLang.Parsing
