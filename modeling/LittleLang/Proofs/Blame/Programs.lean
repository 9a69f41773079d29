import LittleLang.Proofs.Blame.Statements

/-!
# The rules for programs are vouched for

What was read of a program is a beginning for any parts that may come next (`Parted`). Behind some
statements these are a function declaration or the end of the text, since a list of statements takes
all that there are.
-/

open LittleLang.Stream LittleLang.Grammar

namespace LittleLang

namespace Parsing

variable {whole s : Stream} {before : List Token} {depth : Nat}

/-! ## Declarations -/

theorem parameter_eq (s : Stream) :
    parameter s =
      if s.kind.isType = true then
        advance s >>= fun name => eat .identifier name >>= fun rest =>
          pure (⟨s.token, name.token⟩, rest)
      else refuse s := by
  unfold parameter typeName
  split
  · simp only [bind_assoc, pure_bind]
  · rfl

theorem parameter_sample : ParameterOf (samples [.kwInt, .identifier])
    ⟨.sample .kwInt, .sample .identifier⟩ :=
  .mk rfl rfl

theorem vouches_parameter (hw : whole.Proper) :
    VouchesRule whole true ParameterOf anything anywhere parameter fun (_ : Nat) => parameter := by
  intro before s hr _ hole
  have hname {name : Stream} (hk : s.kind.isType = true)
      (hr' : Reads whole (before ++ [s.token]) name) :
      Vouches whole (before ++ [s.token]) true
        (eat .identifier name >>= fun rest => pure (⟨s.token, name.token⟩, rest))
        (Decided fun (_ : Nat) s₁ => eat .identifier s₁ >>= fun rest =>
          pure (⟨s.token, s₁.token⟩, rest))
        fun ts => ReadAs whole ParameterOf anything (s.token :: ts) := by
    have hviable : Viable (before ++ [s.token]) :=
      hole.viable_append [s.token] [.identifier] rfl rfl (.mk hk rfl)
    have hfixed : Vouches whole (before ++ [s.token]) true
        (eat .identifier name >>= fun rest => pure (⟨s.token, name.token⟩, rest))
        (Decided fun (_ : Nat) s₁ => eat .identifier s₁ >>= fun rest =>
          pure (⟨s.token, name.token⟩, rest))
        fun ts => ReadAs whole ParameterOf anything (s.token :: ts) := by
      refine Vouches.eat hw hr' hviable (by decide) fun s₂ hid hr₂ hr₂' => ?_
      exact vouches_pure hr₂' (decided_pure _ _) ⟨.mk hk hid,
        Within.next_end ⟨_, hr'⟩ hr₂ (by simp [hid, Kind.expects]), trivial⟩
    exact hfixed.congr hr' fun _ s₁ hs₁ => by rw [hs₁]
  have hfixed : Vouches whole before true
      (if s.kind.isType = true then advance s >>= fun name => eat .identifier name >>= fun rest =>
        pure (⟨s.token, name.token⟩, rest) else refuse s)
      (Decided fun (_ : Nat) s₁ => if s₁.kind.isType = true then
        advance s₁ >>= fun name => eat .identifier name >>= fun rest =>
          pure (⟨s.token, name.token⟩, rest) else refuse s₁)
      (ReadAs whole ParameterOf anything) := by
    refine Vouches.ite (fun k => k.isType = true) hr (fun hk => ?_) fun _ =>
      vouches_refuse hr hole.viable fun _ => decided_refuse _
    have hend : s.kind ≠ .endOfInput := by
      intro he
      simp [he, Kind.isType] at hk
    exact Vouches.advance hw hr hend fun s₁ _ hr₁' => hname hk hr₁'
  rw [parameter_eq]
  refine hfixed.congr hr fun _ s₁ hs₁ => ?_
  rw [parameter_eq, hs₁]

theorem vouches_parameters (hw : whole.Proper) (hr : Reads whole before s)
    (hole : Hole (Listed ParameterOf) before s) :
    Vouches whole before true (parameters s) (Decided fun (_ : Nat) => parameters)
      fun ts ps s' => Listed ParameterOf ts ps ∧ Within whole s' := by
  unfold parameters
  refine Vouches.ite (fun k => k.isType = true) hr (fun _ => ?_) fun _ => ?_
  · have hlist : Hole (Separated ParameterOf) before s := hole.start [] rfl fun ts ps hps _ =>
      ⟨ps, by simpa [samples] using Listed.items hps⟩
    refine (vouches_commaList hw (fun ts p hp => ?_) (fun _ _ _ _ _ => trivial)
      (vouches_parameter hw) rfl parameter_sample before s hr trivial hlist).weaken hr ?_
    · cases hp
      simp
    · exact fun ts ps s' _ hps => ⟨.items hps.derived, hps.atEnd.within⟩
  · exact vouches_pure hr (decided_pure _ _) ⟨.nil, before, hr⟩

theorem vouches_functionDeclaration (hw : whole.Proper) (ho : whole.Ordered) (depth : Nat) :
    VouchesRule whole true (Derivable Declaration) anything anywhere
      (functionDeclaration .byOffset depth) (functionDeclaration .never) := by
  intro before s hr _ hole
  refine Vouches.eat hw hr hole.viable (by decide) fun s₁ hfunc hr₁ hr₁' => ?_
  have hfixed : Vouches whole (before ++ [s.token]) true (do
      let ps ← parameters (← eat .leftParen (← eat .identifier s₁))
      let body ← block .byOffset depth (← eat .rightParen ps.2)
      return (.function s₁.token ps.1 body.1, body.2))
      (Decided fun depth name => do
        let ps ← parameters (← eat .leftParen (← eat .identifier name))
        let body ← block .never depth (← eat .rightParen ps.2)
        return (.function s₁.token ps.1 body.1, body.2))
      fun ts => ReadAs whole (Derivable Declaration) anything (s.token :: ts) := by
    have hviable₁ : Viable (before ++ [s.token]) :=
      hole.viable_append [s.token]
        [.identifier, .leftParen, .rightParen, .leftBrace, .rightBrace] rfl rfl
        (show Derivable Declaration _ .noOp from ⟨_, .mk hfunc rfl rfl .nil rfl (.empty rfl rfl)⟩)
    refine Vouches.eat hw hr₁' hviable₁ (by decide) fun s₂ hname hr₂ hr₂' => ?_
    rw [List.append_assoc] at hr₂' ⊢
    have hviable₂ : Viable (before ++ ([s.token] ++ [s₁.token])) :=
      hole.viable_append ([s.token] ++ [s₁.token])
        [.leftParen, .rightParen, .leftBrace, .rightBrace] rfl rfl
        (show Derivable Declaration _ .noOp from ⟨_, .mk hfunc hname rfl .nil rfl (.empty rfl rfl)⟩)
    refine Vouches.eat hw hr₂' hviable₂ (by decide) fun s₃ hl hr₃ hr₃' => ?_
    rw [List.append_assoc] at hr₃' ⊢
    have hparams : Hole (Listed ParameterOf)
        (before ++ ([s.token] ++ [s₁.token] ++ [s₂.token])) s₃ :=
      hole.inner s₃ ([s.token] ++ [s₁.token] ++ [s₂.token])
        [.rightParen, .leftBrace, .rightBrace] [] rfl rfl rfl .nil fun ts ps hps =>
          ⟨.noOp, _, .mk hfunc hname hl hps rfl (.empty rfl rfl)⟩
    refine (vouches_parameters hw hr₃' hparams).bind_firm fun ts ps s₄ hr₄ hps => ?_
    obtain ⟨hps, hs₄⟩ := hps
    rw [List.append_assoc] at hr₄ ⊢
    have hviable₄ : Viable (before ++ ([s.token] ++ [s₁.token] ++ [s₂.token] ++ ts)) :=
      hole.viable_append ([s.token] ++ [s₁.token] ++ [s₂.token] ++ ts)
        [.rightParen, .leftBrace, .rightBrace] rfl rfl
        (show Derivable Declaration _ .noOp from ⟨_, .mk hfunc hname hl hps rfl (.empty rfl rfl)⟩)
    dsimp only
    refine Vouches.eat hw hr₄ hviable₄ (by decide) fun s₅ hrt hr₅ hr₅' => ?_
    rw [List.append_assoc] at hr₅' ⊢
    have hs₅ : AtEnd whole s₅ := hs₄.next_end hr₅ (by simp [hrt, Kind.expects])
    have hdeclaration {us : List Token} {n : Node} (h : Block us n) :
        Derivable Declaration
          ([s.token] ++ [s₁.token] ++ [s₂.token] ++ ts ++ [s₄.token] ++ us) .noOp :=
      ⟨_, by simpa using Declaration.mk hfunc hname hl hps hrt h⟩
    have hbody : Hole (Derivable Block)
        (before ++ ([s.token] ++ [s₁.token] ++ [s₂.token] ++ ts ++ [s₄.token])) s₅ :=
      hole.inner s₅ ([s.token] ++ [s₁.token] ++ [s₂.token] ++ ts ++ [s₄.token]) []
        [.leftBrace, .rightBrace] rfl rfl rfl block_sample fun us n hblock => by
          obtain ⟨m, hm⟩ := hblock
          exact ⟨.noOp, by simpa [samples] using hdeclaration hm⟩
    refine ((vouchesStatementsAt hw ho depth).block _ s₅ hr₅' hs₅ hbody).bind_firm
      fun us body s₆ hr₆ hn => vouches_pure hr₆ (decided_pure _ _) ⟨?_, hn.atEnd, trivial⟩
    obtain ⟨m, hm⟩ := hn.derived
    simpa using hdeclaration hm
  refine hfixed.congr hr₁' fun depth name hname => ?_
  rw [hname]

/-! ## Parts -/

/-- What was read of a program goes on with any parts that may stand at the place. -/
structure Parted (whole : Stream) (before : List Token) (s : Stream) : Prop where
  atEnd : AtEnd whole s
  parts : ∀ us nodes, Parts us nodes →
    (s.kind.endsStatements = true → ∃ u vs, us = u :: vs ∧
      (u.kind = .endOfInput ∨ s.kind = .kwFunc ∧ u.kind = .kwFunc)) →
    ∃ nodes', Parts (before ++ us) nodes'

theorem Parted.viable (h : Parted whole before s) : Viable before := by
  obtain ⟨nodes, hnodes⟩ := h.parts (samples [.endOfInput]) [] (.finish rfl) fun _ =>
    ⟨_, _, rfl, .inl rfl⟩
  exact ⟨[], rfl, _, by simpa [samples] using Program.mk hnodes⟩

theorem Parted.declaration (h : Parted whole before s) (hk : s.kind = .kwFunc) :
    Hole (Derivable Declaration) before s := by
  refine ⟨h.viable, [], rfl, fun ts _ hn hts => ?_⟩
  obtain ⟨n, hn⟩ := hn
  obtain ⟨t, ts, rfl⟩ := List.exists_cons_of_ne_nil hn.ne_nil
  obtain rfl : t = s.token := Option.some.inj hts
  have hlast : (Token.sample .endOfInput).kind = .endOfInput := rfl
  obtain ⟨nodes, hnodes⟩ := h.parts _ _ (.function hn (.finish hlast)) fun _ =>
    ⟨_, _, rfl, .inr ⟨hk, hk⟩⟩
  exact ⟨_, by simpa [samples] using Program.mk hnodes⟩

theorem Parted.statements (h : Parted whole before s) (hk : s.kind.endsStatements = false) :
    Hole (Statements .rightBrace) before s := by
  refine ⟨h.viable, [], rfl, fun ts nodes hn _ => ?_⟩
  have hlast : (Token.sample .endOfInput).kind = .endOfInput := rfl
  obtain ⟨nodes', hnodes⟩ := h.parts _ _ (.statements (hn.closing (by rw [hlast]; rfl))
    (reached_throughReturn nodes) (.inr hlast) (.finish hlast)) fun h => by rw [hk] at h; cases h
  exact ⟨_, by simpa [samples] using Program.mk hnodes⟩

theorem vouches_programPart (hw : whole.Proper) (ho : whole.Ordered) (hr : Reads whole before s)
    (h : Parted whole before s) (hk : s.kind ≠ .endOfInput) :
    Vouches whole before true (programPart .byOffset depth s) (Decided (programPart .never))
      fun ts _ s' => ts ≠ [] ∧ Parted whole (before ++ ts) s' := by
  rw [programPart_eq]
  refine Vouches.congr ?_ hr fun depth s _ => programPart_eq .never depth s
  refine Vouches.ite (· = .kwFunc) hr (fun hfunc => ?_) fun hfunc =>
    Vouches.ite (· = .rightBrace) hr (fun _ => ?_) fun hbrace => ?_
  · refine (vouches_functionDeclaration hw ho depth before s hr trivial
      (h.declaration hfunc)).weaken hr fun ts _ s' hts hn => ?_
    obtain ⟨n, hn'⟩ := hn.derived
    refine ⟨hn'.ne_nil, hn.atEnd, fun us nodes hus _ => ?_⟩
    obtain ⟨t, ts, rfl⟩ := List.exists_cons_of_ne_nil hn'.ne_nil
    obtain rfl : t = s.token := Option.some.inj (hts.head?_of_ne_nil (by simp))
    rw [List.append_assoc]
    exact h.parts _ _ (.function hn' hus) fun _ => ⟨_, _, rfl, .inr ⟨hfunc, hfunc⟩⟩
  · exact vouches_refuse hr h.viable fun _ => decided_refuse _
  · have hstart : s.kind.endsStatements = false := by
      generalize s.kind = k at hk hfunc hbrace
      cases k <;> simp_all [Kind.endsStatements]
    refine ((vouchesStatementsAt hw ho depth).statementList before s hr h.atEnd
      (h.statements hstart)).weaken hr fun ts _ s' hts hn => ?_
    have hne : ts ≠ [] := by
      rintro rfl
      obtain rfl := hts.eq_of_nil
      rw [hn.follow] at hstart
      cases hstart
    refine ⟨hne, hn.atEnd, fun us nodes hus hnext => ?_⟩
    obtain ⟨u, vs, rfl, hu⟩ := hnext hn.follow
    obtain ⟨nodes', hnodes⟩ : ∃ nodes', Statements u.kind ts nodes' := hn.listing.before hne hu
    rw [List.append_assoc]
    refine h.parts _ _ (.statements hnodes (reached_throughReturn _) ?_ hus) fun h => ?_
    · exact hu.symm.imp (·.2) id
    · rw [hstart] at h
      cases h

theorem deserved_of_program {t : Token} {memo : Memo} (hw : whole.Proper) (ho : whole.Ordered)
    (h : program .byOffset depth whole [] = .error (.unexpected t) memo) :
    Deserved whole [] (Decided fun depth s =>
      untilEnd (· = .endOfInput) (programPart .never depth) s.length s) t := by
  have hloop : Vouches whole [] true
      (untilEnd (· = .endOfInput) (programPart .byOffset depth) whole.length whole)
      (DecidedFrom fun rounds depth => untilEnd (· = .endOfInput) (programPart .never depth) rounds)
      _ :=
    vouches_untilEnd (fun before s hr (hs : Parted whole before s) hk =>
      vouches_programPart hw ho hr hs (of_decide_eq_false hk)) whole.length (.nil whole)
      ⟨atEnd_whole whole, fun us nodes hus _ => ⟨nodes, hus⟩⟩ (Nat.le_refl _)
  have hloop := hloop [] (remembers_nil whole)
  simp only [program, Bind.bind, EStateM.bind] at h
  cases hrun : untilEnd (· = .endOfInput) (programPart .byOffset depth) whole.length whole [] with
  | ok r memo' =>
    rw [hrun] at h
    cases h
  | error e memo' =>
    rw [hrun] at h hloop
    cases h
    have hdeserved : Deserved whole ([] ++ []) _ t := hloop.2
    exact hdeserved.imp rfl fun ts _ _ hd => hd.decided

end Parsing

end LittleLang
