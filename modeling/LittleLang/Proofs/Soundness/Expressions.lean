import LittleLang.Proofs.Grammar
import LittleLang.Proofs.Steps

/-!
# Expressions that are parsed are derivable

Every rule of the parser, run without a memo, gives only trees that the grammar derives from the
tokens it has read. It gives up for its depth only if that is small for the number of tokens left:
between two tokens the rules nest at most eight deep (`FailsBelow`). Both are one contract, so that
one induction on the depth proves them for all rules.
-/

open LittleLang.Stream LittleLang.Grammar

namespace LittleLang.Parsing

variable {α : Type}

/-! ## The contract of a rule -/

/-- The failures of a rule: on a token, or for the depth if that is below a bound. -/
inductive FailsBelow (depth bound : Nat) : Failure → Prop where
  | lexical (e : LexicalError) : FailsBelow depth bound (.lexical e)
  | unexpected (t : Token) : FailsBelow depth bound (.unexpected t)
  | tooDeep : depth < bound → FailsBelow depth bound .tooDeep

theorem FailsBelow.imp {depth depth' bound bound' : Nat} {e : Failure}
    (h : FailsBelow depth bound e) (hb : depth < bound → depth' < bound') :
    FailsBelow depth' bound' e := by
  cases h with
  | lexical => exact .lexical _
  | unexpected => exact .unexpected _
  | tooDeep h => exact .tooDeep (hb h)

theorem FailsBelow.succ {depth bound bound' : Nat} {e : Failure} (h : FailsBelow depth bound e)
    (hb : bound < bound') : FailsBelow (depth + 1) bound' e :=
  h.imp fun _ => by omega

theorem FailsBelow.le {depth bound bound' : Nat} {e : Failure} (h : FailsBelow depth bound e)
    (hb : bound ≤ bound') : FailsBelow depth bound' e :=
  h.imp fun _ => by omega

/-- The failures on a token are let through. -/
structure Lenient (fails : Failure → Prop) : Prop where
  lexical : ∀ e, fails (.lexical e)
  unexpected : ∀ t, fails (.unexpected t)

theorem lenient_failsBelow (depth bound : Nat) : Lenient (FailsBelow depth bound) :=
  ⟨.lexical, .unexpected⟩

def Derived (Symbol : List Token → α → Prop) (s : Stream) (r : α × Stream) : Prop :=
  ∃ ts, Reads s ts r.2 ∧ Symbol ts r.1

theorem Derived.imp {Symbol Symbol' : List Token → α → Prop} {s : Stream} {r : α × Stream}
    (h : Derived Symbol s r) (hs : ∀ ts a, Symbol ts a → Symbol' ts a) : Derived Symbol' s r := by
  obtain ⟨ts, hr, hd⟩ := h
  exact ⟨ts, hr, hs _ _ hd⟩

/-! ## Combinators -/

section

variable {fails : Failure → Prop} {s : Stream}

theorem meets_prefer {first second : Parsing Parsed} {refused : Kind → Bool}
    {post : Parsed → Prop} (h₁ : Meets first fails post) (h₂ : Meets second fails post) :
    Meets (prefer first refused second) fails post := by
  unfold prefer
  have h : Meets (attempt first) fails fun r => ∀ a, r = some a → post a :=
    h₁.attempt (by rintro a ha _ ⟨⟩; exact ha) (by simp) fun _ he _ => he
  refine h.bind fun r hr => ?_
  cases r with
  | none => exact h₂
  | some a => exact Meets.ite (fun _ => h₂) fun _ => meets_pure (hr a rfl)

theorem meets_parenthesized {inner : Stream → Parsing Parsed} {Symbol : List Token → Node → Prop}
    (hf : Lenient fails) (hs : s.Proper)
    (h : ∀ s', s'.Proper → s'.length < s.length → Meets (inner s') fails (Derived Symbol s')) :
    Meets (parenthesized inner s) fails fun r => ∃ l ts rt, Reads s (l :: ts ++ [rt]) r.2 ∧
      l.kind = .leftParen ∧ Symbol ts r.1 ∧ rt.kind = .rightParen := by
  unfold parenthesized
  refine (meets_eat hs (by decide) hf.lexical hf.unexpected).bind fun s₁ h₁ => ?_
  obtain ⟨hl, hr₁⟩ := h₁
  refine (h s₁ (hr₁.proper hs) (hr₁.length_lt (by simp))).bind fun r h₂ => ?_
  obtain ⟨ts, hr₂, hd⟩ := h₂
  have hp := hr₂.proper (hr₁.proper hs)
  refine (meets_eat hp (by decide) hf.lexical hf.unexpected).bind fun s₃ h₃ => ?_
  obtain ⟨hrt, hr₃⟩ := h₃
  exact meets_pure ⟨s.token, ts, r.2.token, (hr₁.append hr₂).append hr₃, hl, hd, hrt⟩

theorem meets_chainFrom {isOperator : Kind → Bool} {operand : Stream → Parsing Parsed}
    {Operand : List Token → Node → Prop} (hf : Lenient fails)
    (hend : isOperator .endOfInput = false) (hs : s.Proper)
    (h : ∀ s', s'.Proper → s'.length ≤ s.length → Meets (operand s') fails (Derived Operand s'))
    (rounds : Nat) {left : Node} {s₁ : Stream}
    (h₁ : Derived (Chain isOperator Operand) s (left, s₁)) :
    Meets (chainFrom isOperator operand rounds left s₁) fails
      (Derived (Chain isOperator Operand) s) := by
  induction rounds generalizing left s₁ with
  | zero => exact meets_pure h₁
  | succ rounds ih =>
    unfold chainFrom
    refine Meets.ite (fun hop => ?_) fun _ => meets_pure h₁
    obtain ⟨ts, hr₁, hd₁⟩ := h₁
    have hk : s₁.kind ≠ .endOfInput := by
      intro he
      rw [he, hend] at hop
      cases hop
    have hp₁ := hr₁.proper hs
    refine (meets_advance hp₁ hk hf.lexical).bind fun s₂ hr₂ => ?_
    have hle : s₂.length ≤ s.length := (hr₁.append hr₂).length_le
    refine (h s₂ (hr₂.proper hp₁) hle).bind fun r h₃ => ?_
    obtain ⟨us, hr₃, hd₃⟩ := h₃
    refine ih ⟨ts ++ s₁.token :: us, ?_, .snoc hd₁ hop hd₃⟩
    exact hr₁.append (hr₂.append hr₃)

theorem meets_chain {isOperator : Kind → Bool} {operand : Stream → Parsing Parsed}
    {Operand : List Token → Node → Prop} (hf : Lenient fails)
    (hend : isOperator .endOfInput = false) (hs : s.Proper)
    (h : ∀ s', s'.Proper → s'.length ≤ s.length →
      Meets (operand s') fails (Derived Operand s')) :
    Meets (chain isOperator operand s) fails (Derived (Chain isOperator Operand) s) := by
  unfold chain
  refine (h s hs (Nat.le_refl _)).bind fun r hr => ?_
  have hr : Derived (Chain isOperator Operand) s r := hr.imp fun _ _ h => .single h
  exact Meets.ite (fun _ => meets_chainFrom hf hend hs h _ hr) fun _ => meets_pure hr

theorem meets_afterCommas {item : Stream → Parsing (α × Stream)} {Item : List Token → α → Prop}
    (hf : Lenient fails) (rounds : Nat) (hs : s.Proper)
    (h : ∀ s', s'.Proper → s'.length ≤ s.length → Meets (item s') fails (Derived Item s')) :
    Meets (afterCommas item rounds s) fails fun r =>
      ∀ ts a, Item ts a → ∃ us, Reads s us r.2 ∧ Separated Item (ts ++ us) (a :: r.1) := by
  induction rounds generalizing s with
  | zero =>
    exact meets_pure fun ts a ha => ⟨[], .nil s, by simpa using Separated.single ha⟩
  | succ rounds ih =>
    unfold afterCommas
    refine Meets.ite (fun hc => ?_) fun _ =>
      meets_pure fun ts a ha => ⟨[], .nil s, by simpa using Separated.single ha⟩
    refine (meets_advance hs (by simp [hc]) hf.lexical).bind fun s₁ hr₁ => ?_
    have hp₁ := hr₁.proper hs
    refine (h s₁ hp₁ hr₁.length_le).bind fun r h₂ => ?_
    obtain ⟨us, hr₂, hd₂⟩ := h₂
    have hle : r.2.length ≤ s.length := (hr₁.append hr₂).length_le
    refine (ih (hr₂.proper hp₁) fun s' hp hl => h s' hp (by omega)).bind fun r' h₃ => ?_
    obtain ⟨vs, hr₃, hd₃⟩ := h₃ us r.1 hd₂
    exact meets_pure fun ts a ha =>
      ⟨s.token :: (us ++ vs), hr₁.append (hr₂.append hr₃), .cons ha hc hd₃⟩

theorem meets_commaList {item : Stream → Parsing (α × Stream)} {Item : List Token → α → Prop}
    (hf : Lenient fails) (hs : s.Proper)
    (h : ∀ s', s'.Proper → s'.length ≤ s.length → Meets (item s') fails (Derived Item s')) :
    Meets (commaList item s) fails (Derived (Separated Item) s) := by
  unfold commaList
  refine (h s hs (Nat.le_refl _)).bind fun r h₁ => ?_
  obtain ⟨ts, hr₁, hd₁⟩ := h₁
  have hle : r.2.length ≤ s.length := hr₁.length_le
  refine (meets_afterCommas hf _ (hr₁.proper hs) fun s' hp hl =>
    h s' hp (by omega)).bind fun r' h₂ => ?_
  obtain ⟨us, hr₂, hd₂⟩ := h₂ ts r.1 hd₁
  exact meets_pure ⟨ts ++ us, hr₁.append hr₂, hd₂⟩

theorem meets_comparison {number : Stream → Parsing Parsed} (hf : Lenient fails) (hs : s.Proper)
    (h : ∀ s', s'.Proper → s'.length ≤ s.length → Meets (number s') fails (Derived NumExpr s')) :
    Meets (comparison number s) fails (Derived BoolTerm s) := by
  unfold comparison
  refine (h s hs (Nat.le_refl _)).bind fun r h₁ => ?_
  obtain ⟨left, s₁⟩ := r
  obtain ⟨ts, hr₁, hd₁⟩ := h₁
  refine Meets.ite (fun hop => ?_) fun _ => ?_
  · have hk : s₁.kind ≠ .endOfInput := by
      intro he
      simp [he, Kind.isComparison] at hop
    have hp₁ := hr₁.proper hs
    refine (meets_advance hp₁ hk hf.lexical).bind fun s₂ hr₂ => ?_
    have hle : s₂.length ≤ s.length := (hr₁.append hr₂).length_le
    refine (h s₂ (hr₂.proper hp₁) hle).bind fun r h₃ => ?_
    obtain ⟨us, hr₃, hd₃⟩ := h₃
    exact meets_pure ⟨ts ++ s₁.token :: us, hr₁.append (hr₂.append hr₃),
      .comparison hd₁ hop hd₃⟩
  · refine Meets.ite (fun href => meets_pure ⟨ts, hr₁, ?_⟩) fun _ =>
      meets_throw (hf.unexpected _)
    cases left with
    | var name => exact .var hd₁
    | call name arguments => exact .call hd₁
    | _ => cases href

theorem meets_var (hf : Lenient fails) (hs : s.Proper) :
    Meets (var s) fails (Derived Factor s) := by
  unfold var
  refine (meets_eat hs (by decide) hf.lexical hf.unexpected).bind fun s₁ h₁ => ?_
  exact meets_pure ⟨[s.token], h₁.2, .var h₁.1⟩

end

/-! ## Expressions -/

structure SoundAt (depth : Nat) : Prop where
  call : ∀ s, s.Proper → Meets (Parsing.call .never depth s)
    (FailsBelow depth (8 * s.length + 1)) (Derived Call s)
  factor : ∀ s, s.Proper → Meets (Parsing.factor .never depth s)
    (FailsBelow depth (8 * s.length + 2)) (Derived Factor s)
  numTerm : ∀ s, s.Proper → Meets (Parsing.numTerm .never depth s)
    (FailsBelow depth (8 * s.length + 3)) (Derived NumTerm s)
  numExpr : ∀ s, s.Proper → Meets (Parsing.numExpr .never depth s)
    (FailsBelow depth (8 * s.length + 4)) (Derived NumExpr s)
  boolTerm : ∀ s, s.Proper → Meets (Parsing.boolTerm .never depth s)
    (FailsBelow depth (8 * s.length + 5)) (Derived BoolTerm s)
  boolExpr : ∀ s, s.Proper → Meets (Parsing.boolExpr .never depth s)
    (FailsBelow depth (8 * s.length + 6)) (Derived BoolExpr s)
  expression : ∀ s, s.Proper → Meets (Parsing.expression .never depth s)
    (FailsBelow depth (8 * s.length + 7)) (Derived Expression s)

/-- A rule inside another one meets its contract, if it stands at most as far back. -/
theorem Meets.within {depth bound bound' : Nat} {p : Parsing α} {post : α → Prop}
    (h : Meets p (FailsBelow depth bound) post) (hb : bound < bound') :
    Meets p (FailsBelow (depth + 1) bound') post :=
  h.imp (fun _ he => he.succ hb) fun _ ha => ha

section

variable {depth : Nat} {s : Stream}

theorem SoundAt.expression_succ (ih : SoundAt depth) (hs : s.Proper) :
    Meets (Parsing.expression .never (depth + 1) s)
      (FailsBelow (depth + 1) (8 * s.length + 7)) (Derived Expression s) := by
  unfold Parsing.expression
  refine meets_prefer ?_ ?_
  · exact ((ih.boolExpr s hs).within (by omega)).weaken fun _ h => h.imp fun _ _ => .bool
  · exact ((ih.numExpr s hs).within (by omega)).weaken fun _ h => h.imp fun _ _ => .number

theorem SoundAt.boolExpr_succ (ih : SoundAt depth) (hs : s.Proper) :
    Meets (Parsing.boolExpr .never (depth + 1) s)
      (FailsBelow (depth + 1) (8 * s.length + 6)) (Derived BoolExpr s) := by
  unfold Parsing.boolExpr
  refine meets_chain (lenient_failsBelow _ _) rfl hs fun s' hp hl => ?_
  exact (ih.boolTerm s' hp).within (by omega)

theorem SoundAt.numExpr_succ (ih : SoundAt depth) (hs : s.Proper) :
    Meets (Parsing.numExpr .never (depth + 1) s)
      (FailsBelow (depth + 1) (8 * s.length + 4)) (Derived NumExpr s) := by
  unfold Parsing.numExpr
  refine meets_chain (lenient_failsBelow _ _) rfl hs fun s' hp hl => ?_
  exact (ih.numTerm s' hp).within (by omega)

theorem SoundAt.numTerm_succ (ih : SoundAt depth) (hs : s.Proper) :
    Meets (Parsing.numTerm .never (depth + 1) s)
      (FailsBelow (depth + 1) (8 * s.length + 3)) (Derived NumTerm s) := by
  unfold Parsing.numTerm
  refine meets_chain (lenient_failsBelow _ _) rfl hs fun s' hp hl => ?_
  exact (ih.factor s' hp).within (by omega)

theorem SoundAt.boolTerm_succ (ih : SoundAt depth) (hs : s.Proper) :
    Meets (Parsing.boolTerm .never (depth + 1) s)
      (FailsBelow (depth + 1) (8 * s.length + 5)) (Derived BoolTerm s) := by
  have hf := lenient_failsBelow (depth + 1) (8 * s.length + 5)
  have hcomp : Meets (comparison (Parsing.numExpr .never depth) s)
      (FailsBelow (depth + 1) (8 * s.length + 5)) (Derived BoolTerm s) :=
    meets_comparison hf hs fun s' hp hl => (ih.numExpr s' hp).within (by omega)
  rw [boolTerm_eq]
  refine Meets.ite (fun _ => ?_) fun _ => Meets.ite (fun hk => ?_) fun _ =>
    Meets.ite (fun hk => ?_) fun _ => hcomp
  · refine meets_prefer ?_ hcomp
    refine (meets_parenthesized hf hs fun s' hp hl =>
      (ih.boolExpr s' hp).within (by omega)).weaken ?_
    rintro r ⟨l, ts, rt, hr, hl, hd, hrt⟩
    exact ⟨l :: ts ++ [rt], hr, .paren hl hd hrt⟩
  · rw [bind_assoc]
    refine (meets_advance hs (by simp [hk]) hf.lexical).bind fun s₁ hr₁ => ?_
    have hlt : s₁.length < s.length := hr₁.length_lt (by simp)
    refine ((ih.boolTerm s₁ (hr₁.proper hs)).within (by omega)).bind fun r h₂ => ?_
    obtain ⟨ts, hr₂, hd⟩ := h₂
    exact meets_pure ⟨s.token :: ts, hr₁.append hr₂, .not hk hd⟩
  · have hend : s.kind ≠ .endOfInput := by
      intro he
      simp [he] at hk
    refine (meets_advance hs hend hf.lexical).bind fun s₁ hr₁ => ?_
    exact meets_pure ⟨[s.token], hr₁, .truth hk⟩

theorem SoundAt.factor_succ (ih : SoundAt depth) (hs : s.Proper) :
    Meets (Parsing.factor .never (depth + 1) s)
      (FailsBelow (depth + 1) (8 * s.length + 2)) (Derived Factor s) := by
  have hf := lenient_failsBelow (depth + 1) (8 * s.length + 2)
  rw [factor_eq]
  refine Meets.ite (fun _ => ?_) fun _ => Meets.ite (fun hk => ?_) fun _ =>
    Meets.ite (fun hk => ?_) fun _ => Meets.ite (fun hk => ?_) fun _ =>
    Meets.ite (fun hk => ?_) fun _ => meets_var hf hs
  · refine (meets_parenthesized hf hs fun s' hp hl =>
      (ih.numExpr s' hp).within (by omega)).weaken ?_
    rintro r ⟨l, ts, rt, hr, hl, hd, hrt⟩
    exact ⟨l :: ts ++ [rt], hr, .paren hl hd hrt⟩
  · have hend : s.kind ≠ .endOfInput := by
      intro he
      simp [he] at hk
    rw [bind_assoc]
    refine (meets_advance hs hend hf.lexical).bind fun s₁ hr₁ => ?_
    have hlt : s₁.length < s.length := hr₁.length_lt (by simp)
    refine ((ih.factor s₁ (hr₁.proper hs)).within (by omega)).bind fun r h₂ => ?_
    obtain ⟨ts, hr₂, hd⟩ := h₂
    exact meets_pure ⟨s.token :: ts, hr₁.append hr₂, .sign hk hd⟩
  · refine (meets_advance hs (by simp [hk]) hf.lexical).bind fun s₁ hr₁ => ?_
    exact meets_pure ⟨[s.token], hr₁, .float hk⟩
  · refine (meets_advance hs (by simp [hk]) hf.lexical).bind fun s₁ hr₁ => ?_
    exact meets_pure ⟨[s.token], hr₁, .int hk⟩
  · refine (meets_advance hs (by simp [hk]) hf.lexical).bind fun s₁ hr₁ => ?_
    refine Meets.ite (fun _ => ?_) fun _ => meets_var hf hs
    exact ((ih.call s hs).within (by omega)).weaken fun _ h => h.imp fun _ _ => .call

theorem SoundAt.call_succ (ih : SoundAt depth) (hs : s.Proper) :
    Meets (Parsing.call .never (depth + 1) s)
      (FailsBelow (depth + 1) (8 * s.length + 1)) (Derived Call s) := by
  have hf := lenient_failsBelow (depth + 1) (8 * s.length + 1)
  rw [call_eq]
  refine (meets_eat hs (by decide) hf.lexical hf.unexpected).bind fun s₁ h₁ => ?_
  obtain ⟨hname, hr₁⟩ := h₁
  have hp₁ := hr₁.proper hs
  refine (meets_eat hp₁ (by decide) hf.lexical hf.unexpected).bind fun s₂ h₂ => ?_
  obtain ⟨hl, hr₂⟩ := h₂
  have hp₂ := hr₂.proper hp₁
  have hlt : s₂.length < s.length := (hr₁.append hr₂).length_lt (by simp)
  have hargs : Meets (argumentList (Parsing.expression .never depth) s₂)
      (FailsBelow (depth + 1) (8 * s.length + 1)) (Derived (Listed Expression) s₂) := by
    unfold argumentList
    refine Meets.ite (fun _ => meets_pure ⟨[], .nil s₂, .nil⟩) fun _ => ?_
    refine (meets_commaList hf hp₂ fun s' hp hl =>
      (ih.expression s' hp).within (by omega)).weaken fun _ h => h.imp fun _ _ => .items
  refine hargs.bind fun r h₃ => ?_
  obtain ⟨ts, hr₃, hd₃⟩ := h₃
  have hp₃ := hr₃.proper hp₂
  refine (meets_eat hp₃ (by decide) hf.lexical hf.unexpected).bind fun s₄ h₄ => ?_
  obtain ⟨hrt, hr₄⟩ := h₄
  exact meets_pure ⟨s.token :: s₁.token :: ts ++ [r.2.token],
    (hr₁.append hr₂).append (hr₃.append hr₄), .mk hname hl hd₃ hrt⟩

end

/-- Whatever is asked for at the depth zero, the parser gives up. -/
theorem meets_tooDeep {α : Type} {bound : Nat} {post : α → Prop} :
    Meets (throw .tooDeep : Parsing α) (FailsBelow 0 (bound + 1)) post :=
  meets_throw (.tooDeep (Nat.succ_pos bound))

theorem soundAt (depth : Nat) : SoundAt depth := by
  induction depth with
  | zero =>
    exact ⟨fun _ _ => meets_tooDeep, fun _ _ => meets_tooDeep, fun _ _ => meets_tooDeep,
      fun _ _ => meets_tooDeep, fun _ _ => meets_tooDeep, fun _ _ => meets_tooDeep,
      fun _ _ => meets_tooDeep⟩
  | succ depth ih =>
    exact ⟨fun _ => ih.call_succ, fun _ => ih.factor_succ, fun _ => ih.numTerm_succ,
      fun _ => ih.numExpr_succ, fun _ => ih.boolTerm_succ, fun _ => ih.boolExpr_succ,
      fun _ => ih.expression_succ⟩

end LittleLang.Parsing
