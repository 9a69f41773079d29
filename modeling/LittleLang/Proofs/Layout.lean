import LittleLang.Proofs.Acceptance
import LittleLang.Proofs.Likeness.Stages

/-!
# Layout does not matter

Two texts with the same tokens, wherever these stand, mean the same (`layout_irrelevant`): both have
trees that differ in the places of tokens only, or both are refused, and their runs end in the same
way. The parser does look at offsets, since its memo goes by them. So the texts are compared through
the parser without a memo, which reads streams that are alike alike.
-/

namespace LittleLang

/-! ## Without places -/

/-- A token without its place. -/
def Token.unplaced (t : Token) : Token :=
  ⟨t.kind, t.text, 0, 0⟩

def Parameter.unplaced (p : Parameter) : Parameter :=
  ⟨p.type.unplaced, p.name.unplaced⟩

namespace Node

mutual

/-- A tree without the places of its tokens. -/
def unplaced : Node → Node
  | program name block => program name block.unplaced
  | compound children => compound (unplacedAll children)
  | noOp => noOp
  | intLiteral token => intLiteral token.unplaced
  | floatLiteral token => floatLiteral token.unplaced
  | boolLiteral token => boolLiteral token.unplaced
  | var name => var name.unplaced
  | typeName name => typeName name.unplaced
  | unary op operand => unary op.unplaced operand.unplaced
  | binary op left right => binary op.unplaced left.unplaced right.unplaced
  | assign type target op value =>
    assign (type.map Token.unplaced) target.unplaced op.unplaced value.unplaced
  | branch keyword condition whenTrue whenFalse =>
    branch (keyword.map Token.unplaced) condition.unplaced whenTrue.unplaced whenFalse.unplaced
  | ret value => ret value.unplaced
  | parameter p => parameter p.unplaced
  | function name parameters body =>
    function name.unplaced (parameters.map Parameter.unplaced) body.unplaced
  | call name arguments => call name.unplaced (unplacedAll arguments)
  | bare => bare
  | missing => missing

def unplacedAll : List Node → List Node
  | [] => []
  | node :: rest => node.unplaced :: unplacedAll rest

end

end Node

/-! ## The likeness of layouts -/

namespace Likeness

/-- Tokens are alike wherever they stand. -/
def layout : Likeness where
  token t t' := t.unplaced = t'.unplaced
  error _ _ := False
  offset _ _ := True
  kind_eq h := (congrArg Token.kind h :)
  text_eq h := (congrArg Token.text h :)

theorem token_unplaced_eq {t t' : Token} (h : layout.token t t') : t.unplaced = t'.unplaced :=
  h

theorem Parameters.unplaced_eq {p p' : Parameter} (h : layout.Parameters p p') :
    p.unplaced = p'.unplaced := by
  unfold Parameter.unplaced
  rw [token_unplaced_eq h.type, token_unplaced_eq h.name]

theorem map_unplaced_eq {ps ps' : List Parameter} (h : ps.Forall₂ layout.Parameters ps') :
    ps.map Parameter.unplaced = ps'.map Parameter.unplaced := by
  induction h with
  | nil => rfl
  | cons hp _ ih => rw [List.map_cons, List.map_cons, hp.unplaced_eq, ih]

theorem optional_unplaced_eq {t t' : Option Token} (h : t.Rel layout.token t') :
    t.map Token.unplaced = t'.map Token.unplaced := by
  cases h with
  | none => rfl
  | some ht => exact congrArg some ht

theorem Trees.unplaced_eq : ∀ {n n' : Node}, layout.Trees n n' → n.unplaced = n'.unplaced
  | _, _, .program _ hb => by rw [Node.unplaced, Node.unplaced, unplaced_eq hb]
  | _, _, .compound hc => by rw [Node.unplaced, Node.unplaced, all hc]
  | _, _, .noOp => rfl
  | _, _, .intLiteral ht => congrArg Node.intLiteral ht
  | _, _, .floatLiteral ht => congrArg Node.floatLiteral ht
  | _, _, .boolLiteral ht => congrArg Node.boolLiteral ht
  | _, _, .var ht => congrArg Node.var ht
  | _, _, .typeName ht => congrArg Node.typeName ht
  | _, _, .unary hop ho => by
    rw [Node.unplaced, Node.unplaced, token_unplaced_eq hop, unplaced_eq ho]
  | _, _, .binary hop hl hr => by
    rw [Node.unplaced, Node.unplaced, token_unplaced_eq hop, unplaced_eq hl, unplaced_eq hr]
  | _, _, .assign ht htarget hop hv => by
    rw [Node.unplaced, Node.unplaced, optional_unplaced_eq ht, token_unplaced_eq htarget,
      token_unplaced_eq hop, unplaced_eq hv]
  | _, _, .branch hk hc ht hf => by
    rw [Node.unplaced, Node.unplaced, optional_unplaced_eq hk, unplaced_eq hc, unplaced_eq ht,
      unplaced_eq hf]
  | _, _, .ret hv => by rw [Node.unplaced, Node.unplaced, unplaced_eq hv]
  | _, _, .parameter hp => congrArg Node.parameter hp.unplaced_eq
  | _, _, .function ht hps hb => by
    rw [Node.unplaced, Node.unplaced, token_unplaced_eq ht, map_unplaced_eq hps, unplaced_eq hb]
  | _, _, .call ht ha => by
    rw [Node.unplaced, Node.unplaced, token_unplaced_eq ht, all ha]
  | _, _, .bare => rfl
  | _, _, .missing => rfl
where
  all : ∀ {ns ns' : List Node}, ns.Forall₂ layout.Trees ns' →
      Node.unplacedAll ns = Node.unplacedAll ns'
    | _, _, .nil => rfl
    | _, _, .cons hn hns => by
      rw [Node.unplacedAll, Node.unplacedAll, unplaced_eq hn, all hns]

theorem streams_of_tokens {s s' : Stream} (he : s.error? = none) (he' : s'.error? = none)
    (h : s.tokens.map Token.unplaced = s'.tokens.map Token.unplaced) : layout.Streams s s' := by
  have hlong (tail : Stream) : tail.tokens ≠ [] := by
    rw [← List.length_pos_iff, Stream.length_tokens]
    exact tail.length_pos
  induction s generalizing s' with
  | finish head =>
    cases s' with
    | finish head' => exact .finish (List.cons.inj h).1 trivial
    | blocked head' e => cases he'
    | more head' tail' =>
      exact absurd (List.map_eq_nil_iff.mp (List.cons.inj h).2.symm) (hlong tail')
  | blocked head e => cases he
  | more head tail ih =>
    cases s' with
    | finish head' => exact absurd (List.map_eq_nil_iff.mp (List.cons.inj h).2) (hlong tail)
    | blocked head' e => cases he'
    | more head' tail' =>
      obtain ⟨hhead, htail⟩ := List.cons.inj h
      exact .more hhead trivial (ih he he' htail)

end Likeness

/-! ## Parsing -/

/-- Trees that are the same but for the places of tokens, or a token that does not fit in both. -/
inductive SameParse : Except Failure Node → Except Failure Node → Prop where
  | tree {n n' : Node} : n.unplaced = n'.unplaced → SameParse (.ok n) (.ok n')
  | unexpected (t t' : Token) :
      SameParse (.error (.unexpected t)) (.error (.unexpected t'))

/-- The same value, or the same failure but for the place of its token. Of a token that does not fit
the grammar, which one it is does not count. -/
inductive SameEnd : Except Failure Value → Except Failure Value → Prop where
  | value (v : Value) : SameEnd (.ok v) (.ok v)
  | unexpected (t t' : Token) : SameEnd (.error (.unexpected t)) (.error (.unexpected t'))
  | semantic (cause : SemanticCause) {t t' : Token} : t.unplaced = t'.unplaced →
      SameEnd (.error (.semantic cause t)) (.error (.semantic cause t'))
  | runtime (cause : RuntimeCause) {t t' : Token} : t.unplaced = t'.unplaced →
      SameEnd (.error (.runtime cause t)) (.error (.runtime cause t'))
  | placeless {e : Failure} : e.isPlaceless = true → SameEnd (.error e) (.error e)

theorem sameEnd_of_outcomes {r r' : Except Failure Value} (h : Likeness.layout.Outcomes Eq r r') :
    SameEnd r r' := by
  cases h with
  | ok hv =>
    obtain rfl := hv
    exact .value _
  | error he =>
    cases he with
    | lexical hl => exact hl.elim
    | unexpected => exact .unexpected _ _
    | semantic cause ht => exact .semantic cause ht
    | runtime cause ht => exact .runtime cause ht
    | placeless hp => exact .placeless hp

/-- The memo changes nothing about a text that is parsed without one, at another depth. -/
theorem byOffset_of_ok {text : String} {enough : Nat} {tree : Node}
    (h : parseWithin .never enough text = .ok tree) (depth : Nat) :
    parseWithin .byOffset depth text = .error .tooDeep ∨
      parseWithin .byOffset depth text = .ok tree := by
  have hagree := agree_parseWithin text depth enough
  rw [h] at hagree
  generalize parseWithin .byOffset depth text = p at hagree
  cases hagree with
  | same => exact .inr rfl
  | deepFirst => exact .inl rfl

theorem byOffset_of_unexpected {text : String} {enough : Nat} {t : Token}
    (h : parseWithin .never enough text = .error (.unexpected t)) (depth : Nat) :
    parseWithin .byOffset depth text = .error .tooDeep ∨
      ∃ t', parseWithin .byOffset depth text = .error (.unexpected t') := by
  have hagree := agree_parseWithin text depth enough
  rw [h] at hagree
  generalize parseWithin .byOffset depth text = p at hagree
  cases hagree with
  | same => exact .inr ⟨t, rfl⟩
  | token t' => exact .inr ⟨t', rfl⟩
  | deepFirst => exact .inl rfl

section

variable {text₁ text₂ : String}

theorem outcomes_never (h₁ : (tokenize text₁).2 = none) (h₂ : (tokenize text₂).2 = none)
    (h : (tokenize text₁).1.map Token.unplaced = (tokenize text₂).1.map Token.unplaced)
    (depth : Nat) :
    Likeness.layout.Outcomes Likeness.layout.Trees (parseWithin .never depth text₁)
      (parseWithin .never depth text₂) := by
  unfold tokenize at h₁ h₂ h
  cases hs₁ : Stream.ofText text₁ with
  | error e =>
    rw [hs₁] at h₁
    cases h₁
  | ok s₁ =>
    cases hs₂ : Stream.ofText text₂ with
    | error e =>
      rw [hs₂] at h₂
      cases h₂
    | ok s₂ =>
      rw [hs₁] at h₁ h
      rw [hs₂] at h₂ h
      have hs : Likeness.layout.Streams s₁ s₂ := Likeness.streams_of_tokens h₁ h₂ h
      exact like_parseWithin Parsing.respects_never hs₁ hs₂ hs depth

/-- Texts of the same tokens have trees that are alike, or both are refused, or one of them is
nested too deeply for the depth it is parsed to. -/
theorem parse_cases (h₁ : (tokenize text₁).2 = none) (h₂ : (tokenize text₂).2 = none)
    (h : (tokenize text₁).1.map Token.unplaced = (tokenize text₂).1.map Token.unplaced)
    (depth₁ depth₂ : Nat) :
    parseWithin .byOffset depth₁ text₁ = .error .tooDeep ∨
    parseWithin .byOffset depth₂ text₂ = .error .tooDeep ∨
    (∃ n₁ n₂, parseWithin .byOffset depth₁ text₁ = .ok n₁ ∧
      parseWithin .byOffset depth₂ text₂ = .ok n₂ ∧ Likeness.layout.Trees n₁ n₂) ∨
    ∃ t₁ t₂, parseWithin .byOffset depth₁ text₁ = .error (.unexpected t₁) ∧
      parseWithin .byOffset depth₂ text₂ = .error (.unexpected t₂) := by
  have halike := outcomes_never h₁ h₂ h (enoughDepth text₁)
  have hdeep := (parseWithin_ne_tooDeep (Nat.le_refl (enoughDepth text₁))).2
  cases hq₁ : parseWithin .never (enoughDepth text₁) text₁ with
  | ok n₁ =>
    cases hq₂ : parseWithin .never (enoughDepth text₁) text₂ with
    | error e =>
      rw [hq₁, hq₂] at halike
      cases halike
    | ok n₂ =>
      rw [hq₁, hq₂] at halike
      obtain ⟨hn⟩ := halike
      rcases byOffset_of_ok hq₁ depth₁ with hp₁ | hp₁
      · exact .inl hp₁
      rcases byOffset_of_ok hq₂ depth₂ with hp₂ | hp₂
      · exact .inr (.inl hp₂)
      exact .inr (.inr (.inl ⟨n₁, n₂, hp₁, hp₂, hn⟩))
  | error e =>
    have hbelow := failsBelow_never hq₁
    rw [hq₁] at halike hdeep
    generalize hq₂ : parseWithin .never (enoughDepth text₁) text₂ = q₂ at halike
    cases halike with
    | error hf =>
      cases hbelow with
      | lexical =>
        cases hf with
        | lexical hl => exact hl.elim
        | placeless hp => cases hp
      | tooDeep => exact absurd rfl hdeep
      | unexpected t =>
        cases hf with
        | placeless hp => cases hp
        | unexpected =>
          rcases byOffset_of_unexpected hq₁ depth₁ with hp₁ | ⟨t₁, hp₁⟩
          · exact .inl hp₁
          rcases byOffset_of_unexpected hq₂ depth₂ with hp₂ | ⟨t₂, hp₂⟩
          · exact .inr (.inl hp₂)
          exact .inr (.inr (.inr ⟨t₁, t₂, hp₁, hp₂⟩))

/-! ## Meaning -/

/-- Texts that are read without lexical errors to the same tokens, wherever these stand, mean the
same. They are parsed to the same tree but for places, or both are refused; at the same depth their
runs end in the same way, with the same messages in the log. Only a parser that gives up for its
depth may tell them apart, and at a depth that is enough for both texts it does not. -/
theorem layout_irrelevant (h₁ : (tokenize text₁).2 = none) (h₂ : (tokenize text₂).2 = none)
    (h : (tokenize text₁).1.map Token.unplaced = (tokenize text₂).1.map Token.unplaced) :
    (∀ depth₁ depth₂, parseWithin .byOffset depth₁ text₁ = .error .tooDeep ∨
      parseWithin .byOffset depth₂ text₂ = .error .tooDeep ∨
      SameParse (parseWithin .byOffset depth₁ text₁) (parseWithin .byOffset depth₂ text₂)) ∧
    (∀ depth log, parseWithin .byOffset depth text₁ = .error .tooDeep ∨
      parseWithin .byOffset depth text₂ = .error .tooDeep ∨
      SameEnd (runWithin depth log text₁).1 (runWithin depth log text₂).1 ∧
        (runWithin depth log text₁).2 = (runWithin depth log text₂).2) ∧
    ∀ depth, enoughDepth text₁ ≤ depth → enoughDepth text₂ ≤ depth →
      parseWithin .byOffset depth text₁ ≠ .error .tooDeep ∧
        parseWithin .byOffset depth text₂ ≠ .error .tooDeep := by
  refine ⟨fun depth₁ depth₂ => ?_, fun depth log => ?_, fun depth hd₁ hd₂ =>
    ⟨(parseWithin_ne_tooDeep hd₁).1, (parseWithin_ne_tooDeep hd₂).1⟩⟩
  · refine (parse_cases h₁ h₂ h depth₁ depth₂).imp_right (Or.imp_right ?_)
    rintro (⟨n₁, n₂, hp₁, hp₂, hn⟩ | ⟨t₁, t₂, hp₁, hp₂⟩)
    · rw [hp₁, hp₂]
      exact .tree hn.unplaced_eq
    · rw [hp₁, hp₂]
      exact .unexpected t₁ t₂
  · refine (parse_cases h₁ h₂ h depth depth).imp_right (Or.imp_right ?_)
    rintro (⟨n₁, n₂, hp₁, hp₂, hn⟩ | ⟨t₁, t₂, hp₁, hp₂⟩)
    · obtain ⟨hend, hlog⟩ := like_runWithin Log.lasting_eq (Eq.refl log) hp₁ hp₂ hn
      exact ⟨sameEnd_of_outcomes hend, hlog⟩
    · rw [runWithin_of_error hp₁, runWithin_of_error hp₂]
      exact ⟨.unexpected t₁ t₂, rfl⟩

end

/-- A run that fails, and a text that the memo blames another token of once a blank follows it. -/
theorem layout_irrelevant_samples :
    ((tokenize "y:=1/0;").2 = none ∧ (tokenize "y :=\n1 / 0 ;").2 = none ∧
      (tokenize "y:=1/0;").1.map Token.unplaced =
        (tokenize "y :=\n1 / 0 ;").1.map Token.unplaced ∧
      SameEnd (runWithin 120 { level := 0 } "y:=1/0;").1
        (runWithin 120 { level := 0 } "y :=\n1 / 0 ;").1) ∧
    (tokenize "!").2 = none ∧ (tokenize "! ").2 = none ∧
      (tokenize "!").1.map Token.unplaced = (tokenize "! ").1.map Token.unplaced ∧
      SameParse (parseWithin .byOffset 40 "!") (parseWithin .byOffset 40 "! ") := by
  refine ⟨⟨by decide +kernel, by decide +kernel, by decide +kernel, ?_⟩,
    by decide +kernel, by decide +kernel, by decide +kernel, ?_⟩
  · obtain ⟨-, hrun, hdeep⟩ := @layout_irrelevant "y:=1/0;" "y :=\n1 / 0 ;" (by decide +kernel)
      (by decide +kernel) (by decide +kernel)
    obtain ⟨hd₁, hd₂⟩ := hdeep 120 (by decide +kernel) (by decide +kernel)
    exact (((hrun 120 { level := 0 }).resolve_left hd₁).resolve_left hd₂).1
  · obtain ⟨hparse, -, hdeep⟩ := @layout_irrelevant "!" "! " (by decide +kernel)
      (by decide +kernel) (by decide +kernel)
    obtain ⟨hd₁, hd₂⟩ := hdeep 40 (by decide +kernel) (by decide +kernel)
    exact ((hparse 40 40).resolve_left hd₁).resolve_left hd₂

end LittleLang
