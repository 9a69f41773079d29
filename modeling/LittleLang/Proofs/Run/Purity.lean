import LittleLang.Proofs.Run.Frames
import LittleLang.Proofs.Run.Moments
import LittleLang.Proofs.Shape

/-!
# Functions see only their arguments

A call depends on nothing but the functions and the values of its arguments, and an expression
changes nothing that can be read later (`callOn_alike`). Both come from one relation between two
runs, `Twins`: started with the same variables in the record on top, two steps end alike, with the
same variables, whatever lies below and whatever the logs show. Either run may hit the limit of its
depth first. -/

namespace LittleLang.Running

variable {α β : Type} {F₁ F₂ : Table Function} {M M₁ M₂ : Table Value}
  {keeps mid : Table Value → Table Value → Prop} {post : α → Prop}

/-! ## Two runs -/

/-- Two steps ended alike, each in its frame and with variables that are kept to, or one of them has
hit the limit of its depth. -/
inductive Matches (frame₁ frame₂ : Frame) (F₁ F₂ : Table Function)
    (keeps : Table Value → Table Value → Prop) (post : α → Prop) :
    EStateM.Result Stop Machine α → EStateM.Result Stop Machine α → Prop where
  | deep₁ {N₁ N₂ : Table Value} {m₁ : Machine} {r₂ : EStateM.Result Stop Machine α} :
      frame₁.Holds F₁ N₁ m₁ → m₁.stack.Shown → keeps N₁ N₂ →
      Matches frame₁ frame₂ F₁ F₂ keeps post (.error (.failed .tooDeep) m₁) r₂
  | deep₂ {N₁ N₂ : Table Value} {m₂ : Machine} {r₁ : EStateM.Result Stop Machine α} :
      frame₂.Holds F₂ N₂ m₂ → m₂.stack.Shown → keeps N₁ N₂ →
      Matches frame₁ frame₂ F₁ F₂ keeps post r₁ (.error (.failed .tooDeep) m₂)
  | ok {a : α} {N₁ N₂ : Table Value} {m₁ m₂ : Machine} :
      frame₁.Holds F₁ N₁ m₁ → frame₂.Holds F₂ N₂ m₂ → m₁.stack.Shown → m₂.stack.Shown →
      keeps N₁ N₂ → post a → Matches frame₁ frame₂ F₁ F₂ keeps post (.ok a m₁) (.ok a m₂)
  | stop {s : Stop} {N₁ N₂ : Table Value} {m₁ m₂ : Machine} :
      frame₁.Holds F₁ N₁ m₁ → frame₂.Holds F₂ N₂ m₂ →
      (s ≠ .failed (.number .tooLongToWrite) → m₁.stack.Shown ∧ m₂.stack.Shown) →
      keeps N₁ N₂ → Matches frame₁ frame₂ F₁ F₂ keeps post (.error s m₁) (.error s m₂)

/-- Two steps that end alike, each started with its variables. -/
def Twins (F₁ F₂ : Table Function) (M₁ M₂ : Table Value) (p q : Running α)
    (keeps : Table Value → Table Value → Prop) (post : α → Prop) : Prop :=
  ∀ frame₁ frame₂ m₁ m₂, frame₁.Holds F₁ M₁ m₁ → frame₂.Holds F₂ M₂ m₂ →
    m₁.stack.Shown → m₂.stack.Shown → Matches frame₁ frame₂ F₁ F₂ keeps post (p m₁) (q m₂)

def Still (M₁ M₂ N₁ N₂ : Table Value) : Prop :=
  N₁ = M₁ ∧ N₂ = M₂

theorem still_refl : Still M₁ M₂ M₁ M₂ :=
  ⟨rfl, rfl⟩

section

variable {p q : Running α} {f g : α → Running β}

theorem twins_pure {a : α} (hk : keeps M₁ M₂) (ha : post a) :
    Twins F₁ F₂ M₁ M₂ (pure a) (pure a) keeps post :=
  fun _ _ _ _ h₁ h₂ hs₁ hs₂ => .ok h₁ h₂ hs₁ hs₂ hk ha

theorem twins_throw (s : Stop) (hk : keeps M₁ M₂) :
    Twins F₁ F₂ M₁ M₂ (throw s : Running α) (throw s) keeps post :=
  fun _ _ _ _ h₁ h₂ hs₁ hs₂ => .stop h₁ h₂ (fun _ => ⟨hs₁, hs₂⟩) hk

theorem twins_deep₁ (hk : keeps M₁ M₂) :
    Twins F₁ F₂ M₁ M₂ (fail .tooDeep : Running α) q keeps post :=
  fun _ _ _ _ h₁ _ hs₁ _ => .deep₁ h₁ hs₁ hk

theorem twins_deep₂ (hk : keeps M₁ M₂) :
    Twins F₁ F₂ M₁ M₂ p (fail .tooDeep : Running α) keeps post :=
  fun _ _ _ _ _ h₂ _ hs₂ => .deep₂ h₂ hs₂ hk

theorem Twins.bind {post : β → Prop} {pmid : α → Prop} (h : Twins F₁ F₂ M₁ M₂ p q mid pmid)
    (hmid : ∀ N₁ N₂, mid N₁ N₂ → keeps N₁ N₂)
    (hf : ∀ a N₁ N₂, pmid a → mid N₁ N₂ → Twins F₁ F₂ N₁ N₂ (f a) (g a) keeps post) :
    Twins F₁ F₂ M₁ M₂ (p >>= f) (q >>= g) keeps post := by
  intro frame₁ frame₂ m₁ m₂ h₁ h₂ hs₁ hs₂
  have h := h frame₁ frame₂ m₁ m₂ h₁ h₂ hs₁ hs₂
  rw [bind_apply, bind_apply]
  generalize p m₁ = r₁ at h
  generalize q m₂ = r₂ at h
  cases h with
  | deep₁ h₁ hs₁ hk => exact .deep₁ h₁ hs₁ (hmid _ _ hk)
  | deep₂ h₂ hs₂ hk => exact .deep₂ h₂ hs₂ (hmid _ _ hk)
  | ok h₁ h₂ hs₁ hs₂ hk ha => exact hf _ _ _ ha hk frame₁ frame₂ _ _ h₁ h₂ hs₁ hs₂
  | stop h₁ h₂ hs hk => exact .stop h₁ h₂ hs (hmid _ _ hk)

theorem Twins.weaken {keeps' : Table Value → Table Value → Prop}
    (h : Twins F₁ F₂ M₁ M₂ p q keeps post) (hk : ∀ N₁ N₂, keeps N₁ N₂ → keeps' N₁ N₂) :
    Twins F₁ F₂ M₁ M₂ p q keeps' post := by
  have hbind : Twins F₁ F₂ M₁ M₂ (p >>= pure) (q >>= pure) keeps' post :=
    h.bind hk fun a _ _ ha hn => twins_pure (hk _ _ hn) ha
  rwa [bind_pure, bind_pure] at hbind

/-- A step in one machine that keeps the variables changes neither the functions nor the stack nor
what is remembered of the last program, however it ends. -/
theorem Twins.kept (h : Twins F₁ F₁ M M p p (Still M M) post) {frame : Frame} {m : Machine}
    (hm : frame.Holds F₁ M m) (hs : m.stack.Shown) : frame.Holds F₁ M (after (p m)) := by
  have h := h frame frame m m hm hm hs hs
  generalize p m = r at h ⊢
  cases h with
  | deep₁ h₁ _ hk => exact hk.1 ▸ h₁
  | deep₂ h₂ _ hk => exact hk.2 ▸ h₂
  | ok h₁ _ _ _ hk => exact hk.1 ▸ h₁
  | stop h₁ _ _ hk => exact hk.1 ▸ h₁

end

/-! ## Two contracts -/

/-- Two steps that end alike and change no variables, started with variables that are related. -/
def still (F₁ F₂ : Table Function) (K : Table Value → Table Value → Prop) : Contract where
  Holds p q post := ∀ M₁ M₂, K M₁ M₂ → Twins F₁ F₂ M₁ M₂ p q (Still M₁ M₂) post
  of_pure h _ _ _ := twins_pure still_refl h
  bind h hf M₁ M₂ hK := by
    refine (h M₁ M₂ hK).bind (fun _ _ hn => hn) ?_
    rintro a _ _ ha ⟨rfl, rfl⟩
    exact hf a ha _ _ hK

/-- Two steps that end alike and with the same variables, started with the same. -/
def together (F₁ F₂ : Table Function) : Contract where
  Holds p q post := ∀ M, Twins F₁ F₂ M M p q Eq post
  of_pure h _ := twins_pure rfl h
  bind h hf M := by
    refine (h M).bind (fun _ _ hn => hn) ?_
    rintro a N _ ha rfl
    exact hf a ha N

variable {K : Table Value → Table Value → Prop}

theorem together_of_still {p q : Running α} (h : (still F₁ F₂ Eq).Holds p q post) :
    (together F₁ F₂).Holds p q post := by
  refine fun M => (h M M rfl).weaken ?_
  rintro _ _ ⟨rfl, rfl⟩
  rfl

/-! ## Single steps -/

theorem still_throw (s : Stop) :
    (still F₁ F₂ K).Holds (throw s : Running α) (throw s) post :=
  fun _ _ _ => twins_throw s still_refl

theorem still_note (level : Int) (text : String) :
    (still F₁ F₂ K).Holds (note level text) (note level text) fun _ => True :=
  fun _ _ _ _ _ _ _ h₁ h₂ hs₁ hs₂ =>
    .ok (h₁.withLog _) (h₂.withLog _) hs₁ hs₂ still_refl trivial

theorem still_text (v : Value) :
    (still F₁ F₂ K).Holds (number v.text) (number v.text) fun t => v.text = .ok t := by
  cases ht : v.text with
  | ok t => exact Contract.of_pure _ rfl
  | error e => exact still_throw _

theorem rules_still : (still F₁ F₂ K).Rules .identity where
  text := still_text
  remark _ := still_note _ _
  operands := by
    rintro op _ cause rfl -
    exact still_throw _
  beyondFloat := still_throw _

theorem still_load (name : Token) :
    (still F₁ F₂ Eq).Holds (load name) (load name) fun _ => True := by
  rintro M _ rfl frame₁ frame₂ m₁ m₂ h₁ h₂ hs₁ hs₂
  rw [h₁.load, h₂.load]
  cases M.get? name.text with
  | some v => exact .ok h₁ h₂ hs₁ hs₂ still_refl trivial
  | none => exact .stop h₁ h₂ (fun _ => ⟨hs₁, hs₂⟩) still_refl

theorem still_functionNamed (hF : ∀ name, F₁.get? name = F₂.get? name) (name : Token) :
    (still F₁ F₂ K).Holds (functionNamed name) (functionNamed name)
      fun f => F₁.get? name.text = some f := by
  intro M₁ M₂ _ frame₁ frame₂ m₁ m₂ h₁ h₂ hs₁ hs₂
  rw [h₁.functionNamed, h₂.functionNamed, ← hF]
  cases hf : F₁.get? name.text with
  | some f => exact .ok h₁ h₂ hs₁ hs₂ still_refl rfl
  | none => exact .stop h₁ h₂ (fun _ => ⟨hs₁, hs₂⟩) still_refl

/-- A value is shown right after it is stored. In between, the stacks cannot be relied on. -/
theorem together_assign (target : Token) (v : Value) :
    (together F₁ F₂).Holds (assign target v) (assign target v) fun _ => True := by
  intro M frame₁ frame₂ m₁ m₂ h₁ h₂ hs₁ hs₂
  obtain ⟨m₁', heq₁, h₁, hs₁'⟩ := h₁.store target.text v
  obtain ⟨m₂', heq₂, h₂, hs₂'⟩ := h₂.store target.text v
  unfold assign
  simp only [bind_apply, heq₁, heq₂]
  cases ht : v.text with
  | ok t =>
    exact .ok (h₁.withLog _) (h₂.withLog _) (hs₁' hs₁ ⟨t, ht⟩) (hs₂' hs₂ ⟨t, ht⟩) rfl trivial
  | error e =>
    obtain rfl := Value.text_eq_error ht
    exact .stop h₁ h₂ (fun hne => absurd rfl hne) rfl

/-! ## Calls -/

theorem still_activate {record₁ record₂ : Record} {body₁ body₂ : Running Value}
    (hr₁ : record₁.Shown) (hk₁ : record₁.kind = .function) (hk₂ : record₂.kind = .function)
    (hmem : record₁.members = record₂.members)
    (h : (together F₁ F₂).Holds body₁ body₂ fun _ => True) :
    (still F₁ F₂ K).Holds (activate record₁ body₁) (activate record₂ body₂) fun _ => True := by
  intro M₁ M₂ _ frame₁ frame₂ m₁ m₂ h₁ h₂ hs₁ hs₂
  have hr₂ : record₂.Shown := by
    unfold Record.Shown
    rw [← hmem]
    exact hr₁
  obtain ⟨n₁, -, hn₁, hns₁, hend₁⟩ := activate_ends hr₁ hs₁
  obtain ⟨n₂, -, hn₂, hns₂, hend₂⟩ := activate_ends hr₂ hs₂
  obtain ⟨hok₁, hfail₁⟩ := hend₁ body₁
  obtain ⟨hok₂, hfail₂⟩ := hend₂ body₂
  rw [h₁.functions] at hn₁
  rw [h₂.functions, ← hmem] at hn₂
  have h := h _ _ _ n₁ n₂ hn₁ hn₂ hns₁ hns₂
  generalize body₁ n₁ = b₁ at h hok₁ hfail₁
  generalize body₂ n₂ = b₂ at h hok₂ hfail₂
  cases h with
  | deep₁ hn hns =>
    obtain ⟨m', heq, hl⟩ := hfail₁ _ _ _ _ rfl hn fun _ => hns
    rw [heq]
    exact .deep₁ (hl.holds hk₁ h₁) (hl.stack ▸ hs₁) still_refl
  | deep₂ hn hns =>
    obtain ⟨m', heq, hl⟩ := hfail₂ _ _ _ _ rfl hn fun _ => hns
    rw [heq]
    exact .deep₂ (hl.holds hk₂ h₂) (hl.stack ▸ hs₂) still_refl
  | ok hn₁ hn₂ hns₁ hns₂ =>
    obtain ⟨m₁', heq₁, hl₁⟩ := hok₁ _ _ _ _ (.inl rfl) hn₁ hns₁
    obtain ⟨m₂', heq₂, hl₂⟩ := hok₂ _ _ _ _ (.inl rfl) hn₂ hns₂
    rw [heq₁, heq₂]
    exact .ok (hl₁.holds hk₁ h₁) (hl₂.holds hk₂ h₂) (hl₁.stack ▸ hs₁) (hl₂.stack ▸ hs₂) still_refl
      trivial
  | @stop s _ _ _ _ hn₁ hn₂ hns =>
    cases s with
    | returned v =>
      obtain ⟨hns₁, hns₂⟩ := hns nofun
      obtain ⟨m₁', heq₁, hl₁⟩ := hok₁ _ _ _ _ (.inr rfl) hn₁ hns₁
      obtain ⟨m₂', heq₂, hl₂⟩ := hok₂ _ _ _ _ (.inr rfl) hn₂ hns₂
      rw [heq₁, heq₂]
      exact .ok (hl₁.holds hk₁ h₁) (hl₂.holds hk₂ h₂) (hl₁.stack ▸ hs₁) (hl₂.stack ▸ hs₂) still_refl
        trivial
    | failed e =>
      have hns (he : e ≠ .number .tooLongToWrite) := hns fun h => he (Stop.failed.inj h)
      obtain ⟨m₁', heq₁, hl₁⟩ := hfail₁ _ _ _ _ rfl hn₁ fun he => (hns he).1
      obtain ⟨m₂', heq₂, hl₂⟩ := hfail₂ _ _ _ _ rfl hn₂ fun he => (hns he).2
      rw [heq₁, heq₂]
      exact .stop (hl₁.holds hk₁ h₁) (hl₂.holds hk₂ h₂)
        (fun _ => ⟨hl₁.stack ▸ hs₁, hl₂.stack ▸ hs₂⟩) still_refl

section

variable {evaluate₁ evaluate₂ execute₁ execute₂ : Node → Running Value}

/-- A body is carried out on the same values, for callers with any variables. The records differ in
their level at most. -/
theorem still_enact {f : Function} {values : List Value}
    (h : (together F₁ F₂).Holds (execute₁ f.body) (execute₂ f.body) fun _ => True) (name : Token)
    (hvalues : ∀ v ∈ values, v.Shown) :
    (still F₁ F₂ K).Holds (enact execute₁ name f values) (enact execute₂ name f values)
      fun _ => True := by
  intro M₁ M₂ hK frame₁ frame₂ m₁ m₂ h₁ h₂ hs₁ hs₂
  have hactivate : (still F₁ F₂ K).Holds
      (activate (callRecord name f values (m₁.stack.length + 1)) (execute₁ f.body))
      (activate (callRecord name f values (m₂.stack.length + 1)) (execute₂ f.body)) fun _ => True :=
    still_activate (shown_callRecord hvalues) (by rw [callRecord_eq]) (by rw [callRecord_eq])
      (by rw [callRecord_eq, callRecord_eq]) h
  exact hactivate M₁ M₂ hK frame₁ frame₂ m₁ m₂ h₁ h₂ hs₁ hs₂

/-! ## The walk -/

/-- The statements of a function declare none. -/
abbrev Inner : Node → Prop :=
  Block (fun _ => True) fun _ _ => False

theorem still_call {arguments : List Node} (hF : ∀ name, F₁.get? name = F₂.get? name)
    (hknown : Known PlainFunction F₁)
    (hev : ∀ a ∈ arguments, (still F₁ F₂ Eq).Holds (evaluate₁ a) (evaluate₂ a) fun _ => True)
    (hex : ∀ n, Inner n →
      (together F₁ F₂).Holds (execute₁ n) (execute₂ n) (Contract.Gets n)) (name : Token) :
    (still F₁ F₂ Eq).Holds (call evaluate₁ execute₁ name arguments)
      (call evaluate₂ execute₂ name arguments) fun _ => True := by
  refine Contract.call_same rules_still (still_functionNamed hF name)
    (fun f _ _ => still_throw _) hev ?_
  intro f values hf _ hvalues
  have hbody : Inner f.body := .statement (hknown _ f hf) trivial
  exact still_enact (Contract.weaken (hex f.body hbody) fun _ _ => trivial) name hvalues

/-- Two walks over a statement or an expression, to any two depths. The induction is on the first
depth, for all second ones: a call inside may be at different depths on the two sides. -/
theorem twins_walk (hF : ∀ name, F₁.get? name = F₂.get? name) (hknown : Known PlainFunction F₁)
    (depth₁ depth₂ : Nat) :
    (∀ n, Inner n →
        (together F₁ F₂).Holds (execute depth₁ n) (execute depth₂ n) (Contract.Gets n)) ∧
      ∀ n, n.IsExpression (fun _ => True) →
        (still F₁ F₂ Eq).Holds (evaluate depth₁ n) (evaluate depth₂ n) fun _ => True := by
  induction depth₁ generalizing depth₂ with
  | zero => exact ⟨fun _ _ _ => twins_deep₁ rfl, fun _ _ _ _ _ => twins_deep₁ still_refl⟩
  | succ depth₁ ih =>
    cases depth₂ with
    | zero => exact ⟨fun _ _ _ => twins_deep₂ rfl, fun _ _ _ _ _ => twins_deep₂ still_refl⟩
    | succ depth₂ =>
      obtain ⟨hex, hev⟩ := ih depth₂
      refine ⟨fun n hn => ?_, fun n hn => ?_⟩
      · rw [execute_succ, execute_succ]
        refine Contract.executeNode_same rules_still together_of_still
          (hn.layer fun _ _ _ _ _ => trivial) hn.self hev hex (fun v {_} M => twins_throw _ rfl)
          (fun _ target _ _ _ v => together_assign target v) ?_ ?_
        · rintro name ps body rfl
          exact absurd hn.declared id
        · rintro name block rfl
          exact absurd hn Block.ne_program
      · rw [evaluate_succ, evaluate_succ]
        exact Contract.evaluateNode_same rules_still (layer_expression hn) hev
          (fun t _ => still_load t)
          (fun t as _ has => still_call hF hknown (fun a ha => hev a (has a ha)) hex t)
          fun e _ => still_throw _

end

/-! ## Calls of functions on values -/

/-- Calls a function on values. -/
def callOn (execute : Node → Running Value) (name : Token) (values : List Value) :
    Running Value := do
  let f ← functionNamed name
  if values.length ≠ f.parameters.length then
    blame name (.argumentCount name.text f.parameters.length values.length)
  invoke execute name f values

theorem callOn_eq (execute : Node → Running Value) (name : Token) (values : List Value) :
    callOn execute name values =
      functionNamed name >>= fun f =>
        if values.length ≠ f.parameters.length then
          blame name (.argumentCount name.text f.parameters.length values.length)
        else invoke execute name f values :=
  rfl

def outcome : EStateM.Result Stop Machine α → Except Stop α
  | .ok a _ => .ok a
  | .error s _ => .error s

/-- The same value or the same failure, unless one side has hit the limit of its depth. -/
def Alike (r₁ r₂ : EStateM.Result Stop Machine α) : Prop :=
  outcome r₁ = .error (.failed .tooDeep) ∨ outcome r₂ = .error (.failed .tooDeep) ∨
    outcome r₁ = outcome r₂

theorem Matches.alike {frame₁ frame₂ : Frame} {r₁ r₂ : EStateM.Result Stop Machine α}
    (h : Matches frame₁ frame₂ F₁ F₂ keeps post r₁ r₂) : Alike r₁ r₂ := by
  cases h with
  | deep₁ => exact .inl rfl
  | deep₂ => exact .inr (.inl rfl)
  | ok => exact .inr (.inr rfl)
  | stop => exact .inr (.inr rfl)

theorem still_invoke (hF : ∀ name, F₁.get? name = F₂.get? name) (hknown : Known PlainFunction F₁)
    (depth₁ depth₂ : Nat) (name : Token) {f : Function} (hf : F₁.get? name.text = some f)
    (values : List Value) :
    (still F₁ F₂ fun _ _ => True).Holds (invoke (execute depth₁) name f values)
      (invoke (execute depth₂) name f values) fun _ => True := by
  refine Contract.invoke rules_still rfl fun hvalues => still_enact ?_ name hvalues
  have hbody : Inner f.body := .statement (hknown _ f hf) trivial
  exact Contract.weaken ((twins_walk hF hknown depth₁ depth₂).1 f.body hbody) fun _ _ => trivial

theorem still_callOn (hF : ∀ name, F₁.get? name = F₂.get? name) (hknown : Known PlainFunction F₁)
    (depth₁ depth₂ : Nat) (name : Token) (values : List Value) :
    (still F₁ F₂ fun _ _ => True).Holds (callOn (execute depth₁) name values)
      (callOn (execute depth₂) name values) fun _ => True := by
  rw [callOn_eq, callOn_eq]
  refine Contract.bind _ (still_functionNamed hF name) fun f hf => ?_
  exact Contract.ite (fun _ => still_throw _) fun _ =>
    still_invoke hF hknown depth₁ depth₂ name hf values

/-- Where the arguments of a call have values, it calls the function on these. -/
theorem alike_call {frame₁ frame₂ : Frame} {m₁ m₂ m₁' : Machine} {arguments : List Node}
    {values : List Value} (hF : ∀ name, F₁.get? name = F₂.get? name)
    (hknown : Known PlainFunction F₁) (h₁ : frame₁.Holds F₁ M₁ m₁) (h₂ : frame₂.Holds F₂ M₂ m₂)
    (hs₁ : m₁.stack.Shown) (hs₂ : m₂.stack.Shown)
    (hargs : ∀ a ∈ arguments, a.IsExpression fun _ => True) {depth₁ : Nat}
    (hvalues : arguments.mapM (evaluate depth₁) m₁ = .ok values m₁') (depth₂ : Nat)
    (name : Token) :
    Alike (evaluate (depth₁ + 1) (.call name arguments) m₁)
      (callOn (execute depth₂) name values m₂) := by
  have hmap : (still F₁ F₁ Eq).Holds (arguments.mapM (evaluate depth₁))
      (arguments.mapM (evaluate depth₁)) fun values => values.length = arguments.length := by
    refine Contract.mapM (R := Node.Both (· ∈ arguments))
      (List.forall₂_same.mpr fun a ha => ⟨rfl, ha⟩) ?_
    rintro a _ ⟨rfl, ha⟩
    exact (twins_walk (fun _ => rfl) hknown depth₁ depth₁).2 a (hargs a ha)
  have hmatch := hmap M₁ M₁ rfl frame₁ frame₁ m₁ m₁ h₁ h₁ hs₁ hs₁
  rw [hvalues] at hmatch
  cases hmatch with
  | ok h₁' _ hs₁' _ hk hlength =>
    obtain ⟨rfl, -⟩ := hk
    have hcall : evaluate (depth₁ + 1) (.call name arguments) =
        call (evaluate depth₁) (execute depth₁) name arguments := evaluate_succ _ _
    rw [hcall, call_eq, callOn_eq]
    rw [bind_apply, bind_apply, h₁.functionNamed, h₂.functionNamed, ← hF]
    cases hf : F₁.get? name.text with
    | none => exact .inr (.inr rfl)
    | some f =>
      dsimp only
      by_cases hcount : arguments.length = f.parameters.length
      · rw [if_neg (by simp [hcount]), if_neg (by simp [hlength, hcount]), bind_apply, hvalues]
        have hinvoke := still_invoke hF hknown depth₁ depth₂ name hf values
        exact (hinvoke _ _ trivial frame₁ frame₂ _ _ h₁' h₂ hs₁' hs₂).alike
      · rw [if_pos hcount, if_pos (hlength ▸ hcount), hlength]
        exact .inr (.inr rfl)

/-! ## States of runs -/

/-- A parsed text declares the function. -/
def Declared (f : Function) : Prop :=
  ∃ text depth tree name, parseWithin .byOffset depth text = .ok tree ∧
    .function name f.parameters f.body ∈ tree.nodes

/-- The run of a parsed text evaluates something in this state. It starts with nothing on the stack;
functions from before come from parsed texts too. -/
def Moment (m : Machine) : Prop :=
  ∃ text depth tree start depth' node, parseWithin .byOffset depth text = .ok tree ∧
    start.stack = [] ∧ (∀ name f, start.functions.get? name = some f → Declared f) ∧
    Evaluates start depth' tree node m

theorem plain_of_declared {f : Function} (h : Declared f) : Plain f.body := by
  obtain ⟨text, depth, tree, name, hparse, hmem⟩ := h
  obtain ⟨parts, rfl, hparts⟩ := parts_of_parseWithin hparse
  have hmem : .function name f.parameters f.body ∈ Node.nodesOf parts := by
    simpa [Node.nodes] using hmem
  obtain ⟨n, hn, hmem⟩ := Node.mem_nodesOf.mp hmem
  exact ((hparts n hn).of_mem hmem).body.imp fun _ _ => trivial

/-- In such a state there is a record, all that is on the stack can be shown, and the functions have
statements for bodies. -/
theorem Moment.ready {m : Machine} (h : Moment m) :
    Known PlainFunction m.functions ∧ m.stack.Shown ∧
      ∃ frame M, Frame.Holds frame m.functions M m := by
  obtain ⟨text, depth, tree, start, depth', node, hparse, hnil, hfun, hev⟩ := h
  obtain ⟨parts, rfl, hparts⟩ := parts_of_parseWithin hparse
  obtain ⟨hknown, hshown, hne⟩ := hev.ready (fun n hn => (hparts n hn).imp fun _ _ => trivial) hnil
    fun name f hf => plain_of_declared (hfun name f hf)
  exact ⟨hknown, hshown, Frame.exists_holds hne⟩

/-- Functions see only their arguments: in two states of runs with the same functions, whatever else
the states hold, a call on the same values comes to the same value or the same failure, the limits
of the depths aside; so does an expression that calls the function on arguments with these values.
And evaluating an expression changes neither the functions nor any record on the stack nor what is
remembered of the last program, whether it gives a value or fails. -/
theorem callOn_alike {m₁ m₂ : Machine} (h₁ : Moment m₁) (h₂ : Moment m₂)
    (hF : ∀ name, m₁.functions.get? name = m₂.functions.get? name) :
    (∀ name values depth₁ depth₂,
      Alike (callOn (execute depth₁) name values m₁) (callOn (execute depth₂) name values m₂)) ∧
    (∀ name arguments values depth₁ depth₂ m₁',
      (∀ a ∈ arguments, ∃ ts, Grammar.Expression ts a) →
      arguments.mapM (evaluate depth₁) m₁ = .ok values m₁' →
      Alike (evaluate (depth₁ + 1) (.call name arguments) m₁)
        (callOn (execute depth₂) name values m₂)) ∧
    ∀ ts node depth, Grammar.Expression ts node →
      (after (evaluate depth node m₁)).functions = m₁.functions ∧
      (after (evaluate depth node m₁)).stack = m₁.stack ∧
      (after (evaluate depth node m₁)).lastProgram = m₁.lastProgram := by
  obtain ⟨hknown, hs₁, frame₁, M₁, hm₁⟩ := h₁.ready
  obtain ⟨-, hs₂, frame₂, M₂, hm₂⟩ := h₂.ready
  have hexpr {ts : List Token} {node : Node} (h : Grammar.Expression ts node) :
      node.IsExpression fun _ => True := isExpression h fun _ _ => trivial
  refine ⟨fun name values depth₁ depth₂ => ?_, ?_, fun ts node depth h => ?_⟩
  · have hcall := still_callOn hF hknown depth₁ depth₂ name values
    exact (hcall M₁ M₂ trivial frame₁ frame₂ m₁ m₂ hm₁ hm₂ hs₁ hs₂).alike
  · intro name arguments values depth₁ depth₂ m₁' hargs hvalues
    refine alike_call hF hknown hm₁ hm₂ hs₁ hs₂ (fun a ha => ?_) hvalues depth₂ name
    obtain ⟨ts, h⟩ := hargs a ha
    exact hexpr h
  · have hwalk := (twins_walk (fun _ => rfl) hknown depth depth).2 node (hexpr h) M₁ M₁ rfl
    have hkept := hwalk.kept hm₁ hs₁
    exact ⟨hkept.functions, hm₁.stack_eq hkept, hkept.last.trans hm₁.last.symm⟩

/-! ### Two states with a function -/

def firstFunction? (tree : Node) : Option Function :=
  tree.nodes.findSome? fun
    | .function _ parameters body => some { parameters, body }
    | _ => none

theorem declared_of_firstFunction? {text : String} {depth : Nat} {tree : Node} {f : Function}
    (hparse : parseWithin .byOffset depth text = .ok tree) (hf : firstFunction? tree = some f) :
    Declared f := by
  obtain ⟨node, hnode, hf⟩ := List.exists_of_findSome?_eq_some hf
  split at hf
  · next name parameters body =>
    cases hf
    exact ⟨text, depth, tree, name, hparse, hnode⟩
  · cases hf

def knowing (f : Function) (level : Int) : Machine :=
  { functions := ({} : Table Function).insert "f" f, log := { level } }

/-- The machine when it runs the text `true`, with the record of the program on its stack. -/
def running (f : Function) (level : Int) : Machine :=
  after (enter { kind := .program, name := "main", level := 1 } (knowing f level))

theorem moment_running {f : Function} {level : Int} (hf : Declared f)
    (h : ((knowing f level).perform (execute 5 (.program "main" (.compound
      [.compound [.boolLiteral ⟨.kwTrue, "true", 1, 1⟩]])))).1 ≠ .error .strayReturn) :
    Moment (running f level) := by
  obtain ⟨m, henter, hstack⟩ := enter_program (rfl : (knowing f level).stack = []) "main"
  obtain rfl : running f level = m := congrArg after henter
  have htrue : (Node.boolLiteral ⟨.kwTrue, "true", 1, 1⟩).IsExpression fun _ => True :=
    .bool trivial (.inl rfl)
  refine ⟨"true", 40, _, knowing f level, 5, _, by rfl, rfl, fun name g hg => ?_,
    evaluates_first [] [] htrue nofun henter rfl hstack h⟩
  rw [knowing, Table.get?_insert] at hg
  split at hg
  · cases hg
    exact hf
  · cases hg

def gives (n : Int) : EStateM.Result Stop Machine Value → Bool
  | .ok (.int k) _ => k == n
  | _ => false

/-- A function that doubles a number, in two states with logs of different levels. -/
theorem callOn_alike_double : ∃ f, Moment (running f 0) ∧ Moment (running f 2) ∧
    gives 42 (callOn (execute 9) ⟨.identifier, "f", 1, 1⟩ [.int 21] (running f 0)) = true ∧
    Alike (callOn (execute 9) ⟨.identifier, "f", 1, 1⟩ [.int 21] (running f 0))
      (callOn (execute 12) ⟨.identifier, "f", 1, 1⟩ [.int 21] (running f 2)) := by
  have hcheck : parsesTo 40 "func f(int n) \x7b return n + n; \x7d" (fun tree =>
      (firstFunction? tree).any fun f =>
        gives 42 (callOn (execute 9) ⟨.identifier, "f", 1, 1⟩ [.int 21] (running f 0))) = true := by
    decide +kernel
  obtain ⟨tree, hparse, hcheck⟩ := exists_of_parsesTo hcheck
  cases hf : firstFunction? tree with
  | none =>
    rw [hf] at hcheck
    cases hcheck
  | some f =>
    rw [hf] at hcheck
    have hdeclared := declared_of_firstFunction? hparse hf
    have h₀ : Moment (running f 0) := moment_running hdeclared nofun
    have h₂ : Moment (running f 2) := moment_running hdeclared nofun
    exact ⟨f, h₀, h₂, hcheck, (callOn_alike h₀ h₂ fun _ => rfl).1 _ _ _ _⟩

end LittleLang.Running
