import LittleLang.Parse
import LittleLang.Proofs.Analysis.Accepted
import LittleLang.Proofs.Positions
import LittleLang.Proofs.Safety.Names
import LittleLang.Proofs.Shape
import LittleLang.Run

/-!
# Functions are found

An analysis resolves a call in textual order, through scopes; a run declares functions as it gets to
them, in one table. They agree on every call that comes after the name of its function in the text:
it finds that function and no other, with as many parameters as it has arguments, at every moment of
every run (`calls_resolved`). What is left are calls of functions that are declared further down, or
nowhere. -/

namespace LittleLang

open Running
open Grammar (Parts Program)

def Unannounced (parts : List Node) (t : Token) : Prop :=
  ∀ name parameters body, .function name parameters body ∈ parts → name.text = t.text →
    ¬name.Before t

def DeclaredIn (parts : List Node) (name : String) (f : Function) : Prop :=
  ∃ token : Token, .function token f.parameters f.body ∈ parts ∧ token.text = name

/-- A name in a part is one of a function before it or in it, or else unannounced: the functions
after the part have their names after it. -/
theorem inOrder_of_before {all : List Node} {known : String → Prop} {ts : List Token}
    {parts : List Node} (h : Parts ts parts) (hts : ts.Pairwise Token.Before)
    (hall : ∀ name parameters body, .function name parameters body ∈ all →
      known name.text ∨ .function name parameters body ∈ parts) :
    InOrder (Unannounced all) known parts := by
  have hlater {us : List Token} {rest : List Node} {t name : Token} {parameters : List Parameter}
      {body : Node} (hrest : Parts us rest) (ht : ∀ u ∈ us, t.Before u)
      (hmem : .function name parameters body ∈ rest) : ¬name.Before t := by
    have hpart : Node.IsPart (· ∈ us) (.function name parameters body) :=
      isPart_of_parts hrest (fun _ hu => hu) _ hmem
    cases hpart with
    | function hname => exact (ht name hname).asymm
    | statements hn => exact absurd rfl hn.ne_function
  induction h generalizing known with
  | finish => exact .nil
  | @function ts us n rest hdecl hrest ih =>
    obtain ⟨-, hus, hbefore⟩ := List.pairwise_append.mp hts
    have hpart : n.IsPart (· ∈ ts) := isPart_declaration hdecl fun _ ht => ht
    cases hdecl with
    | @mk _ name =>
      have hall' (name' : Token) (parameters : List Parameter) (body : Node)
          (hmem : .function name' parameters body ∈ all) :
          (name'.text = name.text ∨ known name'.text) ∨
            .function name' parameters body ∈ rest := by
        rcases hall name' parameters body hmem with hk | hmem
        · exact .inl (.inr hk)
        · rcases List.mem_cons.mp hmem with heq | hmem
          · cases heq
            exact .inl (.inl rfl)
          · exact .inr hmem
      refine .function (hpart.body.imp fun t ht hnew name' parameters body hmem hname => ?_)
        (ih hus hall')
      rw [← hname] at hnew
      exact hlater hrest (hbefore t ht) ((hall' name' parameters body hmem).resolve_left hnew)
  | @statements ts us next nodes reached rest hstmts hr hnext hrest ih =>
    obtain ⟨-, hus, hbefore⟩ := List.pairwise_append.mp hts
    have hstmt : Node.IsStatement (· ∈ ts) (.compound reached) := .compound fun n hn =>
      isStatement_statements hstmts (fun _ ht => ht) n (hr.subset n hn)
    have hall' (name : Token) (parameters : List Parameter) (body : Node)
        (hmem : .function name parameters body ∈ all) :
        known name.text ∨ .function name parameters body ∈ rest := by
      refine (hall name parameters body hmem).imp id fun hmem => ?_
      exact (List.mem_cons.mp hmem).resolve_left nofun
    refine .statements (hstmt.imp fun t ht hnew name parameters body hmem hname => ?_)
      (ih hus hall')
    rw [← hname] at hnew
    exact hlater hrest (hbefore t ht) ((hall' name parameters body hmem).resolve_left hnew)

theorem mem_parts_of_nodes {P : Token → Prop} {programName : String} {parts : List Node}
    (hparts : ∀ n ∈ parts, n.IsPart P) {name : Token} {parameters : List Parameter} {body : Node}
    (h : .function name parameters body ∈ (Node.program programName (.compound parts)).nodes) :
    .function name parameters body ∈ parts := by
  simp only [Node.nodes, List.mem_cons, reduceCtorEq, false_or] at h
  obtain ⟨n, hn, hmem⟩ := Node.mem_nodesOf.mp h
  exact (hparts n hn).eq_function hmem ▸ hn

theorem accepts_of_analyzeWithin {name : String} {parts : List Node}
    (hparts : ∀ n ∈ parts, n.IsPart Spelled) {depth : Nat} {log : Log}
    (h : (analyzeWithin depth log (.program name (.compound parts))).1 = .ok ()) :
    ∃ Γ, Accepts {} false .empty (.compound parts) Γ := by
  obtain ⟨type, hvisit⟩ := Analyzing.visit_of_analyzeWithin (Prod.ext h rfl)
  rw [← Analyzing.visitUnder_free depth none] at hvisit
  obtain ⟨scope, -, hacc⟩ := Analyzing.finds_program hparts type _ hvisit
  exact ⟨_, hacc⟩

/-- A text is parsed and accepted by the analysis. If a run of it fails since there is no function
of a name, or since it has another number of parameters, then at a token of that name which comes
before any declaration of it. And whenever a run evaluates a call after the name of its function,
the machine has that very function under the name, with as many parameters as the call has
arguments. -/
theorem calls_resolved {text : String} {tree : Node} {log : Log} {depth depth' : Nat}
    (hparse : parseWithin .byOffset depth text = .ok tree)
    (haccept : (analyzeWithin depth' log tree).1 = .ok ()) {m : Machine} (hm : m.stack = [])
    (depth'' : Nat) :
    (∀ e name token, (m.interpretWithin depth'' tree).1 = .error e → Misses e name token →
      ∃ t, token = some t ∧ t.text = name ∧ ∀ declaration parameters body,
        .function declaration parameters body ∈ tree.nodes → declaration.text = name →
        ¬declaration.Before t) ∧
    ∀ t arguments m', Evaluates { m with functions := {} } depth'' tree (.call t arguments) m' →
      ∀ declaration parameters body, .function declaration parameters body ∈ tree.nodes →
        declaration.text = t.text → declaration.Before t →
        m'.functions.get? t.text = some ⟨parameters, body⟩ ∧
          parameters.length = arguments.length := by
  obtain ⟨parts, rfl, hparts⟩ := parts_of_parseWithin hparse
  obtain ⟨scope, hacc⟩ := accepts_of_analyzeWithin hparts haccept
  have horder : InOrder (Unannounced parts) (fun _ => False) parts := by
    cases (derivable_of_parseWithin hparse).2 with
    | mk h => exact inOrder_of_before h (pairwise_tokenize text) fun _ _ _ hmem => .inr hmem
  have hdecl (name : Token) (parameters : List Parameter) (body : Node)
      (hmem : .function name parameters body ∈ parts) :
      DeclaredIn parts name.text ⟨parameters, body⟩ := ⟨name, hmem, rfl⟩
  refine ⟨fun e name token he hmiss => ?_, ?_⟩
  · have hseen : ∀ n m r, Resolves (Unannounced parts) (DeclaredIn parts) m.functions n →
        (fun _ _ r => r : Node → Monitor) n m r = r := fun _ _ _ _ => rfl
    have hexcused := (named_program hseen hacc horder hdecl hm depth'' "main").2 e he
    obtain ⟨t, htoken, rfl, hlate⟩ := hexcused.functions name token hmiss
    exact ⟨t, htoken, rfl, fun _ _ _ hmem => hlate _ _ _ (mem_parts_of_nodes hparts hmem)⟩
  · intro t arguments m' hmoment declaration parameters body hmem hname hbefore
    have hmem := mem_parts_of_nodes hparts hmem
    have hresolves : Resolves (Unannounced parts) (DeclaredIn parts) m'.functions
        (.call t arguments) :=
      hmoment.of_passes
        (Q := fun n m' => Resolves (Unannounced parts) (DeclaredIn parts) m'.functions n)
        fun seen hseen => (named_program hseen hacc horder hdecl hm depth'' "main").1
    rcases hresolves t arguments rfl with hlate | ⟨⟨parameters', body'⟩, hf, hlength, token, hmem', htext⟩
    · exact absurd hbefore (hlate _ _ _ hmem hname)
    · obtain ⟨rfl, rfl⟩ := hacc.function_unique hmem' hmem (htext.trans hname.symm)
      exact ⟨hf, hlength⟩

/-- The run fails for a function of a name. -/
def failsFor (name : String) : Except Failure Value → Bool
  | .error (.runtime (.functionNotFound f) _) => f = name
  | _ => false

theorem eq_of_failsFor {name : String} {r : Except Failure Value} (h : failsFor name r = true) :
    ∃ e token, r = .error e ∧ Misses e name token := by
  unfold failsFor at h
  split at h
  · next f token =>
    obtain rfl : f = name := by simpa using h
    exact ⟨_, token, rfl, .inl rfl⟩
  · cases h

def startsWithCall : Node → Bool
  | .program _ (.compound (.function name _ _ :: .compound [.call t _] :: _)) =>
    name.text = t.text && name.Before t
  | _ => false

/-- A run of such a program gets to the call. -/
theorem exists_moment {P : Token → Prop} {name : String} {parts : List Node}
    (h : startsWithCall (.program name (.compound parts)) = true)
    (hparts : ∀ n ∈ parts, n.IsPart P) {start : Machine} (hs : start.stack = []) {depth : Nat}
    (hrun : (start.perform (execute (depth + 4) (.program name (.compound parts)))).1 ≠
      .error .strayReturn) :
    ∃ declaration parameters body t arguments m',
      .function declaration parameters body ∈ (Node.program name (.compound parts)).nodes ∧
      declaration.text = t.text ∧ declaration.Before t ∧
      Evaluates start (depth + 4) (.program name (.compound parts)) (.call t arguments) m' := by
  unfold startsWithCall at h
  split at h
  · next declaration parameters body t arguments rest heq =>
    cases heq
    obtain ⟨htext, hbefore⟩ := (Bool.and_eq_true _ _).mp h
    have hcall : (Node.call t arguments).IsExpression P := by
      cases hparts (.compound [.call t arguments]) (by simp) with
      | statements hn =>
        cases hn with
        | compound hn =>
          cases hn _ (List.mem_singleton.mpr rfl) with
          | expression hn => exact hn
        | expression hn => cases hn
    obtain ⟨m₀, henter, hstack⟩ := enter_program hs name
    obtain ⟨m', hdeclared, hstack'⟩ : ∃ m', [Node.function declaration parameters body].foldlM
        (fun _ n => execute (depth + 2) n) Value.none m₀ = .ok .none m' ∧ m'.stack = m₀.stack :=
      ⟨_, rfl, rfl⟩
    have hmoment := evaluates_first [.function declaration parameters body] rest hcall
      (fun n hn => ⟨declaration, parameters, body, List.mem_singleton.mp hn⟩) henter hdeclared
      (hstack'.trans hstack) hrun
    exact ⟨declaration, parameters, body, t, arguments, m', by simp [Node.nodes, Node.nodesOf],
      of_decide_eq_true htext, of_decide_eq_true hbefore, hmoment⟩
  · cases h

/-- A call of a function that is declared calls one which is not, when the run gets there. -/
theorem calls_resolved_mutual :
    ∃ tree, parseWithin .byOffset 60 ("func f(int n) \x7b return g(n); \x7d f(1); " ++
        "func g(int n) \x7b return n; \x7d") = .ok tree ∧
      (analyzeWithin 60 { level := 0 } tree).1 = .ok () ∧
      (∃ e token t, ((Machine.start { level := 0 }).interpretWithin 60 tree).1 = .error e ∧
        Misses e "g" token ∧ token = some t ∧ t.text = "g" ∧ ∀ declaration parameters body,
          .function declaration parameters body ∈ tree.nodes → declaration.text = "g" →
          ¬declaration.Before t) ∧
      ∃ declaration parameters body t arguments m,
        .function declaration parameters body ∈ tree.nodes ∧ declaration.text = t.text ∧
        declaration.Before t ∧
        Evaluates { Machine.start { level := 0 } with functions := {} } 60 tree
          (.call t arguments) m ∧
        m.functions.get? t.text = some ⟨parameters, body⟩ ∧
        parameters.length = arguments.length := by
  have hcheck : parsesTo 60 ("func f(int n) \x7b return g(n); \x7d f(1); " ++
      "func g(int n) \x7b return n; \x7d") (fun tree =>
        (analyzeWithin 60 { level := 0 } tree).1.toBool &&
          (failsFor "g" ((Machine.start { level := 0 }).interpretWithin 60 tree).1 &&
            startsWithCall tree)) = true := by
    decide +kernel
  obtain ⟨tree, hparse, hcheck⟩ := exists_of_parsesTo hcheck
  obtain ⟨haccept, hcheck⟩ := (Bool.and_eq_true _ _).mp hcheck
  obtain ⟨hfail, hstart⟩ := (Bool.and_eq_true _ _).mp hcheck
  have haccept : (analyzeWithin 60 { level := 0 } tree).1 = .ok () := by
    cases h : (analyzeWithin 60 { level := 0 } tree).1 with
    | ok _ => rfl
    | error e =>
      rw [h] at haccept
      cases haccept
  obtain ⟨hmiss, hmoment⟩ :=
    calls_resolved hparse haccept (rfl : (Machine.start { level := 0 }).stack = []) 60
  refine ⟨tree, hparse, haccept, ?_, ?_⟩
  · obtain ⟨e, token, he, hm⟩ := eq_of_failsFor hfail
    obtain ⟨t, htoken, htext, hlate⟩ := hmiss e _ _ he hm
    exact ⟨e, token, t, he, hm, htoken, htext, hlate⟩
  · obtain ⟨parts, rfl, hparts⟩ := parts_of_parseWithin hparse
    have hrun : ((Machine.start { level := 0 }).interpretWithin 60
        (.program "main" (.compound parts))).1 ≠ .error .strayReturn := by
      intro h
      rw [h] at hfail
      cases hfail
    obtain ⟨declaration, parameters, body, t, arguments, m, hmem, htext, hbefore, hm⟩ :=
      exists_moment hstart hparts rfl hrun
    exact ⟨declaration, parameters, body, t, arguments, m, hmem, htext, hbefore, hm,
      hmoment t arguments m hm _ _ _ hmem htext hbefore⟩

end LittleLang
