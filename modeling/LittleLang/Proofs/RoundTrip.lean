import LittleLang.Proofs.Acceptance
import LittleLang.Proofs.Analysis.Accepted
import LittleLang.Proofs.Analysis.Declarations
import LittleLang.Proofs.Analysis.Release
import LittleLang.Proofs.Literals
import LittleLang.Proofs.Recovery
import LittleLang.Proofs.Run.Logic
import LittleLang.Run

/-!
# Printed values read back

The text of a bool, or of an integer that is not too long to be read, is a program, and running it
gives the value again (`run_text`). Such a text is a literal, perhaps with a minus before it
(`Constant`): its tokens are those of a program, which the analysis accepts and whose value is the
one that was written. It has few tokens however many digits it has, so no depth but a very small one
is too small for it.
-/

open LittleLang.Grammar

namespace LittleLang

/-! ## Texts of values -/

namespace Value

/-- A bool, or an integer with no more digits than can be read. -/
def IsShort : Value → Prop
  | int n => (Nat.toDigits 10 n.natAbs).length ≤ NumberFault.maxDigits
  | bool _ => True
  | float _ | none => False

theorem isShort_int {n : Int} :
    (int n).IsShort ↔ (Nat.toDigits 10 n.natAbs).length ≤ NumberFault.maxDigits := Iff.rfl

end Value

/-! ## Decimal numerals -/

theorem length_toDigits_le {m k : Nat} (hk : 0 < k) :
    (Nat.toDigits 10 m).length ≤ k ↔ m < Nat.pow 10 k :=
  Nat.length_toDigits_le_iff (by decide) hk

theorem digits_toDigits (m : Nat) : Digits (Nat.toDigits 10 m) :=
  ⟨Nat.toDigits_ne_nil, fun _ hc => Nat.isDigit_of_mem_toDigits (by decide) (by decide) hc⟩

theorem toString_natCast (m : Nat) : toString (m : Int) = String.ofList (Nat.toDigits 10 m) :=
  Nat.repr_eq_ofList_toDigits

theorem toString_neg {m : Nat} (hm : 0 < m) :
    toString (-(m : Int)) = String.ofList ('-' :: Nat.toDigits 10 m) := by
  rw [Int.toString_eq_repr, Int.repr_eq_if, if_neg (by omega), Int.neg_neg, Int.toNat_natCast,
    Nat.repr_eq_ofList_toDigits]
  exact String.ofList_append.symm

theorem readInt_toDigits {m : Nat} (h : (Nat.toDigits 10 m).length ≤ NumberFault.maxDigits) :
    Number.readInt (String.ofList (Nat.toDigits 10 m)) = .ok m := by
  have hdigits := digits_toDigits m
  have hvalue : Number.digitsValue (Nat.toDigits 10 m) = m := Nat.ofDigitChars_ten_toDigits
  obtain ⟨c, cs, hcs⟩ := List.exists_cons_of_ne_nil hdigits.1
  rw [hcs] at hdigits h hvalue ⊢
  rw [Number.readInt_eq_of_digits hdigits.2, if_neg (Nat.not_lt_of_le h), hvalue]

theorem Value.text_int {n : Int} (h : (Value.int n).IsShort) :
    (Value.int n).text = .ok (toString n) := by
  have hlt : n.natAbs < Nat.pow 10 NumberFault.maxDigits :=
    (length_toDigits_le (by decide)).mp h
  unfold text intText firstTooLong
  exact if_pos hlt

/-! ## Constants -/

/-- The tokens and the tree of a constant, with its value: a literal, or an integer literal with a
minus before it. -/
inductive Constant : List Token → Node → Value → Prop where
  | bool {t : Token} {b : Bool} : t.kind = .kwTrue ∨ t.kind = .kwFalse →
      Number.readBool t.text = .ok b → Constant [t] (.boolLiteral t) (.bool b)
  | int {t : Token} {n : Int} : t.kind = .intLiteral → Number.readInt t.text = .ok n →
      Constant [t] (.intLiteral t) (.int n)
  | negative {op t : Token} {n : Int} : op.kind = .minus → t.kind = .intLiteral →
      Number.readInt t.text = .ok n → Constant [op, t] (.unary op (.intLiteral t)) (.int (-n))

namespace Constant

variable {ts : List Token} {n : Node} {v : Value}

theorem standing (h : Constant ts n v) : Standing ts n := by
  cases h with
  | bool hk => exact .mk (by rcases hk with hk | hk <;> simp [hk]) (.bool (.single (.truth hk)))
  | int hk => exact .mk (by simp [hk]) (.number (.single (.single (.int hk))))
  | negative hop hk =>
    exact .mk (by simp [hop]) (.number (.single (.single (.sign (.inr hop) (.int hk)))))

theorem length_le (h : Constant ts n v) : ts.length ≤ 2 := by
  cases h <;> simp

theorem program (h : Constant ts n v) {last : Token} (hlast : last.kind = .endOfInput) :
    Program (ts ++ [last]) (.program "main" (.compound [.compound [n]])) := by
  have hreached : Reached [n] [n] := by
    refine .all fun m hm w => ?_
    cases List.mem_singleton.mp hm
    cases h <;> nofun
  exact .mk (.statements (.standing (.inr hlast) h.standing) hreached (.inr hlast) (.finish hlast))

end Constant

/-! ## Reading the text of a value -/

theorem sweep_adjacent {l : Lexeme} {p : Place} {rest : List Char} {ts : List Token}
    (hread : Lexeme.read (l.spelling ++ rest) = some l) (h : Sweep (p.pass l.spelling) rest ts []) :
    ∃ t, Sweep p (l.spelling ++ rest) (t :: ts) [] ∧ t.kind = l.kind ∧
      t.text = String.ofList l.text := by
  have hsweep : Sweep p ([] ++ (l.spelling ++ rest)) _ [] := .token nofun hread h
  exact ⟨_, hsweep, rfl, rfl⟩

theorem sweep_lexeme {l : Lexeme} (h : l.IsLexeme) (p : Place) :
    ∃ t last, Sweep p l.spelling [t, last] [] ∧ t.kind = l.kind ∧ t.text = String.ofList l.text ∧
      last.kind = .endOfInput := by
  have hread : Lexeme.read (l.spelling ++ []) = some l := by
    rw [List.append_nil]
    exact h.read_spelling
  obtain ⟨t, hsweep, hk, ht⟩ := sweep_adjacent hread (.finish nofun)
  rw [List.append_nil] at hsweep
  exact ⟨t, _, hsweep, hk, ht, rfl⟩

theorem isLexeme_digits {cs : List Char} (h : Digits cs) : Lexeme.IsLexeme ⟨.intLiteral, cs, cs⟩ := by
  have hnumber := Lexeme.IsLexeme.number h (.inl rfl) (.inl rfl)
  simpa using hnumber

theorem tokenize_ofList {cs : List Char} {ts : List Token} (h : Sweep {} cs ts []) :
    tokenize (String.ofList cs) = (ts, none) := by
  rw [← String.toList_ofList (l := cs)] at h
  exact h.tokenize_eq

/-- The tokens of a text are those of a constant. -/
def ReadsAs (text : String) (v : Value) : Prop :=
  ∃ ts last n, tokenize text = (ts ++ [last], none) ∧ last.kind = .endOfInput ∧ Constant ts n v

theorem readsAs_natCast {m : Nat} (h : (Nat.toDigits 10 m).length ≤ NumberFault.maxDigits) :
    ReadsAs (toString (m : Int)) (.int m) := by
  obtain ⟨t, last, hsweep, hk, ht, hlast⟩ := sweep_lexeme (isLexeme_digits (digits_toDigits m)) {}
  rw [toString_natCast]
  exact ⟨[t], last, _, tokenize_ofList hsweep, hlast, .int hk (ht ▸ readInt_toDigits h)⟩

theorem read_minus {cs : List Char} (h : Digits cs) :
    Lexeme.read (['-'] ++ cs) = some ⟨.minus, ['-'], ['-']⟩ := by
  obtain ⟨c, cs, rfl⟩ := List.exists_cons_of_ne_nil h.1
  rfl

theorem readsAs_neg {m : Nat} (hm : 0 < m)
    (h : (Nat.toDigits 10 m).length ≤ NumberFault.maxDigits) :
    ReadsAs (toString (-(m : Int))) (.int (-m)) := by
  have hdigits := digits_toDigits m
  obtain ⟨t, last, hsweep, hk, ht, hlast⟩ :=
    sweep_lexeme (isLexeme_digits hdigits) (Place.pass {} ['-'])
  obtain ⟨op, hsweep, hop, -⟩ :=
    sweep_adjacent (l := ⟨.minus, ['-'], ['-']⟩) (read_minus hdigits) hsweep
  rw [toString_neg hm]
  exact ⟨[op, t], last, _, tokenize_ofList hsweep, hlast,
    .negative hop hk (ht ▸ readInt_toDigits h)⟩

theorem exists_readsAs {v : Value} (h : v.IsShort) : ∃ text, v.text = .ok text ∧ ReadsAs text v := by
  cases v with
  | bool b =>
    cases b with
    | false => exact ⟨"false", rfl, _, _, _, rfl, rfl, .bool (.inr rfl) rfl⟩
    | true => exact ⟨"true", rfl, _, _, _, rfl, rfl, .bool (.inl rfl) rfl⟩
  | int n =>
    refine ⟨toString n, Value.text_int h, ?_⟩
    rw [Value.isShort_int] at h
    rcases Int.lt_or_le n 0 with hn | hn
    · obtain ⟨m, hm, rfl⟩ : ∃ m : Nat, 0 < m ∧ n = -(m : Int) := ⟨n.natAbs, by omega, by omega⟩
      rw [Int.natAbs_neg, Int.natAbs_natCast] at h
      exact readsAs_neg hm h
    · obtain ⟨m, rfl⟩ : ∃ m : Nat, n = (m : Int) := ⟨n.natAbs, by omega⟩
      rw [Int.natAbs_natCast] at h
      exact readsAs_natCast h
  | float _ => exact h.elim
  | none => exact h.elim

/-! ## Analysis -/

namespace Analyzing

theorem visit_single {node : Node} {scope : Option Nat} {s s' : Analysis} {type : Option Symbol}
    {depth : Nat} (h : visit depth node scope s = .ok type s') :
    visit (depth + 1) (.compound [node]) scope s = .ok none s' := by
  have hdiscard : discard (visit depth node scope) s = .ok () s' := bind_of_ok h
  have hchildren : (forM [node] fun child => discard (visit depth child scope) : Analyzing PUnit) s =
      .ok () s' := by
    rw [List.forM_cons]
    exact bind_of_ok hdiscard
  rw [visit_succ]
  exact bind_of_ok hchildren

theorem noteScope_eq {s : Analysis} {i : Nat} {scope : Scope}
    (h : s.arena.slots[i]? = some (some scope)) :
    noteScope (some i) s = .ok () { s with log := s.log.write 1 scope.text } := by
  have hask : ask (·.fetch i) s = .ok scope s := ask_eq (Arena.fetch_eq h)
  unfold noteScope here
  rw [pure_bind, bind_of_ok hask]
  rfl

theorem exists_visit_program {block : Node} {name : String} {log : Log} {depth : Nat}
    (h : ∀ s, IsRoot s 0 (rootScope name) → ∃ type, visit depth block (some 0) s = .ok type s) :
    ∃ s', visit (depth + 1) (.program name block) none { log } = .ok none s' := by
  obtain ⟨s, hbuiltins, hs, hroot⟩ : ∃ s : Analysis, change (·.addBuiltins (0 : Nat))
        { Analysis.opened log name false with root := some 0 } = .ok () s ∧
      IsRoot s 0 (rootScope name) ∧ s.root = some 0 :=
    ⟨_, change_eq rfl, isRoot_rootScope name rfl rfl, rfl⟩
  obtain ⟨type, hblock⟩ := h s hs
  have hdiscard : discard (visit depth block (some 0)) s = .ok () s := bind_of_ok hblock
  have hnote := noteScope_eq hs.stands.sees.slot
  rw [← hroot] at hnote
  rw [Analysis.visit_program]
  exact ⟨_, (bind_of_ok hbuiltins).trans ((bind_of_ok hdiscard).trans (bind_of_ok hnote))⟩

end Analyzing

namespace Constant

variable {ts : List Token} {n : Node} {v : Value}

open Analyzing

theorem visit_eq (h : Constant ts n v) {s : Analysis} {name : String}
    (hroot : IsRoot s 0 (rootScope name)) (depth : Nat) :
    ∃ type, visit (depth + 2) n (some 0) s = .ok type s := by
  have hlookup (type : Symbol) (ht : type ∈ typeSymbols) :
      Analyzing.lookup (some 0) type.name s = .ok (some type) s := by
    have hfound := hroot.stands.sees.lookup type.name
    rw [hroot.stands.types type ht] at hfound
    exact lookup_apply hfound
  have hint : Analyzing.lookup (some 0) intType s = .ok (some (.builtin 0 intType)) s :=
    hlookup (.builtin 0 intType) (by simp [typeSymbols])
  cases h with
  | bool => exact ⟨_, hlookup (.builtin 2 boolType) (by simp [typeSymbols])⟩
  | int => exact ⟨_, hint⟩
  | @negative op t _ hop =>
    have hcheck : checkOperator op (some (.builtin 0 intType)) s = .ok () s := by
      obtain ⟨kind, text, line, column⟩ := op
      cases hop
      rfl
    refine ⟨some (.builtin 0 intType), ?_⟩
    have hoperand : visit (depth + 1) (.intLiteral t) (some 0) s =
        .ok (some (.builtin 0 intType)) s := hint
    exact (bind_of_ok hoperand).trans (bind_of_ok hcheck)

theorem analyzeWithin_eq (h : Constant ts n v) (log : Log) (depth : Nat) :
    (analyzeWithin (depth + 5) log (.program "main" (.compound [.compound [n]]))).1 = .ok () := by
  have hblock (s : Analysis) (hroot : IsRoot s 0 (rootScope "main")) :
      ∃ type, visit (depth + 4) (.compound [.compound [n]]) (some 0) s = .ok type s := by
    obtain ⟨type, hn⟩ := h.visit_eq hroot depth
    exact ⟨none, visit_single (visit_single hn)⟩
  obtain ⟨s', hvisit⟩ := exists_visit_program hblock
  unfold analyzeWithin Analysis.analyzeWithin
  rw [show (Analysis.start log).log = log from rfl, hvisit]

end Constant

/-! ## Runs -/

namespace Running

variable {F : Table Function} {M : Table Value} {post : Value → Prop} {fails : Failure → Prop}

theorem yields_single {node : Node} {depth : Nat}
    (h : Yields F M (execute depth node) (execute depth node) post fails) :
    Yields F M (execute (depth + 1) (.compound [node])) (execute (depth + 1) (.compound [node])) post
      fails := by
  rw [execute_succ]
  simp only [executeNode, List.foldlM_cons, List.foldlM_nil]
  exact h.bind fun v hv => yields_pure hv

/-- A program gives the value of its block, where that cannot fail. -/
theorem interpretWithin_of_yields {log : Log} {name : String} {block : Node} {depth : Nat} {v : Value}
    (h : Yields {} {} (execute depth block) (execute depth block) (· = v) fun _ => False) :
    (interpretWithin (depth + 1) log (.program name block)).1 = .ok v := by
  obtain ⟨-, hend⟩ := concludes_program (m := { Machine.start log with functions := {} }) rfl h
    (evaluate depth) (evaluate depth) name
  rw [← execute_succ] at hend
  obtain ⟨record, F, -, hok, hfail⟩ := hend.perform
  show ((Machine.start log).interpretWithin (depth + 1) (.program name block)).1 = .ok v
  cases hresult : ((Machine.start log).interpretWithin (depth + 1) (.program name block)).1 with
  | ok w =>
    rcases hok w hresult with ⟨-, rfl⟩ | ⟨-, _, hreturned, -⟩
    · rfl
    · cases hreturned
  | error e =>
    obtain ⟨-, _, -, hfalse⟩ := hfail e hresult
    exact hfalse.elim

end Running

namespace Constant

open Running

variable {ts : List Token} {n : Node} {v : Value}

theorem yields_evaluate (h : Constant ts n v) (F : Table Function) (M : Table Value) (depth : Nat) :
    Yields F M (evaluate (depth + 2) n) (evaluate (depth + 2) n) (· = v) fun _ => False := by
  cases h with
  | bool _ hr =>
    rw [evaluate_succ]
    simp only [evaluateNode, hr]
    exact yields_pure rfl
  | int _ hr =>
    rw [evaluate_succ]
    simp only [evaluateNode, hr]
    exact yields_pure rfl
  | @negative op t m hop _ hr =>
    rw [evaluate_succ]
    simp only [evaluateNode]
    rw [evaluate_succ]
    simp only [evaluateNode, hr]
    have hoperand : Yields F M (pure (.int m)) (pure (.int m)) (· = Value.int m) fun _ => False :=
      yields_pure rfl
    refine hoperand.bind ?_
    rintro _ rfl
    have hminus : Value.applyUnary op (.int m) = .ok (.int (-m)) := by
      rw [Value.applyUnary, hop]
      rfl
    rw [hminus]
    exact yields_pure rfl

theorem execute_eq (h : Constant ts n v) (depth : Nat) :
    execute (depth + 1) n = evaluate depth n := by
  rw [execute_succ]
  cases h <;> rfl

theorem interpretWithin_eq (h : Constant ts n v) (log : Log) (depth : Nat) :
    (interpretWithin (depth + 6) log (.program "main" (.compound [.compound [n]]))).1 = .ok v := by
  refine interpretWithin_of_yields (yields_single (yields_single ?_))
  rw [h.execute_eq]
  exact h.yields_evaluate {} {} depth

end Constant

/-- What is read as a value gives that value, at all depths but a few. -/
theorem ReadsAs.runWithin_eq {text : String} {v : Value} (h : ReadsAs text v) (log : Log)
    {depth : Nat} (hd : 34 ≤ depth) : (runWithin depth log text).1 = .ok v := by
  obtain ⟨ts, last, n, htokens, hlast, hconstant⟩ := h
  have henough : 8 * (ts ++ [last]).length + 10 ≤ depth := by
    have hlen := hconstant.length_le
    simp only [List.length_append, List.length_singleton]
    omega
  have hparse := parseWithin_of_tokens htokens (hconstant.program hlast) henough
  obtain ⟨depth, rfl⟩ : ∃ d, depth = d + 6 := ⟨depth - 6, by omega⟩
  have hanalyze := hconstant.analyzeWithin_eq log (depth + 1)
  unfold runWithin
  rw [hparse]
  dsimp only
  generalize analyzeWithin (depth + 6) log _ = r at hanalyze
  obtain ⟨result, log'⟩ := r
  cases hanalyze
  exact hconstant.interpretWithin_eq log' depth

/-- Printed values read back: the text of a bool, or of an integer with no more digits than can be
read, is a program, and running it gives the value again. -/
theorem run_text (log : Log) {v : Value} (h : v.IsShort) :
    ∃ text, v.text = .ok text ∧ (run log text).1 = .ok v := by
  obtain ⟨text, htext, hreads⟩ := exists_readsAs h
  exact ⟨text, htext, hreads.runWithin_eq log (by decide)⟩

theorem run_text_negative : (Value.int (-40500)).IsShort ∧
    ∃ text, (Value.int (-40500)).text = .ok text ∧
      (run (Log.start 1 true) text).1 = .ok (.int (-40500)) :=
  have hshort : (Value.int (-40500)).IsShort := Value.isShort_int.mpr (by decide)
  ⟨hshort, run_text (Log.start 1 true) hshort⟩

end LittleLang
