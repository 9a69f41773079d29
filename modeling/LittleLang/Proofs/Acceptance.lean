import LittleLang.Proofs.Memo.Rules
import LittleLang.Proofs.Unambiguity

/-!
# Which texts are parsed

The two main results about the parser. Its memo changes no outcome, but for the token that is blamed
where a text ends in `!` (`parseWithin_sameOutcome`). And it accepts exactly the grammar, which
gives at most one tree for a sequence of tokens (`parseWithin_eq_ok_iff`).

A parser of too small a depth gives up; `enoughDepth` says which depth is enough for a text.
-/

open LittleLang.Stream LittleLang.Grammar

namespace LittleLang

open Parsing

/-! ## Depth -/

/-- A depth at which the text is parsed without giving up. -/
def enoughDepth (text : String) : Nat :=
  8 * text.length + 18

theorem parseWithin_eq_outcome {text : String} {s : Stream} (h : Stream.ofText text = .ok s)
    (reuse : Reuse) (depth : Nat) :
    parseWithin reuse depth text = outcome (program reuse depth s []) := by
  unfold parseWithin
  rw [h]
  dsimp only
  cases program reuse depth s [] <;> rfl

theorem parseWithin_eq_lexical {text : String} {e : LexicalError}
    (h : Stream.ofText text = .error e) (reuse : Reuse) (depth : Nat) :
    parseWithin reuse depth text = .error (.lexical e) := by
  unfold parseWithin
  rw [h]

/-- Without a memo, parsing gives what the grammar derives, or it fails on a token or at a depth
that is small for the number of tokens. -/
theorem meets_never (text : String) (depth : Nat) :
    match parseWithin .never depth text with
    | .ok tree => (tokenize text).2 = none ∧ Program (tokenize text).1 tree
    | .error e => FailsBelow depth (8 * (tokenize text).1.length + 10) e := by
  unfold tokenize
  cases hs : Stream.ofText text with
  | error e =>
    rw [parseWithin_eq_lexical hs]
    exact .lexical e
  | ok s =>
    rw [parseWithin_eq_outcome hs]
    obtain ⟨hscan, -⟩ := scans_of_ofText hs
    have hmeets := (meets_program hscan.proper : Meets (program .never depth s) _ _) []
    cases hp : program .never depth s [] with
    | ok tree memo =>
      rw [hp] at hmeets
      obtain ⟨ts, last, hr, hprogram⟩ := hmeets
      refine ⟨hr.error?, ?_⟩
      show Program s.tokens tree
      rw [hr.tokens]
      exact hprogram
    | error e memo =>
      rw [hp] at hmeets
      dsimp only
      rw [Stream.length_tokens]
      exact hmeets

theorem failsBelow_tokens {text : String} {depth : Nat} {e : Failure}
    (h : parseWithin .never depth text = .error e) :
    FailsBelow depth (8 * (tokenize text).1.length + 10) e := by
  have hmeets := meets_never text depth
  rwa [h] at hmeets

theorem derivable_of_never {text : String} {depth : Nat} {tree : Node}
    (h : parseWithin .never depth text = .ok tree) :
    (tokenize text).2 = none ∧ Program (tokenize text).1 tree := by
  have hmeets := meets_never text depth
  rwa [h] at hmeets

theorem length_tokenize_le (text : String) : (tokenize text).1.length ≤ text.length + 1 := by
  unfold tokenize
  cases hs : Stream.ofText text with
  | error e => exact Nat.zero_le _
  | ok s =>
    dsimp only
    rw [Stream.length_tokens]
    exact (scans_of_ofText hs).2

theorem failsBelow_never {text : String} {depth : Nat} {e : Failure}
    (h : parseWithin .never depth text = .error e) : FailsBelow depth (enoughDepth text) e := by
  have hlen := length_tokenize_le text
  exact (failsBelow_tokens h).le (by unfold enoughDepth; omega)

theorem agree_parseWithin (text : String) (depth depth' : Nat) :
    Agree (depth < depth') (text.toList.getLast? = some '!') (parseWithin .byOffset depth text)
      (parseWithin .never depth' text) := by
  cases hs : Stream.ofText text with
  | error e =>
    rw [parseWithin_eq_lexical hs, parseWithin_eq_lexical hs]
    exact .same _
  | ok s =>
    rw [parseWithin_eq_outcome hs, parseWithin_eq_outcome hs]
    obtain ⟨hscan, -⟩ := scans_of_ofText hs
    have hfollow := follows_program hscan.proper hscan.ordered depth depth' [] [] (sound_nil s)
    have hblur : Blurred s → text.toList.getLast? = some '!' := by
      rintro ⟨ts, l, e, hr, hk, hstop⟩
      have htext : text.toList = [] ++ (Cursor.ofText text).rest := by
        simp [Cursor.ofText, Cursor.start]
      exact hscan.bang_last htext hr hk hstop
    cases hp : program .byOffset depth s [] with
    | ok tree memo =>
      rw [hp] at hfollow
      exact hfollow.2.2.imp id hblur
    | error e memo =>
      rw [hp] at hfollow
      exact hfollow.2.imp id hblur

/-- Nor does parsing with the memo fail in another way. -/
theorem failsBelow_byOffset {text : String} {depth : Nat} {e : Failure}
    (h : parseWithin .byOffset depth text = .error e) : FailsBelow depth (enoughDepth text) e := by
  -- It is compared with the parser without a memo at a depth that is enough.
  have hagree := agree_parseWithin text depth (max depth (enoughDepth text))
  rw [h] at hagree
  have hnever {e' : Failure}
      (h' : parseWithin .never (max depth (enoughDepth text)) text = .error e') :
      FailsBelow depth (enoughDepth text) e' :=
    (failsBelow_never h').imp fun hlt => by omega
  generalize hr : parseWithin .never (max depth (enoughDepth text)) text = r at hagree
  cases hagree with
  | same => exact hnever hr
  | token t t' => exact .unexpected t
  | deepSecond =>
    cases failsBelow_never hr with
    | tooDeep hlt => omega
  | deepFirst _ hlt => exact .tooDeep (by omega)

theorem parseWithin_ne_tooDeep {text : String} {depth : Nat} (h : enoughDepth text ≤ depth) :
    parseWithin .byOffset depth text ≠ .error .tooDeep ∧
      parseWithin .never depth text ≠ .error .tooDeep := by
  constructor
  · intro hd
    cases failsBelow_byOffset hd with
    | tooDeep hlt => omega
  · intro hd
    cases failsBelow_never hd with
    | tooDeep hlt => omega

/-! ## The memo -/

/-- The same tree, the same lexical error, or a token that does not fit in both. The token is the
same too, unless the text ends in `!`. -/
inductive SameOutcome (text : String) : Except Failure Node → Except Failure Node → Prop where
  | tree (n : Node) : SameOutcome text (.ok n) (.ok n)
  | lexical (e : LexicalError) : SameOutcome text (.error (.lexical e)) (.error (.lexical e))
  | unexpected (t t' : Token) : t = t' ∨ text.toList.getLast? = some '!' →
      SameOutcome text (.error (.unexpected t)) (.error (.unexpected t'))

/-- The memo changes no outcome: at any two depths, parsing with it and without it come to the same
unless one of them gives up, and at a depth that is enough for the text none does. -/
theorem parseWithin_sameOutcome (text : String) :
    (∀ depth depth', parseWithin .byOffset depth text = .error .tooDeep ∨
      parseWithin .never depth' text = .error .tooDeep ∨
      SameOutcome text (parseWithin .byOffset depth text) (parseWithin .never depth' text)) ∧
    ∀ depth, enoughDepth text ≤ depth → parseWithin .byOffset depth text ≠ .error .tooDeep ∧
      parseWithin .never depth text ≠ .error .tooDeep := by
  refine ⟨fun depth depth' => ?_, fun depth h => parseWithin_ne_tooDeep h⟩
  have hagree := agree_parseWithin text depth depth'
  generalize hp : parseWithin .byOffset depth text = p at hagree
  generalize hq : parseWithin .never depth' text = q at hagree
  cases hagree with
  | same =>
    cases p with
    | ok tree => exact .inr (.inr (.tree tree))
    | error e =>
      cases failsBelow_byOffset hp with
      | lexical e => exact .inr (.inr (.lexical e))
      | unexpected t => exact .inr (.inr (.unexpected t t (.inl rfl)))
      | tooDeep => exact .inl rfl
  | token t t' hbang => exact .inr (.inr (.unexpected t t' (.inr hbang)))
  | deepSecond => exact .inr (.inl rfl)
  | deepFirst => exact .inl rfl

-- A text that ends in `!` is where the blame differs: the memo has the end of the text for it.
example : parseWithin .byOffset 9 "!" = .error (.unexpected ⟨.endOfInput, "", 1, 2⟩) ∧
    parseWithin .never 9 "!" = .error (.unexpected ⟨.bang, "!", 1, 1⟩) :=
  ⟨rfl, rfl⟩

/-! ## The grammar -/

theorem never_of_derivable {text : String} {tree : Node} (he : (tokenize text).2 = none)
    (h : Program (tokenize text).1 tree) (depth : Nat) :
    parseWithin .never depth text = .error .tooDeep ∨
      parseWithin .never depth text = .ok tree := by
  unfold tokenize at he h
  cases hs : Stream.ofText text with
  | error e =>
    rw [hs] at he
    cases he
  | ok s =>
    rw [hs] at h
    rw [parseWithin_eq_outcome hs]
    have hreturns := (returns_program h : Returns (program .never depth s) tree) []
    cases hp : program .never depth s [] with
    | ok tree' memo =>
      rw [hp] at hreturns
      exact .inr (congrArg Except.ok hreturns)
    | error e memo =>
      rw [hp] at hreturns
      exact .inl (congrArg Except.error hreturns)

theorem parseWithin_of_tokens {text : String} {ts : List Token} {tree : Node} {depth : Nat}
    (hts : tokenize text = (ts, none)) (h : Program ts tree) (hd : 8 * ts.length + 10 ≤ depth) :
    parseWithin .byOffset depth text = .ok tree := by
  have hnever : parseWithin .never depth text = .ok tree := by
    rcases never_of_derivable (by rw [hts]) (by rwa [hts]) depth with hdeep | hok
    · have hfails := failsBelow_tokens hdeep
      rw [hts] at hfails
      cases hfails with
      | tooDeep hlt => exact absurd hd (Nat.not_le_of_lt hlt)
    · exact hok
  have hagree := agree_parseWithin text depth depth
  rw [hnever] at hagree
  generalize parseWithin .byOffset depth text = p at hagree
  cases hagree with
  | same => rfl
  | deepFirst _ hlt => exact absurd hlt (Nat.lt_irrefl depth)

theorem derivable_of_parseWithin {text : String} {depth : Nat} {tree : Node}
    (h : parseWithin .byOffset depth text = .ok tree) :
    (tokenize text).2 = none ∧ Program (tokenize text).1 tree := by
  have hagree := agree_parseWithin text depth (enoughDepth text)
  rw [h] at hagree
  generalize hr : parseWithin .never (enoughDepth text) text = r at hagree
  cases hagree with
  | same => exact derivable_of_never hr
  | deepSecond => exact absurd hr (parseWithin_ne_tooDeep (Nat.le_refl (enoughDepth text))).2

/-- The parser accepts exactly its grammar: unless it gives up for its depth, it gives a tree if and
only if the text is read without a lexical error and the grammar derives the tree from its tokens.
At a depth that is enough for the text it does not give up. The grammar gives at most one tree. -/
theorem parseWithin_eq_ok_iff (text : String) :
    (∀ depth tree, parseWithin .byOffset depth text = .ok tree ↔
      parseWithin .byOffset depth text ≠ .error .tooDeep ∧ (tokenize text).2 = none ∧
        Program (tokenize text).1 tree) ∧
    (∀ depth, enoughDepth text ≤ depth → parseWithin .byOffset depth text ≠ .error .tooDeep) ∧
    ∀ tokens tree tree', Program tokens tree → Program tokens tree' → tree = tree' := by
  refine ⟨fun depth tree => ?_, fun depth h => (parseWithin_ne_tooDeep h).1,
    fun _ _ _ h h' => h.unique h'⟩
  constructor
  · intro h
    exact ⟨by simp [h], derivable_of_parseWithin h⟩
  · rintro ⟨hdeep, he, h⟩
    have hnever := (parseWithin_ne_tooDeep (Nat.le_refl (enoughDepth text))).2
    have hr := (never_of_derivable he h (enoughDepth text)).resolve_left hnever
    have hagree := agree_parseWithin text depth (enoughDepth text)
    rw [hr] at hagree
    generalize hp : parseWithin .byOffset depth text = p at hagree hdeep
    cases hagree with
    | same => rfl
    | deepFirst => exact absurd rfl hdeep

end LittleLang
