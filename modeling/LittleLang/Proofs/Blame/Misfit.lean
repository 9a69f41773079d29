import LittleLang.Proofs.Blame.Programs
import LittleLang.Proofs.Shape

/-!
# The token that is blamed

The token that a parse blames is never behind the first one that does not fit: with what stands
before it some text starts that is parsed. It is the first that does not fit, and no text that
starts with it is parsed, unless it is one of those that only bools have (`parseWithin_blames`).
Those are blamed too early where a bool is read as a number at last, after what fails behind it. -/

open LittleLang.Stream LittleLang.Grammar

namespace LittleLang

open Parsing

variable {text : String} {depth : Nat} {t : Token}

/-- A token that is decided to be blamed is not where it is in a program. -/
theorem not_program_of_decided {before after : List Token} {tree : Node}
    (hd : Decided (fun depth s => untilEnd (· = .endOfInput) (programPart .never depth) s.length s)
      before t none) : ¬Program (before ++ t :: after) tree := by
  intro h
  obtain ⟨ts, last, heq, hts, hlast⟩ := inside_program h
  have hs := Stream.proper_ofTokens hts hlast
  have htokens := Stream.tokens_ofTokens ts last
  generalize Stream.ofTokens ts last = s at hs htokens
  rw [← heq] at htokens
  obtain ⟨s', hr, hs'⟩ := reads_of_tokens htokens (by simp)
  have htoken : s'.token = t := by
    cases s' <;> simp_all [Stream.tokens, Stream.token, Stream.head]
  rw [← htokens] at h
  -- At a depth that is enough, the parser without a memo has to give the tree.
  let depth := 8 * s.length + 10
  have hreturns : Returns (program .never depth s) tree := returns_program h
  have hmeets : Meets (program .never depth s) _ _ := meets_program hs
  have hblamed : Meets (program .never depth s) (Faults t (none : Option (List Node))) fun _ => False :=
    (hd depth s s' hs hr htoken).imp (fun _ he => he) (fun r hr => by cases hr.1) |>.bind_of_false
  have hreturns := hreturns []
  have hmeets := hmeets []
  have hblamed := hblamed []
  generalize program .never depth s [] = r at hreturns hmeets hblamed
  cases r with
  | ok tree' memo => exact hblamed
  | error e memo =>
    obtain rfl : e = .tooDeep := hreturns
    cases hmeets with
    | tooDeep hlt => exact absurd hlt (Nat.lt_irrefl _)

theorem eq_nil_of_program {before after : List Token} {tree : Node}
    (h : Program (before ++ t :: after) tree) (ht : t.kind = .endOfInput) : after = [] := by
  obtain ⟨us, last, heq, hus, -⟩ := inside_program h
  rcases List.eq_nil_or_concat after with rfl | ⟨vs, l, rfl⟩
  · rfl
  · rw [List.concat_eq_append, ← List.cons_append, ← List.append_assoc] at heq
    obtain ⟨rfl, -⟩ := List.append_inj' heq rfl
    exact absurd ht (hus t (by simp))

theorem deserved_of_parseWithin {s : Stream} (hs : Stream.ofText text = .ok s)
    (h : parseWithin .byOffset depth text = .error (.unexpected t)) :
    Deserved s [] (Decided fun depth s =>
      untilEnd (· = .endOfInput) (programPart .never depth) s.length s) t := by
  obtain ⟨hscan, -⟩ := scans_of_ofText hs
  rw [parseWithin_eq_outcome hs] at h
  cases hp : program .byOffset depth s [] with
  | ok tree memo =>
    rw [hp] at h
    cases h
  | error e memo =>
    rw [hp] at h
    cases h
    exact deserved_of_program hscan.proper hscan.ordered hp

/-- The token that a parse blames is one of the text. With the tokens before it a text starts that
is parsed. Unless only bools have such a token, no text is parsed that starts with those tokens and
it, wherever these stand. -/
theorem parseWithin_blames (h : parseWithin .byOffset depth text = .error (.unexpected t)) :
    ∃ before after, (tokenize text).1 = before ++ t :: after ∧
      (∃ text', before <+: (tokenize text').1 ∧ ∀ depth', enoughDepth text' ≤ depth' →
        ∃ tree, parseWithin .byOffset depth' text' = .ok tree) ∧
      (t.kind.ofBools = false → ∀ text' depth' tree,
        parseWithin .byOffset depth' text' = .ok tree →
        ¬(before ++ [t]).map Token.unplaced <+: (tokenize text').1.map Token.unplaced) := by
  cases hs : Stream.ofText text with
  | error e =>
    rw [parseWithin_eq_lexical hs] at h
    cases h
  | ok s =>
    obtain ⟨before, s', hr, rfl, hviable, hd⟩ := deserved_of_parseWithin hs h
    obtain ⟨after, hs'⟩ : ∃ after, s'.tokens = s'.token :: after := by
      cases s' <;> exact ⟨_, rfl⟩
    have htokens : tokenize text = (before ++ s'.token :: after, s'.error?) := by
      unfold tokenize
      rw [hs, ← hs', ← hr.tokens, ← hr.error?]
    refine ⟨before, after, by rw [htokens], ?_, fun hk text' depth' tree hparse hprefix => ?_⟩
    · obtain ⟨text', after', htext', hall⟩ := hviable.exists_parsed hs hr
      exact ⟨text', ⟨after', by rw [htext']⟩, hall⟩
    · -- The program of the other text is moved to the tokens of this one.
      obtain ⟨rest, hrest⟩ := hprefix
      obtain ⟨us, vs, heq, hus, -⟩ := List.map_eq_append_iff.mp hrest.symm
      obtain ⟨tree', hprogram⟩ := @program_of_unplaced _ (before ++ s'.token :: vs) _
        (derivable_of_parseWithin hparse).2 (by simp [heq, hus])
      by_cases hend : s'.token.kind = .endOfInput
      · obtain rfl := eq_nil_of_program hprogram hend
        obtain ⟨last, rfl⟩ := (hr.proper (scans_of_ofText hs).1.proper).eq_finish hend
        obtain rfl : after = [] := (List.cons.inj hs').2.symm
        rcases parseWithin_of_derivable (by rw [htokens]; rfl) (by rw [htokens]; exact hprogram)
          depth with hp | hp <;> cases h.symm.trans hp
      · obtain ⟨ts, rfl, hd⟩ := hd hk hend
        exact not_program_of_decided hd hprogram

def blamed? (depth : Nat) (text : String) : Option Token :=
  match parseWithin .byOffset depth text with
  | .error (.unexpected t) => some t
  | _ => none

theorem eq_of_blamed? (h : blamed? depth text = some t) :
    parseWithin .byOffset depth text = .error (.unexpected t) := by
  unfold blamed? at h
  split at h
  · next u hu =>
    cases h
    exact hu
  · cases h

/-- A value is missing, so that no text is parsed that starts like this one up to its semicolon. -/
theorem parseWithin_blames_missing :
    parseWithin .byOffset 60 "x:=;" = .error (.unexpected ⟨.semicolon, ";", 1, 4⟩) ∧
    ∃ before after, (tokenize "x:=;").1 = before ++ ⟨.semicolon, ";", 1, 4⟩ :: after ∧
      (∃ text', before <+: (tokenize text').1 ∧ ∀ depth', enoughDepth text' ≤ depth' →
        ∃ tree, parseWithin .byOffset depth' text' = .ok tree) ∧
      ∀ text' depth' tree, parseWithin .byOffset depth' text' = .ok tree →
        ¬List.map Token.unplaced (before ++ [⟨.semicolon, ";", 1, 4⟩]) <+:
          (tokenize text').1.map Token.unplaced := by
  have hblame := eq_of_blamed? (show blamed? 60 "x:=;" = some ⟨.semicolon, ";", 1, 4⟩ by
    decide +kernel)
  obtain ⟨before, after, htokens, hviable, hmisfit⟩ := parseWithin_blames hblame
  exact ⟨hblame, before, after, htokens, hviable, hmisfit rfl⟩

/-- A `true` is blamed that fits: the text that ends behind it, but for a semicolon, is parsed. The
token that does not fit is the `+`. -/
theorem parseWithin_blames_early :
    ∃ before t, before ++ [t] <+: (tokenize "return true + 1;").1 ∧
      parseWithin .byOffset 60 "return true + 1;" = .error (.unexpected t) ∧
      before ++ [t] <+: (tokenize "return true;").1 ∧
      ∃ tree, parseWithin .byOffset 60 "return true;" = .ok tree := by
  refine ⟨[⟨.kwReturn, "return", 1, 1⟩], ⟨.kwTrue, "true", 1, 8⟩, by decide +kernel,
    eq_of_blamed? (by decide +kernel), by decide +kernel, ?_⟩
  obtain ⟨tree, htree, -⟩ := exists_of_parsesTo (show parsesTo 60 "return true;" (fun _ => true) = true
    by decide +kernel)
  exact ⟨tree, htree⟩

end LittleLang
