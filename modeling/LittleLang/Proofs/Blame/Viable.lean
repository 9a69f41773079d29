import LittleLang.Proofs.Blame.Continuation

/-!
# Beginnings of programs

Some tokens are `Viable` if others can be put behind them so that a program comes out. If a viable
sequence is how the tokens of a text begin, there is a text with the same beginning that is parsed
(`Viable.exists_parsed`). While a rule of the parser is at work there is a `Hole` for its symbol
behind the tokens that were read so far: whatever the rule may derive there can be completed to a
program in one and the same way. -/

open LittleLang.Stream LittleLang.Grammar

namespace LittleLang

/-! ## Tokens to complete a program with -/

/-- A spelling for each kind of token that programs are completed with. -/
def Kind.sample : Kind → String
  | .intLiteral => "1"
  | .identifier => "x"
  | .leftParen => "("
  | .rightParen => ")"
  | .leftBrace => "\x7b"
  | .rightBrace => "\x7d"
  | .semicolon => ";"
  | .assign => ":="
  | .less => "<"
  | .kwInt => "int"
  | _ => ""

def Token.sample (k : Kind) : Token :=
  ⟨k, k.sample, 0, 0⟩

theorem Token.plain_sample {k : Kind} (h : k.sample ≠ "") : (Token.sample k).Plain := by
  refine ⟨?_, fun x hx => ?_⟩
  · cases k <;> first | exact absurd rfl h | exact fun rest => rfl
  · cases k <;> first | exact absurd rfl h | (cases hx; decide +kernel)

def samples (ks : List Kind) : List Token :=
  ks.map Token.sample

def areSpelled (ks : List Kind) : Bool :=
  ks.all fun k => k.sample != ""

theorem areSpelled_append {ks ls : List Kind} (hk : areSpelled ks = true)
    (hl : areSpelled ls = true) : areSpelled (ks ++ ls) = true := by
  unfold areSpelled at *
  rw [List.all_append, hk, hl]
  rfl

theorem plain_samples {ks : List Kind} (h : areSpelled ks = true) : ∀ t ∈ samples ks, t.Plain := by
  intro t ht
  obtain ⟨k, hk, rfl⟩ := List.mem_map.mp ht
  exact Token.plain_sample (by simpa using List.all_eq_true.mp h k hk)

/-! ## Programs without their end -/

/-- These tokens are a program, once the end of the text comes after them. -/
def Complete (ts : List Token) : Prop :=
  ∃ tree, Program (ts ++ samples [.endOfInput]) tree

/-- Something can be put behind these tokens so that they are a program. -/
def Viable (ts : List Token) : Prop :=
  ∃ ks, areSpelled ks = true ∧ Complete (ts ++ samples ks)

/-- Behind some tokens, there is a place for anything that the symbol derives and that starts with
the token of the stream. -/
structure Hole {α : Type} (Symbol : List Token → α → Prop) (before : List Token) (s : Stream) :
    Prop where
  viable : Viable before
  fits : ∃ ks, areSpelled ks = true ∧ ∀ ts a, Symbol ts a → ts.head? = some s.token →
    Complete (before ++ ts ++ samples ks)

section

variable {α β : Type} {Symbol : List Token → α → Prop} {before : List Token} {s : Stream}

theorem Hole.viable_append (h : Hole Symbol before s) (front : List Token) (ks : List Kind)
    (hfront : front.head? = some s.token) (hks : areSpelled ks = true) {a : α}
    (ha : Symbol (front ++ samples ks) a) : Viable (before ++ front) := by
  obtain ⟨ls, hls, hfits⟩ := h.fits
  refine ⟨ks ++ ls, areSpelled_append hks hls, ?_⟩
  simpa [samples] using hfits _ a ha (by simp [hfront])

theorem Hole.start {Inner : List Token → β → Prop} (h : Hole Symbol before s) (ks : List Kind)
    (hks : areSpelled ks = true)
    (hin : ∀ ts b, Inner ts b → ts.head? = some s.token → ∃ a, Symbol (ts ++ samples ks) a) :
    Hole Inner before s := by
  obtain ⟨ls, hls, hfits⟩ := h.fits
  refine ⟨h.viable, ks ++ ls, areSpelled_append hks hls, fun ts b hb hts => ?_⟩
  obtain ⟨a, ha⟩ := hin ts b hb hts
  simpa [samples] using hfits _ a ha (by simp [hts])

theorem Hole.inner {Inner : List Token → β → Prop} (h : Hole Symbol before s) (s' : Stream)
    (front : List Token) (ks ls : List Kind) {b : β} (hfront : front.head? = some s.token)
    (hks : areSpelled ks = true) (hls : areSpelled ls = true) (hb : Inner (samples ls) b)
    (hin : ∀ ts b, Inner ts b → ∃ a, Symbol (front ++ ts ++ samples ks) a) :
    Hole Inner (before ++ front) s' := by
  obtain ⟨ms, hms, hfits⟩ := h.fits
  have hall ts b (hb : Inner ts b) : Complete (before ++ front ++ ts ++ samples (ks ++ ms)) := by
    obtain ⟨a, ha⟩ := hin ts b hb
    simpa [samples] using hfits _ a ha (by simp [hfront])
  refine ⟨⟨ls ++ (ks ++ ms), areSpelled_append hls (areSpelled_append hks hms), ?_⟩,
    ks ++ ms, areSpelled_append hks hms, fun ts b hb _ => hall ts b hb⟩
  simpa [samples] using hall _ b hb

end

/-! ## Texts -/

theorem Stream.error?_ofTokens (ts : List Token) (last : Token) :
    (Stream.ofTokens ts last).error? = none := by
  induction ts with
  | nil => rfl
  | cons t ts ih => exact ih

theorem inside_of_unplaced {ts us : List Token} (h : Inside ts)
    (hus : us.map Token.unplaced = ts.map Token.unplaced) : Inside us := by
  intro u hu hend
  have hmem : u.unplaced ∈ ts.map Token.unplaced := hus ▸ List.mem_map_of_mem hu
  obtain ⟨t, ht, heq⟩ := List.mem_map.mp hmem
  exact h t ht ((Likeness.layout.kind_eq heq).trans hend)

/-- A program ends with the end of the text, which stands nowhere else in it. -/
theorem inside_program {ts : List Token} {tree : Node} (h : Program ts tree) :
    ∃ us last, ts = us ++ [last] ∧ Inside us ∧ last.kind = .endOfInput := by
  cases h with
  | mk h => exact inside_parts h

open Parsing in
/-- The places of its tokens do not matter to a program. -/
theorem program_of_unplaced {ts us : List Token} {tree : Node} (h : Program ts tree)
    (hus : us.map Token.unplaced = ts.map Token.unplaced) : ∃ tree', Program us tree' := by
  obtain ⟨ts, last, rfl, hts, hlast⟩ := inside_program h
  obtain ⟨us, ls, rfl, hus', hls⟩ := List.map_eq_append_iff.mp (hus.trans (List.map_append ..))
  obtain ⟨last', rfl, hlast'⟩ := List.map_eq_singleton_iff.mp hls
  have hkind : last'.kind = .endOfInput :=
    (Likeness.layout.kind_eq hlast').trans hlast
  have hs := Stream.proper_ofTokens (inside_of_unplaced hts hus') hkind
  rw [← Stream.tokens_ofTokens] at h
  -- At a depth that is enough, the two streams are parsed alike.
  have hstreams : Likeness.layout.Streams (Stream.ofTokens ts last) (Stream.ofTokens us last') := by
    refine Likeness.streams_of_tokens (Stream.error?_ofTokens _ _) (Stream.error?_ofTokens _ _) ?_
    simp [Stream.tokens_ofTokens, hus', hlast']
  rw [← Stream.tokens_ofTokens us last']
  generalize Stream.ofTokens us last' = s at hs hstreams ⊢
  let depth := 8 * s.length + 10
  have halike := like_program (respects_never : Respects Likeness.layout .never) depth hstreams
    [] [] .nil
  have hreturns : Returns (program .never depth _) tree := returns_program h
  have hreturns := hreturns []
  have hmeets : Meets (program .never depth s) _ _ := meets_program hs
  have hmeets := hmeets []
  generalize hp : program .never depth s [] = r at halike hmeets
  generalize program .never depth (Stream.ofTokens ts last) [] = r₀ at halike hreturns
  cases halike with
  | @ok _ tree' _ _ _ _ =>
    obtain ⟨vs, end', hr, hprogram⟩ := hmeets
    rw [hr.tokens]
    exact ⟨tree', hprogram⟩
  | error he =>
    obtain ⟨he, -⟩ := he
    obtain rfl : _ = Failure.tooDeep := hreturns
    cases he with
    | placeless =>
      cases hmeets with
      | tooDeep hlt => exact absurd hlt (Nat.lt_irrefl _)

open Parsing in
theorem parseWithin_of_derivable {text : String} {tree : Node} (he : (tokenize text).2 = none)
    (h : Program (tokenize text).1 tree) (depth : Nat) :
    parseWithin .byOffset depth text = .error .tooDeep ∨
      parseWithin .byOffset depth text = .ok tree := by
  have hnever := (parseWithin_ne_tooDeep (Nat.le_refl (enoughDepth text))).2
  have hok := (never_of_derivable he h (enoughDepth text)).resolve_left hnever
  have hagree := agree_parseWithin text depth (enoughDepth text)
  rw [hok] at hagree
  generalize parseWithin .byOffset depth text = p at hagree
  cases hagree with
  | same => exact .inr rfl
  | deepFirst => exact .inl rfl

open Parsing in
/-- A viable beginning of a text is the beginning of a text that is parsed. -/
theorem Viable.exists_parsed {text : String} {s s' : Stream} {ts : List Token} (h : Viable ts)
    (hs : Stream.ofText text = .ok s) (hr : Reads s ts s') :
    ∃ text' after, tokenize text' = (ts ++ after, none) ∧ ∀ depth, enoughDepth text' ≤ depth →
      ∃ tree, parseWithin .byOffset depth text' = .ok tree := by
  obtain ⟨ks, hks, tree, hprogram⟩ := h
  obtain ⟨text', us, last, htext, hus, hkind, hspell⟩ := exists_text hs hr (plain_samples hks)
  have hlast : last.unplaced = (Token.sample .endOfInput).unplaced := by
    unfold Token.unplaced
    rw [hkind, hspell]
    rfl
  obtain ⟨tree', hprogram⟩ := @program_of_unplaced _ (ts ++ us ++ [last]) _ hprogram
    (by simp [hus, hlast, samples])
  refine ⟨text', us ++ [last], by rw [htext, List.append_assoc], fun depth hdepth => ⟨tree', ?_⟩⟩
  refine (parseWithin_of_derivable (by rw [htext]) ?_ depth).resolve_left
    (parseWithin_ne_tooDeep hdepth).1
  rw [htext]
  exact hprogram

end LittleLang
