import LittleLang.Proofs.Completeness.Programs
import LittleLang.Proofs.Soundness.Programs

/-!
# One tree for a sequence of tokens

The grammar is unambiguous (`Program.unique`). The parser is the witness: put on a stream with the
tokens of a derivation, it gives the tree of that derivation, and it gives no two. For this the
stream has to be proper, so the end of the text must not stand among the tokens of a derivation;
that is a recursion over derivations. -/

open LittleLang.Stream LittleLang.Grammar

namespace LittleLang

/-! ## The end of the text -/

/-- The end of the text is not among the tokens. -/
def Inside (ts : List Token) : Prop :=
  ∀ t ∈ ts, t.kind ≠ .endOfInput

theorem Inside.append {ts us : List Token} (hts : Inside ts) (hus : Inside us) :
    Inside (ts ++ us) := by
  intro t ht
  rcases List.mem_append.mp ht with h | h
  · exact hts t h
  · exact hus t h

theorem Inside.cons {t : Token} {ts : List Token} (ht : t.kind ≠ .endOfInput) (hts : Inside ts) :
    Inside (t :: ts) := by
  intro u hu
  rcases List.mem_cons.mp hu with rfl | hu
  · exact ht
  · exact hts u hu

theorem inside_nil : Inside [] := by
  intro t ht
  cases ht

/-- A token of another kind, or of a class that the end of the text is not in. -/
theorem ne_end_of_eq {k k' : Kind} (h : k = k') (hk : k' ≠ .endOfInput) : k ≠ .endOfInput :=
  h ▸ hk

theorem ne_end_of_class {k : Kind} {isClass : Kind → Bool} (h : isClass k = true)
    (hk : isClass .endOfInput = false) : k ≠ .endOfInput := by
  rintro rfl
  rw [hk] at h
  cases h

mutual

theorem inside_expression : {ts : List Token} → {n : Node} → Expression ts n → Inside ts
  | _, _, .bool h => inside_boolExpr h
  | _, _, .number h => inside_numExpr h

theorem inside_boolExpr : {ts : List Token} → {n : Node} → BoolExpr ts n → Inside ts
  | _, _, .single h => inside_boolTerm h
  | _, _, .snoc h hop h' =>
    (inside_boolExpr h).append (.cons (ne_end_of_class hop rfl) (inside_boolTerm h'))

theorem inside_boolTerm : {ts : List Token} → {n : Node} → BoolTerm ts n → Inside ts
  | _, _, .paren hl h hr =>
    Inside.append (.cons (ne_end_of_eq hl (by decide)) (inside_boolExpr h))
      (.cons (ne_end_of_eq hr (by decide)) inside_nil)
  | _, _, .not hk h => .cons (ne_end_of_eq hk (by decide)) (inside_boolTerm h)
  | _, _, .truth hk =>
    .cons (by rcases hk with hk | hk <;> exact ne_end_of_eq hk (by decide)) inside_nil
  | _, _, .comparison h hop h' =>
    (inside_numExpr h).append (.cons (ne_end_of_class hop rfl) (inside_numExpr h'))
  | _, _, .var h => inside_numExpr h
  | _, _, .call h => inside_numExpr h

theorem inside_numExpr : {ts : List Token} → {n : Node} → NumExpr ts n → Inside ts
  | _, _, .single h => inside_numTerm h
  | _, _, .snoc h hop h' =>
    (inside_numExpr h).append (.cons (ne_end_of_class hop rfl) (inside_numTerm h'))

theorem inside_numTerm : {ts : List Token} → {n : Node} → NumTerm ts n → Inside ts
  | _, _, .single h => inside_factor h
  | _, _, .snoc h hop h' =>
    (inside_numTerm h).append (.cons (ne_end_of_class hop rfl) (inside_factor h'))

theorem inside_factor : {ts : List Token} → {n : Node} → Factor ts n → Inside ts
  | _, _, .paren hl h hr =>
    Inside.append (.cons (ne_end_of_eq hl (by decide)) (inside_numExpr h))
      (.cons (ne_end_of_eq hr (by decide)) inside_nil)
  | _, _, .sign hk h =>
    .cons (by rcases hk with hk | hk <;> exact ne_end_of_eq hk (by decide)) (inside_factor h)
  | _, _, .float hk => .cons (ne_end_of_eq hk (by decide)) inside_nil
  | _, _, .int hk => .cons (ne_end_of_eq hk (by decide)) inside_nil
  | _, _, .call h => inside_call h
  | _, _, .var hk => .cons (ne_end_of_eq hk (by decide)) inside_nil

theorem inside_call : {ts : List Token} → {n : Node} → Call ts n → Inside ts
  | _, _, .mk hname hl h hr =>
    Inside.append
      (.cons (ne_end_of_eq hname (by decide)) (.cons (ne_end_of_eq hl (by decide))
        (inside_arguments h)))
      (.cons (ne_end_of_eq hr (by decide)) inside_nil)

theorem inside_arguments : {ts : List Token} → {ns : List Node} → Listed Expression ts ns →
    Inside ts
  | _, _, .nil => inside_nil
  | _, _, .items h => inside_separated h

theorem inside_separated : {ts : List Token} → {ns : List Node} → Separated Expression ts ns →
    Inside ts
  | _, _, .single h => inside_expression h
  | _, _, .cons h hc h' =>
    (inside_expression h).append (.cons (ne_end_of_eq hc (by decide)) (inside_separated h'))

end

theorem inside_standing {ts : List Token} {n : Node} (h : Standing ts n) : Inside ts := by
  cases h with
  | mk _ h => exact inside_expression h

theorem inside_assignment {ts : List Token} {n : Node} (h : Assignment ts n) : Inside ts := by
  cases h with
  | plain htarget hop h =>
    exact .cons (ne_end_of_eq htarget (by decide)) (.cons (ne_end_of_eq hop (by decide))
      (inside_expression h))
  | typed htype htarget hop h =>
    exact .cons (ne_end_of_class htype rfl) (.cons (ne_end_of_eq htarget (by decide))
      (.cons (ne_end_of_eq hop (by decide)) (inside_expression h)))

theorem Inside.concat {t : Token} {ts : List Token} (hts : Inside ts) (ht : t.kind ≠ .endOfInput) :
    Inside (ts ++ [t]) :=
  hts.append (.cons ht inside_nil)

mutual

theorem inside_statement : {ts : List Token} → {n : Node} → Statement ts n → Inside ts
  | _, _, .assignment h hk => (inside_assignment h).concat (ne_end_of_eq hk (by decide))
  | _, _, .call h hk => (inside_call h).concat (ne_end_of_eq hk (by decide))
  | _, _, .ret hk h hs =>
    Inside.concat (.cons (ne_end_of_eq hk (by decide)) (inside_expression h))
      (ne_end_of_eq hs (by decide))
  | _, _, .standing h hk => (inside_standing h).concat (ne_end_of_eq hk (by decide))
  | _, _, .branch hk h hb =>
    Inside.append (.cons (ne_end_of_eq hk (by decide)) (inside_boolExpr h)) (inside_block hb)
  | _, _, .branches hk h hb he hb' =>
    Inside.append
      (Inside.append (.cons (ne_end_of_eq hk (by decide)) (inside_boolExpr h)) (inside_block hb))
      (.cons (ne_end_of_eq he (by decide)) (inside_block hb'))

theorem inside_block : {ts : List Token} → {n : Node} → Block ts n → Inside ts
  | _, _, .empty hl hr =>
    .cons (ne_end_of_eq hl (by decide)) (.cons (ne_end_of_eq hr (by decide)) inside_nil)
  | _, _, .statements hl h _ hr =>
    Inside.concat (.cons (ne_end_of_eq hl (by decide)) (inside_statements h))
      (ne_end_of_eq hr (by decide))

theorem inside_statements : {k : Kind} → {ts : List Token} → {ns : List Node} →
    Statements k ts ns → Inside ts
  | _, _, _, .single h => inside_statement h
  | _, _, _, .standing _ h => inside_standing h
  | _, _, _, .cons h h' => (inside_statement h).append (inside_statements h')

end

theorem inside_parameters {ts : List Token} {ps : List Parameter} (h : Listed ParameterOf ts ps) :
    Inside ts := by
  have hparameter {ts : List Token} {p : Parameter} (h : ParameterOf ts p) : Inside ts := by
    cases h with
    | mk htype hname =>
      exact .cons (ne_end_of_class htype rfl) (.cons (ne_end_of_eq hname (by decide)) inside_nil)
  cases h with
  | nil => exact inside_nil
  | items h =>
    induction h with
    | single h => exact hparameter h
    | cons h hc _ ih => exact (hparameter h).append (.cons (ne_end_of_eq hc (by decide)) ih)

theorem inside_declaration {ts : List Token} {n : Node} (h : Declaration ts n) : Inside ts := by
  cases h with
  | mk hfunc hname hl hparams hr hbody =>
    refine Inside.append (.cons (ne_end_of_eq hfunc (by decide)) ?_)
      (.cons (ne_end_of_eq hr (by decide)) (inside_block hbody))
    exact .cons (ne_end_of_eq hname (by decide)) (.cons (ne_end_of_eq hl (by decide))
      (inside_parameters hparams))

theorem inside_parts {ts : List Token} {ns : List Node} (h : Parts ts ns) :
    ∃ us last, ts = us ++ [last] ∧ Inside us ∧ last.kind = .endOfInput := by
  induction h with
  | @finish last h => exact ⟨[], last, rfl, inside_nil, h⟩
  | @function ts us _ _ h _ ih =>
    obtain ⟨vs, last, rfl, hvs, hlast⟩ := ih
    exact ⟨ts ++ vs, last, by simp, (inside_declaration h).append hvs, hlast⟩
  | @statements ts us next _ _ _ h _ _ _ ih =>
    obtain ⟨vs, last, hvs, hin, hlast⟩ := ih
    exact ⟨ts ++ vs, last, by simp [hvs], (inside_statements h).append hin, hlast⟩

/-! ## A stream for a derivation -/

/-- A stream with the given tokens, all at one offset. -/
def Stream.ofTokens (ts : List Token) (last : Token) : Stream :=
  ts.foldr (fun t s => .more ⟨t, 0⟩ s) (.finish ⟨last, 0⟩)

theorem Stream.tokens_ofTokens (ts : List Token) (last : Token) :
    (Stream.ofTokens ts last).tokens = ts ++ [last] := by
  induction ts with
  | nil => rfl
  | cons t ts ih => exact congrArg (t :: ·) ih

theorem Stream.proper_ofTokens {ts : List Token} {last : Token} (hts : Inside ts)
    (hlast : last.kind = .endOfInput) : (Stream.ofTokens ts last).Proper := by
  induction ts with
  | nil => exact hlast
  | cons t ts ih => exact ⟨hts t (by simp), ih fun u hu => hts u (by simp [hu])⟩

open Parsing in
/-- The grammar gives at most one tree. -/
theorem Grammar.Program.unique {ts : List Token} {tree tree' : Node} (h : Program ts tree)
    (h' : Program ts tree') : tree = tree' := by
  obtain ⟨us, last, rfl, hus, hlast⟩ : ∃ us last, ts = us ++ [last] ∧ Inside us ∧
      last.kind = .endOfInput := by
    cases h with
    | mk h => exact inside_parts h
  have hs := Stream.proper_ofTokens hus hlast
  rw [← Stream.tokens_ofTokens] at h h'
  generalize Stream.ofTokens us last = s at h h' hs
  -- At a depth that is enough, the parser gives both trees.
  have hrun : Meets (program .never (8 * s.length + 10) s) _ _ := meets_program hs
  have hrun := hrun []
  have htree : Returns (program .never (8 * s.length + 10) s) tree := returns_program h
  have htree' : Returns (program .never (8 * s.length + 10) s) tree' := returns_program h'
  have htree := htree []
  have htree' := htree' []
  split at htree
  · next hp =>
    rw [hp] at htree'
    exact htree.symm.trans htree'
  · next hp =>
    subst htree
    rw [hp] at hrun
    cases hrun with
    | tooDeep hlt => exact absurd hlt (Nat.lt_irrefl _)

end LittleLang
