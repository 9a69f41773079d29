import LittleLang.Node.Outline
import LittleLang.Proofs.Accounting
import LittleLang.Proofs.Layout
import LittleLang.Proofs.Printing
import LittleLang.Proofs.Shape

/-!
# Outlines can be read back

The outline of a tree keeps the texts of its tokens and drops their kinds, and of an assignment and
a branch it drops a token altogether. Still nothing but places is lost: `Node.ofOutline?` reads the
tree of a text back from its outline (`outline_faithful`). Where a token stands in the tree says of
which class it is, and inside of a class the text tells the kind, since every kind but those of
names and numbers has one spelling (`Fixed`).

An outline fails for its depth only. `Settles` is what is shown of it at all depths at once.
-/

open LittleLang.Grammar

namespace LittleLang

/-! ## Spellings -/

/-- The spelling of a kind, if it has only one. -/
def Kind.spelling? : Kind → Option String
  | kwFunc => "func"
  | kwInt => "int"
  | kwFloat => "float"
  | kwBool => "bool"
  | kwTrue => "true"
  | kwFalse => "false"
  | kwReturn => "return"
  | kwIf => "if"
  | kwElse => "else"
  | plus => "+"
  | minus => "-"
  | times => "*"
  | divide => "/"
  | leftParen => "("
  | rightParen => ")"
  | leftBrace => "\x7b"
  | rightBrace => "\x7d"
  | semicolon => ";"
  | comma => ","
  | bang => "!"
  | assign => ":="
  | andAnd => "&&"
  | orOr => "||"
  | less => "<"
  | greater => ">"
  | lessEq => "<="
  | greaterEq => ">="
  | equal => "=="
  | notEqual => "!="
  | intLiteral | floatLiteral | identifier | endOfInput | other _ => none

/-- The token is spelled as its kind is. -/
def Fixed (t : Token) : Prop :=
  ∀ s ∈ t.kind.spelling?, t.text = s

theorem Fixed.text_eq {t : Token} (h : Fixed t) {k : Kind} {s : String} (hk : t.kind = k)
    (hs : k.spelling? = some s) : t.text = s :=
  h s (hk ▸ hs)

theorem Kind.spelling?_ofWord {word s : String} (h : (Kind.ofWord word).spelling? = some s) :
    word = s := by
  unfold Kind.ofWord at h
  split at h <;> cases h <;> rfl

theorem Kind.spelling?_ofSign {c : Char} {k : Kind} (h : Kind.ofSign c = some k) :
    k.spelling? = some (String.ofList [c]) := by
  unfold Kind.ofSign at h
  split at h <;> cases h <;> rfl

theorem Kind.spelling?_ofPair {c d : Char} {k : Kind} (h : Kind.ofPair c d = some k) :
    k.spelling? = some (String.ofList [c, d]) := by
  unfold Kind.ofPair at h
  split at h <;> cases h <;> rfl

theorem Lexeme.operator?_spelling {cs : List Char} {l : Lexeme} (h : operator? cs = some l) :
    l.kind.spelling? = some (String.ofList l.text) := by
  rw [operator?_text h]
  rcases operator?_eq_some h with ⟨c, rest, -, hs, hk⟩ | ⟨c, d, rest, -, hs, hk⟩
  · rw [hs]
    exact Kind.spelling?_ofSign hk
  · rw [hs]
    exact Kind.spelling?_ofPair hk

theorem Lexeme.fixed_read {cs : List Char} {l : Lexeme} (h : read cs = some l) {s : String}
    (hs : l.kind.spelling? = some s) : String.ofList l.text = s := by
  rcases read_cases h with ⟨c, rest, rfl, -, rfl⟩ | ⟨c, rest, rfl, -, rfl⟩ | h
  · exact Kind.spelling?_ofWord hs
  · rcases number_kind (c :: rest) with hk | hk <;> rw [hk] at hs <;> cases hs
  · rw [operator?_spelling h] at hs
    exact Option.some.inj hs

theorem Cursor.Step.fixed {c c' : Cursor} (h : Cursor.Step c c') : Fixed c'.token := by
  cases h with
  | finish => exact fun s hs => nomatch hs
  | lexeme h => exact fun s hs => Lexeme.fixed_read h hs

theorem Stream.Scans.fixed {c : Cursor} {s : Stream} (h : Stream.Scans c s) :
    AllOf Fixed s.tokens := by
  induction h with
  | finish hstep => simpa [AllOf, Stream.tokens] using hstep.fixed
  | blocked hstep => simpa [AllOf, Stream.tokens] using hstep.fixed
  | more hstep _ _ ih => simpa [AllOf, Stream.tokens] using ⟨hstep.fixed, ih⟩

theorem fixed_tokenize (text : String) : AllOf Fixed (tokenize text).1 := by
  unfold tokenize
  cases hs : Stream.ofText text with
  | error e => exact fun t ht => nomatch ht
  | ok s => exact (Stream.scans_of_ofText hs).1.fixed

/-! ## Reading an outline -/

def Kind.ofOperator : String → Kind
  | "+" => plus
  | "-" => minus
  | "*" => times
  | "/" => divide
  | "!" => bang
  | "&&" => andAnd
  | "||" => orOr
  | "<" => less
  | ">" => greater
  | "<=" => lessEq
  | ">=" => greaterEq
  | "==" => equal
  | "!=" => notEqual
  | text => other text

def Token.placeless (kind : Kind) (text : String) : Token :=
  ⟨kind, text, 0, 0⟩

/-- The type that a document is the outline of. -/
def Token.ofTypeOutline? : Document → Option Token
  | .object [("type", .text "Type"), ("name", .text text)] =>
    some (.placeless (.ofWord text) text)
  | _ => none

def Parameter.ofOutline? : Document → Option Parameter
  | .object [("type", .text "Parameter"), ("var_type", type), ("name", .text name)] =>
    (Token.ofTypeOutline? type).map (⟨·, .placeless .identifier name⟩)
  | _ => none

namespace Node

mutual

/-- The tree that a document is the outline of, without the places of its tokens. -/
def ofOutline? : Document → Option Node
  | .object (("type", .text form) :: fields) =>
    match form, fields with
    | "Program", [("name", .text name), ("block", block)] => (ofOutline? block).map (program name)
    | "Compound", [("children", .list children)] => (ofOutlines? children).map compound
    | "NoOp", [] => some noOp
    | "IntLiteral", [("value", .text text)] => some (intLiteral (.placeless .intLiteral text))
    | "FloatLiteral", [("value", .text text)] =>
      some (floatLiteral (.placeless .floatLiteral text))
    | "BoolLiteral", [("value", .text text)] => some (boolLiteral (.placeless (.ofWord text) text))
    | "Var", [("name", .text name)] => some (var (.placeless .identifier name))
    | "UnaryOp", [("op", .text op), ("operand", operand)] =>
      (ofOutline? operand).map (unary (.placeless (.ofOperator op) op))
    | "BinaryOp", [("op", .text op), ("left", left), ("right", right)] =>
      (ofOutline? left).bind fun left =>
        (ofOutline? right).map (binary (.placeless (.ofOperator op) op) left)
    | "Assign", [("target", .object [_, (_, .text target)]), ("var_type", type),
        ("value", value)] =>
      (ofOutline? value).map (assign (Token.ofTypeOutline? type) (.placeless .identifier target)
        (.placeless .assign ":="))
    | "If", [("condition", condition), ("true_block", whenTrue), ("false_block", whenFalse)] =>
      (ofOutline? condition).bind fun condition => (ofOutline? whenTrue).bind fun whenTrue =>
        (ofOutline? whenFalse).map (branch (some (.placeless .kwIf "if")) condition whenTrue)
    | "Return", [("value", value)] => (ofOutline? value).map ret
    | "FunctionDeclaration",
        [("name", .text name), ("parameters", .list parameters), ("body", body)] =>
      (parameters.mapM Parameter.ofOutline?).bind fun parameters =>
        (ofOutline? body).map (function (.placeless .identifier name) parameters)
    | "FunctionCall", [("name", .text name), ("arguments", .list arguments)] =>
      (ofOutlines? arguments).map (call (.placeless .identifier name))
    | _, _ => none
  | _ => none

def ofOutlines? : List Document → Option (List Node)
  | [] => some []
  | d :: ds => (ofOutline? d).bind fun n => (ofOutlines? ds).map (n :: ·)

end

end Node

/-! ## Tokens -/

theorem Token.placeless_eq {t : Token} {k : Kind} (h : t.kind = k) :
    Token.placeless k t.text = t.unplaced := by
  rw [← h]
  rfl

theorem Kind.ofOperator_spelling {k : Kind} (hk : (k.isUnary || k.isBinary) = true) :
    ∃ s, k.spelling? = some s ∧ Kind.ofOperator s = k := by
  cases k <;> first | exact ⟨_, rfl, rfl⟩ | cases hk

theorem Kind.ofWord_spelling {k : Kind} (hk : (k.isTruth || k.isType) = true) :
    ∃ s, k.spelling? = some s ∧ Kind.ofWord s = k := by
  cases k <;> first | exact ⟨_, rfl, rfl⟩ | cases hk

theorem Fixed.ofOperator {t : Token} (h : Fixed t)
    (hk : (t.kind.isUnary || t.kind.isBinary) = true) : Kind.ofOperator t.text = t.kind := by
  obtain ⟨s, hs, hkind⟩ := Kind.ofOperator_spelling hk
  rw [h s hs, hkind]

theorem Fixed.ofWord {t : Token} (h : Fixed t) (hk : (t.kind.isTruth || t.kind.isType) = true) :
    Kind.ofWord t.text = t.kind := by
  obtain ⟨s, hs, hkind⟩ := Kind.ofWord_spelling hk
  rw [h s hs, hkind]

theorem Fixed.ofTypeOutline? {t : Token} (h : Fixed t) (hk : t.kind.isType = true) :
    Token.ofTypeOutline? t.typeOutline = some t.unplaced := by
  show some (Token.placeless (.ofWord t.text) t.text) = _
  rw [Token.placeless_eq (h.ofWord (by simp [hk])).symm]

/-! ## Outlines at all depths -/

/-- The value is found at every depth but those that are too small, where the depth is what is
missing. -/
def Settles {α : Type} (f : Nat → Except Failure α) (a : α) : Prop :=
  ∃ enough, ∀ depth, f depth = .ok a ∨ f depth = .error .tooDeep ∧ depth < enough

namespace Settles

variable {α β : Type} {f : Nat → Except Failure α} {a : α}

theorem pure (a : α) : Settles (fun _ => .ok a) a :=
  ⟨0, fun _ => .inl rfl⟩

theorem bind {g : α → Nat → Except Failure β} {b : β} (h : Settles f a) (hg : Settles (g a) b) :
    Settles (fun depth => f depth >>= fun x => g x depth) b := by
  obtain ⟨enough, h⟩ := h
  obtain ⟨enough', hg⟩ := hg
  refine ⟨max enough enough', fun depth => ?_⟩
  dsimp only
  rcases h depth with hf | ⟨hf, hlt⟩
  · rcases hg depth with hb | ⟨hb, hlt⟩
    · exact .inl (by rw [hf]; exact hb)
    · exact .inr ⟨by rw [hf]; exact hb, by omega⟩
  · exact .inr ⟨by rw [hf]; rfl, by omega⟩

theorem map (g : α → β) (h : Settles f a) :
    Settles (fun depth => f depth >>= fun x => .ok (g x)) (g a) :=
  h.bind (pure (g a))

theorem succ {g : Nat → Except Failure α} (h : Settles f a) (hzero : g 0 = .error .tooDeep)
    (hsucc : ∀ depth, g (depth + 1) = f depth) : Settles g a := by
  obtain ⟨enough, h⟩ := h
  refine ⟨enough + 1, fun depth => ?_⟩
  cases depth with
  | zero => exact .inr ⟨hzero, by omega⟩
  | succ depth =>
    rw [hsucc]
    exact (h depth).imp_right fun ⟨hf, hlt⟩ => ⟨hf, by omega⟩

end Settles

/-- The outline of the tree is found, and is read back as the tree without places. -/
def Outlined (n : Node) : Prop :=
  ∃ document, Settles (Node.outlineWithin · n) document ∧
    Node.ofOutline? document = some n.unplaced

def OutlinedAll (ns : List Node) : Prop :=
  ∃ documents, Settles (fun depth => ns.mapM (Node.outlineWithin depth)) documents ∧
    Node.ofOutlines? documents = some (Node.unplacedAll ns)

theorem outlinedAll {ns : List Node} (h : ∀ n ∈ ns, Outlined n) : OutlinedAll ns := by
  induction ns with
  | nil => exact ⟨[], .pure [], rfl⟩
  | cons n ns ih =>
    obtain ⟨document, hd, hn⟩ := h n (by simp)
    obtain ⟨documents, hds, hns⟩ := ih fun m hm => h m (by simp [hm])
    refine ⟨document :: documents, ?_, ?_⟩
    · simp only [List.mapM_cons]
      exact hd.bind (hds.bind (.pure _))
    · rw [Node.ofOutlines?, hn, hns]
      rfl

namespace Outlined

theorem noOp : Outlined .noOp :=
  ⟨_, (Settles.pure _).succ rfl fun _ => rfl, rfl⟩

theorem intLiteral {t : Token} (hk : t.kind = .intLiteral) : Outlined (.intLiteral t) := by
  refine ⟨_, (Settles.pure _).succ rfl fun _ => rfl, ?_⟩
  show some (Node.intLiteral (.placeless .intLiteral t.text)) = _
  rw [Token.placeless_eq hk, Node.unplaced]

theorem floatLiteral {t : Token} (hk : t.kind = .floatLiteral) : Outlined (.floatLiteral t) := by
  refine ⟨_, (Settles.pure _).succ rfl fun _ => rfl, ?_⟩
  show some (Node.floatLiteral (.placeless .floatLiteral t.text)) = _
  rw [Token.placeless_eq hk, Node.unplaced]

theorem boolLiteral {t : Token} (ht : Fixed t) (hk : t.kind = .kwTrue ∨ t.kind = .kwFalse) :
    Outlined (.boolLiteral t) := by
  have hk : (t.kind.isTruth || t.kind.isType) = true := by
    rcases hk with hk | hk <;> rw [hk] <;> rfl
  refine ⟨_, (Settles.pure _).succ rfl fun _ => rfl, ?_⟩
  show some (Node.boolLiteral (.placeless (.ofWord t.text) t.text)) = _
  rw [Token.placeless_eq (ht.ofWord hk).symm, Node.unplaced]

theorem var {t : Token} (hk : t.kind = .identifier) : Outlined (.var t) := by
  refine ⟨_, (Settles.pure _).succ rfl fun _ => rfl, ?_⟩
  show some (Node.var (.placeless .identifier t.text)) = _
  rw [Token.placeless_eq hk, Node.unplaced]

theorem unary {op : Token} {n : Node} (ht : Fixed op) (hk : op.kind.isUnary = true)
    (h : Outlined n) : Outlined (.unary op n) := by
  obtain ⟨document, hd, hn⟩ := h
  refine ⟨_, (hd.map _).succ rfl fun _ => rfl, ?_⟩
  show (Node.ofOutline? document).map (Node.unary (.placeless (.ofOperator op.text) op.text)) = _
  rw [hn, Token.placeless_eq (ht.ofOperator (by simp [hk])).symm, Node.unplaced]
  rfl

theorem binary {op : Token} {left right : Node} (ht : Fixed op) (hk : op.kind.isBinary = true)
    (hl : Outlined left) (hr : Outlined right) : Outlined (.binary op left right) := by
  obtain ⟨_, hdl, hl⟩ := hl
  obtain ⟨_, hdr, hr⟩ := hr
  refine ⟨_, (hdl.bind (hdr.map _)).succ rfl fun _ => rfl, ?_⟩
  show ((Node.ofOutline? _).bind fun left => (Node.ofOutline? _).map
    (Node.binary (.placeless (.ofOperator op.text) op.text) left)) = _
  rw [hl, hr, Token.placeless_eq (ht.ofOperator (by simp [hk])).symm, Node.unplaced]
  rfl

theorem call {name : Token} {arguments : List Node} (hk : name.kind = .identifier)
    (h : ∀ n ∈ arguments, Outlined n) : Outlined (.call name arguments) := by
  obtain ⟨documents, hds, hns⟩ := outlinedAll h
  refine ⟨_, (hds.map _).succ rfl fun _ => rfl, ?_⟩
  show (Node.ofOutlines? documents).map (Node.call (.placeless .identifier name.text)) = _
  rw [hns, Token.placeless_eq hk, Node.unplaced]
  rfl

theorem compound {children : List Node} (h : ∀ n ∈ children, Outlined n) :
    Outlined (.compound children) := by
  obtain ⟨documents, hds, hns⟩ := outlinedAll h
  refine ⟨_, (hds.map _).succ rfl fun _ => rfl, ?_⟩
  show (Node.ofOutlines? documents).map Node.compound = _
  rw [hns, Node.unplaced]
  rfl

theorem program {name : String} {block : Node} (h : Outlined block) :
    Outlined (.program name block) := by
  obtain ⟨document, hd, hn⟩ := h
  refine ⟨_, (hd.map _).succ rfl fun _ => rfl, ?_⟩
  show (Node.ofOutline? document).map (Node.program name) = _
  rw [hn, Node.unplaced]
  rfl

theorem ret {value : Node} (h : Outlined value) : Outlined (.ret value) := by
  obtain ⟨document, hd, hn⟩ := h
  refine ⟨_, (hd.map _).succ rfl fun _ => rfl, ?_⟩
  show (Node.ofOutline? document).map Node.ret = _
  rw [hn, Node.unplaced]
  rfl

/-- Of the assignment, the operator is not written down. -/
theorem assign {type : Option Token} {target op : Token} {value : Node}
    (hty : ∀ t ∈ type, Fixed t ∧ t.kind.isType = true) (hk : target.kind = .identifier)
    (hop : Fixed op) (hkop : op.kind = .assign) (h : Outlined value) :
    Outlined (.assign type target op value) := by
  obtain ⟨document, hd, hn⟩ := h
  have htype : Token.ofTypeOutline? ((type.map Token.typeOutline).getD .null) =
      type.map Token.unplaced := by
    cases type with
    | none => rfl
    | some t => exact (hty t rfl).1.ofTypeOutline? (hty t rfl).2
  have hassign : op.unplaced = .placeless .assign ":=" := by
    rw [← hop.text_eq hkop rfl, Token.placeless_eq hkop]
  refine ⟨_, (hd.map _).succ rfl fun _ => rfl, ?_⟩
  show (Node.ofOutline? document).map (Node.assign
    (Token.ofTypeOutline? ((type.map Token.typeOutline).getD .null))
    (.placeless .identifier target.text) (.placeless .assign ":=")) = _
  rw [hn, htype, Token.placeless_eq hk, ← hassign, Node.unplaced]
  rfl

/-- Of the branch, the keyword is not written down. -/
theorem branch {keyword : Token} {condition whenTrue whenFalse : Node} (ht : Fixed keyword)
    (hk : keyword.kind = .kwIf) (hc : Outlined condition) (hy : Outlined whenTrue)
    (hf : Outlined whenFalse) : Outlined (.branch (some keyword) condition whenTrue whenFalse) := by
  obtain ⟨_, hdc, hc⟩ := hc
  obtain ⟨_, hdy, hy⟩ := hy
  obtain ⟨_, hdf, hf⟩ := hf
  have hif : keyword.unplaced = .placeless .kwIf "if" := by
    rw [← ht.text_eq hk rfl, Token.placeless_eq hk]
  refine ⟨_, (hdc.bind (hdy.bind (hdf.map _))).succ rfl fun _ => rfl, ?_⟩
  show ((Node.ofOutline? _).bind fun condition => (Node.ofOutline? _).bind fun whenTrue =>
    (Node.ofOutline? _).map (Node.branch (some (.placeless .kwIf "if")) condition whenTrue)) = _
  rw [hc, hy, hf, ← hif, Node.unplaced]
  rfl

theorem parameters {ps : List Parameter}
    (h : ∀ p ∈ ps, Fixed p.type ∧ p.type.kind.isType = true ∧ p.name.kind = .identifier) :
    (ps.map Parameter.outline).mapM Parameter.ofOutline? = some (ps.map Parameter.unplaced) := by
  induction ps with
  | nil => rfl
  | cons p ps ih =>
    obtain ⟨ht, hk, hname⟩ := h p (by simp)
    have hp : Parameter.ofOutline? p.outline = some p.unplaced := by
      show (Token.ofTypeOutline? p.type.typeOutline).map
        (Parameter.mk · (.placeless .identifier p.name.text)) = _
      rw [ht.ofTypeOutline? hk, Token.placeless_eq hname]
      rfl
    rw [List.map_cons, List.mapM_cons, hp, ih fun q hq => h q (by simp [hq])]
    rfl

theorem function {name : Token} {ps : List Parameter} {body : Node}
    (hk : name.kind = .identifier)
    (hps : ∀ p ∈ ps, Fixed p.type ∧ p.type.kind.isType = true ∧ p.name.kind = .identifier)
    (h : Outlined body) : Outlined (.function name ps body) := by
  obtain ⟨document, hd, hn⟩ := h
  refine ⟨_, (hd.map _).succ rfl fun _ => rfl, ?_⟩
  show (((ps.map Parameter.outline).mapM Parameter.ofOutline?).bind fun parameters =>
    (Node.ofOutline? document).map
      (Node.function (.placeless .identifier name.text) parameters)) = _
  rw [hn, parameters hps, Token.placeless_eq hk, Node.unplaced]
  rfl

end Outlined

/-! ## Derivable trees -/

mutual

theorem outlined_expression : {ts : List Token} → {n : Node} → Expression ts n →
    AllOf Fixed ts → Outlined n
  | _, _, .bool h, hs => outlined_boolExpr h hs
  | _, _, .number h, hs => outlined_numExpr h hs

theorem outlined_boolExpr : {ts : List Token} → {n : Node} → BoolExpr ts n → AllOf Fixed ts →
    Outlined n
  | _, _, .single h, hs => outlined_boolTerm h hs
  | _, _, .snoc h hk h', hs =>
    .binary hs.right.head (isBinary_of_isConnective hk) (outlined_boolExpr h hs.left)
      (outlined_boolTerm h' hs.right.tail)

theorem outlined_boolTerm : {ts : List Token} → {n : Node} → BoolTerm ts n → AllOf Fixed ts →
    Outlined n
  | _, _, .paren _ h _, hs => outlined_boolExpr h hs.left.tail
  | _, _, .not hk h, hs => .unary hs.head (isUnary_bang hk) (outlined_boolTerm h hs.tail)
  | _, _, .truth hk, hs => .boolLiteral hs.head hk
  | _, _, .comparison h hk h', hs =>
    .binary hs.right.head (isBinary_of_isComparison hk) (outlined_numExpr h hs.left)
      (outlined_numExpr h' hs.right.tail)
  | _, _, .var h, hs => outlined_numExpr h hs
  | _, _, .call h, hs => outlined_numExpr h hs

theorem outlined_numExpr : {ts : List Token} → {n : Node} → NumExpr ts n → AllOf Fixed ts →
    Outlined n
  | _, _, .single h, hs => outlined_numTerm h hs
  | _, _, .snoc h hk h', hs =>
    .binary hs.right.head (isBinary_of_isAdditive hk) (outlined_numExpr h hs.left)
      (outlined_numTerm h' hs.right.tail)

theorem outlined_numTerm : {ts : List Token} → {n : Node} → NumTerm ts n → AllOf Fixed ts →
    Outlined n
  | _, _, .single h, hs => outlined_factor h hs
  | _, _, .snoc h hk h', hs =>
    .binary hs.right.head (isBinary_of_isMultiplicative hk) (outlined_numTerm h hs.left)
      (outlined_factor h' hs.right.tail)

theorem outlined_factor : {ts : List Token} → {n : Node} → Factor ts n → AllOf Fixed ts →
    Outlined n
  | _, _, .paren _ h _, hs => outlined_numExpr h hs.left.tail
  | _, _, .sign hk h, hs => .unary hs.head (isUnary_of_sign hk) (outlined_factor h hs.tail)
  | _, _, .float hk, _ => .floatLiteral hk
  | _, _, .int hk, _ => .intLiteral hk
  | _, _, .call h, hs => outlined_call h hs
  | _, _, .var hk, _ => .var hk

theorem outlined_call : {ts : List Token} → {n : Node} → Call ts n → AllOf Fixed ts → Outlined n
  | _, _, .mk hk _ h _, hs => .call hk (outlined_arguments h hs.left.tail.tail)

theorem outlined_arguments : {ts : List Token} → {ns : List Node} → Listed Expression ts ns →
    AllOf Fixed ts → ∀ n ∈ ns, Outlined n
  | _, _, .nil, _ => by simp
  | _, _, .items h, hs => outlined_separated h hs

theorem outlined_separated : {ts : List Token} → {ns : List Node} → Separated Expression ts ns →
    AllOf Fixed ts → ∀ n ∈ ns, Outlined n
  | _, _, .single h, hs => by simpa using outlined_expression h hs
  | _, _, .cons h _ h', hs => by
    simpa using ⟨outlined_expression h hs.left, outlined_separated h' hs.right.tail⟩

end

theorem outlined_assignment {ts : List Token} {n : Node} (h : Assignment ts n)
    (hs : AllOf Fixed ts) : Outlined n := by
  cases h with
  | plain hk hop h =>
    exact .assign (by simp) hk hs.tail.head hop (outlined_expression h hs.tail.tail)
  | typed hty hk hop h =>
    exact .assign (by simpa using ⟨hs.head, hty⟩) hk hs.tail.tail.head hop
      (outlined_expression h hs.tail.tail.tail)

theorem outlined_standing {ts : List Token} {n : Node} (h : Standing ts n) (hs : AllOf Fixed ts) :
    Outlined n := by
  cases h with
  | mk _ h => exact outlined_expression h hs

mutual

theorem outlined_statement : {ts : List Token} → {n : Node} → Statement ts n → AllOf Fixed ts →
    Outlined n
  | _, _, .assignment h _, hs => outlined_assignment h hs.left
  | _, _, .call h _, hs => outlined_call h hs.left
  | _, _, .ret _ h _, hs => .ret (outlined_expression h hs.left.tail)
  | _, _, .standing h _, hs => outlined_standing h hs.left
  | _, _, .branch hk h hb, hs =>
    .branch hs.left.head hk (outlined_boolExpr h hs.left.tail) (outlined_block hb hs.right) .noOp
  | _, _, .branches hk h hb _ hb', hs =>
    .branch hs.left.left.head hk (outlined_boolExpr h hs.left.left.tail)
      (outlined_block hb hs.left.right) (outlined_block hb' hs.right.tail)

theorem outlined_block : {ts : List Token} → {n : Node} → Block ts n → AllOf Fixed ts →
    Outlined n
  | _, _, .empty _ _, _ => .compound (by simpa using Outlined.noOp)
  | _, _, .statements _ h hr _, hs =>
    .compound fun n hn => outlined_statements h hs.left.tail n (hr.subset n hn)

theorem outlined_statements : {k : Kind} → {ts : List Token} → {ns : List Node} →
    Statements k ts ns → AllOf Fixed ts → ∀ n ∈ ns, Outlined n
  | _, _, _, .single h, hs => by simpa using outlined_statement h hs
  | _, _, _, .standing _ h, hs => by simpa using outlined_standing h hs
  | _, _, _, .cons h h', hs => by
    simpa using ⟨outlined_statement h hs.left, outlined_statements h' hs.right⟩

end

theorem fixed_parameters {ts : List Token} {ps : List Parameter}
    (h : Separated ParameterOf ts ps) (hs : AllOf Fixed ts) :
    ∀ p ∈ ps, Fixed p.type ∧ p.type.kind.isType = true ∧ p.name.kind = .identifier := by
  induction h with
  | single h =>
    cases h with
    | mk hk hname => simpa using ⟨hs.head, hk, hname⟩
  | cons h _ _ ih =>
    cases h with
    | mk hk hname =>
      intro p hp
      rcases List.mem_cons.mp hp with rfl | hp
      · exact ⟨hs.head, hk, hname⟩
      · exact ih hs.right.tail p hp

theorem outlined_declaration {ts : List Token} {n : Node} (h : Declaration ts n)
    (hs : AllOf Fixed ts) : Outlined n := by
  cases h with
  | mk _ hname _ hps _ hbody =>
    refine .function hname ?_ (outlined_block hbody hs.right.tail)
    cases hps with
    | nil => simp
    | items h => exact fixed_parameters h hs.left.tail.tail.tail

theorem outlined_parts {ts : List Token} {ns : List Node} (h : Parts ts ns)
    (hs : AllOf Fixed ts) : ∀ n ∈ ns, Outlined n := by
  induction h with
  | finish => simp
  | function h _ ih => simpa using ⟨outlined_declaration h hs.left, ih hs.right⟩
  | statements h hr _ _ ih =>
    have hlist : ∀ n ∈ _, Outlined n := fun n hn =>
      outlined_statements h hs.left n (hr.subset n hn)
    simpa using ⟨Outlined.compound hlist, ih hs.right⟩

theorem outlined_parseWithin {text : String} {depth : Nat} {tree : Node}
    (h : parseWithin .byOffset depth text = .ok tree) : Outlined tree := by
  obtain ⟨-, hprogram⟩ := derivable_of_parseWithin h
  cases hprogram with
  | mk hparts => exact .program (.compound (outlined_parts hparts (fixed_tokenize text)))

/-! ## Faithful outlines -/

/-- An outline that is written at all is read back as the tree. -/
theorem Outlined.ofOutline? {n : Node} (h : Outlined n) {depth : Nat} {document : Document}
    (hd : n.outlineWithin depth = .ok document) : Node.ofOutline? document = some n.unplaced := by
  obtain ⟨found, ⟨enough, hf⟩, hn⟩ := h
  rcases hf depth with hf | ⟨hf, -⟩
  · cases hd.symm.trans hf
    exact hn
  · cases hd.symm.trans hf

/-- The outline of the tree of a text is written at every depth but those that are too small for it.
It is read back as that tree, with nothing lost but the places of tokens; so texts whose outlines
are printed the same have the same tree up to places. -/
theorem outline_faithful {text : String} {depth : Nat} {tree : Node}
    (h : parseWithin .byOffset depth text = .ok tree) :
    (∃ enough, ∀ depth, (∃ document, tree.outlineWithin depth = .ok document ∧
        Node.ofOutline? document = some tree.unplaced) ∨
      tree.outlineWithin depth = .error .tooDeep ∧ depth < enough) ∧
    ∀ (text' : String) (depth' : Nat) (tree' : Node),
      parseWithin .byOffset depth' text' = .ok tree' →
      ∀ (deep deep' : Nat) (document document' : Document),
        tree.outlineWithin deep = .ok document → tree'.outlineWithin deep' = .ok document' →
        document.pretty 0 = document'.pretty 0 → tree.unplaced = tree'.unplaced := by
  have hout := outlined_parseWithin h
  refine ⟨?_, fun text' depth' tree' h' deep deep' document document' hd hd' hprint => ?_⟩
  · obtain ⟨document, ⟨enough, hf⟩, hn⟩ := hout
    exact ⟨enough, fun deep => (hf deep).imp_left fun hf => ⟨document, hf, hn⟩⟩
  · have hread := hout.ofOutline? hd
    rw [Document.pretty_injective 0 hprint, (outlined_parseWithin h').ofOutline? hd'] at hread
    exact (Option.some.inj hread).symm

/-- The outlines of two trees are printed the same. -/
def printAlike (depth : Nat) (n n' : Node) : Bool :=
  match n.outlineWithin depth, n'.outlineWithin depth with
  | .ok document, .ok document' => document.pretty 0 == document'.pretty 0
  | _, _ => false

theorem exists_of_printAlike {depth : Nat} {n n' : Node} (h : printAlike depth n n' = true) :
    ∃ document document', n.outlineWithin depth = .ok document ∧
      n'.outlineWithin depth = .ok document' ∧ document.pretty 0 = document'.pretty 0 := by
  unfold printAlike at h
  split at h
  · next document document' hd hd' => exact ⟨document, document', hd, hd', eq_of_beq h⟩
  · cases h

/-- Two layouts of a text, with the tokens that are not written down. -/
theorem outline_faithful_layouts :
    ∃ tree tree' document document',
      parseWithin .byOffset 60 "if !a\x7bx:=-1.5;\x7d" = .ok tree ∧
      parseWithin .byOffset 60 "if ! a \x7b\n x := - 1.5f; \x7d" = .ok tree' ∧
      tree.outlineWithin 60 = .ok document ∧ tree'.outlineWithin 60 = .ok document' ∧
      document.pretty 0 = document'.pretty 0 ∧ Node.ofOutline? document = some tree.unplaced ∧
      tree.unplaced = tree'.unplaced := by
  have hcheck : parsesTo 60 "if !a\x7bx:=-1.5;\x7d" (fun tree =>
      parsesTo 60 "if ! a \x7b\n x := - 1.5f; \x7d" (printAlike 60 tree)) = true := by
    decide +kernel
  obtain ⟨tree, htree, hcheck⟩ := exists_of_parsesTo hcheck
  obtain ⟨tree', htree', hcheck⟩ := exists_of_parsesTo hcheck
  obtain ⟨document, document', hd, hd', hprint⟩ := exists_of_printAlike hcheck
  obtain ⟨⟨enough, hread⟩, hsame⟩ := outline_faithful htree
  refine ⟨tree, tree', document, document', htree, htree', hd, hd', hprint, ?_,
    hsame _ _ _ htree' _ _ _ _ hd hd' hprint⟩
  rcases hread 60 with ⟨found, hf, hback⟩ | ⟨hdeep, -⟩
  · cases hd.symm.trans hf
    exact hback
  · cases hd.symm.trans hdeep

end LittleLang
