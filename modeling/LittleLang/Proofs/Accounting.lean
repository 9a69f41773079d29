import Mathlib.Data.List.Induction
import LittleLang.Proofs.Literals

/-!
# Every character has its place

A scan cuts a text into pieces: blanks, and then the lexeme of a token or a character that starts
none. Behind the last piece there are only blanks. `Accounts` says that a scan reports these pieces,
all of them and in their order, each with the line and the column that its lexeme starts at, and
then the end of the text. `scan_accounts`: every scan does.
-/

open LittleLang.Text

namespace LittleLang

/-! ## Lines and columns -/

/-- The line of a character: one more than the line feeds before it. -/
def lineAfter (before : List Char) : Nat :=
  1 + before.count '\n'

/-- The column of a character: one more than the characters between it and the last line feed before
it, or the start of the text. -/
def columnAfter (before : List Char) : Nat :=
  1 + (before.reverse.takeWhile (· ≠ '\n')).length

theorem Place.pass_concat (p : Place) (cs : List Char) (c : Char) :
    p.pass (cs ++ [c]) = (p.pass cs).step c :=
  p.pass_append cs [c]

/-- A place that moves along from the start of a text has the line and the column that the
characters before it give. -/
theorem Place.pass_start (before : List Char) :
    (({} : Place).pass before).line = lineAfter before ∧
      (({} : Place).pass before).column = columnAfter before := by
  induction before using List.reverseRecOn with
  | nil => exact ⟨rfl, rfl⟩
  | append_singleton before c ih =>
    rw [Place.pass_concat]
    unfold Place.step
    split
    · next hc =>
      refine ⟨?_, ?_⟩
      · simp only [ih.1, lineAfter, List.count_append, hc, List.count_singleton_self]
        omega
      · simp [columnAfter, hc]
    · next hc =>
      refine ⟨?_, ?_⟩
      · simp [ih.1, lineAfter, List.count_append, hc]
      · simp only [ih.2, columnAfter, List.reverse_append, List.reverse_singleton,
          List.singleton_append]
        rw [List.takeWhile_cons_of_pos (by simpa using hc), List.length_cons]
        omega

/-! ## The text of a token -/

namespace Lexeme

/-- A spelling without the mark of a float. -/
def unmarked (kind : Kind) (spelling : List Char) : List Char :=
  if kind = .floatLiteral ∧ (spelling.getLast? = some 'f' ∨ spelling.getLast? = some 'F') then
    spelling.dropLast
  else spelling

theorem unmarked_of_kind_ne {kind : Kind} (h : kind ≠ .floatLiteral) (spelling : List Char) :
    unmarked kind spelling = spelling :=
  if_neg fun hmark => h hmark.1

theorem floatMark_cases (cs : List Char) :
    floatMark cs = [] ∨ floatMark cs = ['f'] ∨ floatMark cs = ['F'] := by
  unfold floatMark
  split
  · next c cs =>
    split
    · next hc =>
      simp only [Bool.or_eq_true, decide_eq_true_eq] at hc
      rcases hc with rfl | rfl
      · exact .inr (.inl rfl)
      · exact .inr (.inr rfl)
    · exact .inl rfl
  · exact .inl rfl

theorem getLast?_ne_of_isPlain {cs : List Char} (h : ∀ c ∈ cs, Number.isPlain c = true) :
    ¬(cs.getLast? = some 'f' ∨ cs.getLast? = some 'F') := by
  rintro (hlast | hlast)
  · cases h 'f' (List.mem_of_getLast? hlast)
  · cases h 'F' (List.mem_of_getLast? hlast)

theorem isPlain_number_text {c : Char} (hc : c.isDigit = true) (cs : List Char) :
    ∀ d ∈ (number (c :: cs)).text, Number.isPlain d = true := by
  obtain ⟨ds, part, htext, hds, hpart, -⟩ := number_text hc cs
  rw [htext]
  intro d hd
  rcases List.mem_append.mp hd with hd | hd
  · simp [Number.isPlain, hds d hd]
  · rcases hpart with rfl | ⟨fs, rfl, hfs⟩
    · cases hd
    · rcases List.mem_cons.mp hd with rfl | hd
      · rfl
      · simp [Number.isPlain, hfs d hd]

theorem number_spelling (cs : List Char) : ∃ mark, (mark = [] ∨ mark = ['f'] ∨ mark = ['F']) ∧
    (number cs).spelling = (number cs).text ++ mark ∧
      (mark ≠ [] → (number cs).kind = .floatLiteral) := by
  refine ⟨_, floatMark_cases _, rfl, fun hmark => ?_⟩
  unfold number
  dsimp only
  rw [if_neg]
  intro hempty
  exact hmark (List.isEmpty_iff.mp ((Bool.and_eq_true _ _).mp hempty).2)

theorem number_text_eq {c : Char} (hc : c.isDigit = true) (cs : List Char) :
    (number (c :: cs)).text = unmarked (number (c :: cs)).kind (number (c :: cs)).spelling := by
  have hplain := isPlain_number_text hc cs
  obtain ⟨mark, hmark, hspelling, hkind⟩ := number_spelling (c :: cs)
  rcases hmark with rfl | rfl | rfl
  · rw [hspelling, List.append_nil, unmarked,
      if_neg fun h => getLast?_ne_of_isPlain hplain h.2]
  · simp [unmarked, hspelling, hkind]
  · simp [unmarked, hspelling, hkind]

theorem operator?_text {cs : List Char} {l : Lexeme} (h : operator? cs = some l) :
    l.text = l.spelling := by
  unfold operator? at h
  split at h
  · cases h
  · obtain ⟨hs, ht, -⟩ := sign?_eq_some h
    rw [hs, ht]
  · split at h
    · cases h
      rfl
    · obtain ⟨hs, ht, -⟩ := sign?_eq_some h
      rw [hs, ht]

theorem operator?_kind_ne {cs : List Char} {l : Lexeme} (h : operator? cs = some l) :
    l.kind ≠ .floatLiteral := by
  have hliteral : l.kind.isLiteral = false := by
    rcases operator?_eq_some h with ⟨c, rest, -, -, hs⟩ | ⟨c, d, rest, -, -, hp⟩
    · exact Kind.isLiteral_ofSign hs
    · exact Kind.isLiteral_ofPair hp
  intro hk
  rw [hk] at hliteral
  cases hliteral

/-- The text of a token is its spelling, less the mark of a float. -/
theorem read_text {cs : List Char} {l : Lexeme} (h : read cs = some l) :
    l.text = unmarked l.kind l.spelling := by
  rcases read_cases h with ⟨c, rest, rfl, -, rfl⟩ | ⟨c, rest, rfl, hc, rfl⟩ | h
  · exact (unmarked_of_kind_ne (Kind.ofWord_ne_number _).2 _).symm
  · exact number_text_eq hc rest
  · rw [unmarked_of_kind_ne (operator?_kind_ne h), operator?_text h]

end Lexeme

/-! ## Pieces of a text -/

/-- Some blanks and the lexeme after them, with what it is read as: a token, or an error if it is a
character that starts no token. -/
structure Piece where
  blanks : List Char
  lexeme : List Char
  reading : Except LexicalError Token

namespace Piece

def chars (p : Piece) : List Char :=
  p.blanks ++ p.lexeme

def token? (p : Piece) : Option Token :=
  match p.reading with
  | .ok token => some token
  | .error _ => none

def error? (p : Piece) : Option LexicalError :=
  match p.reading with
  | .ok _ => none
  | .error error => some error

/-- Puts the reading of a piece before those of the pieces after it. -/
def report (p : Piece) (scanned : List Token × List LexicalError) :
    List Token × List LexicalError :=
  match p.reading with
  | .ok token => (token :: scanned.1, scanned.2)
  | .error error => (scanned.1, error :: scanned.2)

/-- The piece is what it says, where it stands behind `before`: the blanks are blanks, and the
reading has the text of the lexeme and the place where that starts. The end of the text is no
piece. -/
def Holds (before : List Char) (p : Piece) : Prop :=
  p.blanks.all isBlank = true ∧ match p.reading with
    | .ok token => p.lexeme ≠ [] ∧ token.kind ≠ .endOfInput ∧
        token.text = String.ofList (Lexeme.unmarked token.kind p.lexeme) ∧
        token.line = lineAfter (before ++ p.blanks) ∧
        token.column = columnAfter (before ++ p.blanks)
    | .error error => p.lexeme = [error.char] ∧
        error.line = lineAfter (before ++ p.blanks) ∧
        error.column = columnAfter (before ++ p.blanks)

def AllHold : List Char → List Piece → Prop
  | _, [] => True
  | before, p :: pieces => p.Holds before ∧ AllHold (before ++ p.chars) pieces

end Piece

def endToken (text : List Char) : Token :=
  ⟨.endOfInput, "", lineAfter text, columnAfter text⟩

/-- A scan of `rest`, which stands behind `before`, reports the pieces that `rest` is made of: their
tokens, with the end of the text as the last one, and their errors. -/
structure Accounts (before rest : List Char) (pieces : List Piece) (trailing : List Char)
    (scanned : List Token × List LexicalError) : Prop where
  /-- The pieces and some trailing blanks are the whole text. -/
  whole : rest = pieces.flatMap Piece.chars ++ trailing
  trailing_blank : trailing.all isBlank = true
  pieces_hold : Piece.AllHold before pieces
  tokens : scanned.1 = pieces.filterMap Piece.token? ++ [endToken (before ++ rest)]
  errors : scanned.2 = pieces.filterMap Piece.error?

namespace Accounts

variable {before rest blanks trailing : List Char} {pieces : List Piece}
  {scanned : List Token × List LexicalError}

theorem finish (h : blanks.all isBlank = true) :
    Accounts before blanks [] blanks ([endToken (before ++ blanks)], []) :=
  ⟨rfl, h, trivial, rfl, rfl⟩

theorem cons {p : Piece} (hp : p.Holds before)
    (h : Accounts (before ++ p.chars) rest pieces trailing scanned) :
    Accounts before (p.chars ++ rest) (p :: pieces) trailing (p.report scanned) := by
  have hwhole : p.chars ++ rest = (p :: pieces).flatMap Piece.chars ++ trailing := by
    rw [h.whole, List.flatMap_cons, List.append_assoc]
  obtain ⟨tokens, errors⟩ := scanned
  obtain ⟨blanks, lexeme, error | token⟩ := p
  · refine ⟨hwhole, h.trailing_blank, ⟨hp, h.pieces_hold⟩, ?_, ?_⟩
    · rw [← List.append_assoc]
      exact h.tokens
    · exact congrArg (error :: ·) h.errors
  · refine ⟨hwhole, h.trailing_blank, ⟨hp, h.pieces_hold⟩, ?_, h.errors⟩
    rw [← List.append_assoc]
    exact congrArg (token :: ·) h.tokens

end Accounts

/-! ## One round of a scan -/

namespace Cursor

theorem skipBlanks_eq (cs : List Char) (place : Place) (token : Token) :
    (Cursor.mk cs place token).skipBlanks =
      ⟨cs.dropWhile isBlank, place.pass (cs.takeWhile isBlank), token⟩ := by
  rw [skipBlanks, ← advance_append, List.takeWhile_append_dropWhile]

/-- What a round of a scan may meet behind some blanks. -/
inductive Round (place : Place) (token : Token) (blanks : List Char) : List Char → Prop where
  | finish : (Cursor.mk blanks place token).next =
        .ok ⟨[], place.pass blanks, (place.pass blanks).token .endOfInput ""⟩ →
      Round place token blanks []
  | lexeme {l : Lexeme} {rest : List Char} : Lexeme.read (l.spelling ++ rest) = some l →
      (Cursor.mk (blanks ++ (l.spelling ++ rest)) place token).next =
        .ok ⟨rest, (place.pass blanks).pass l.spelling,
          (place.pass blanks).token l.kind (String.ofList l.text)⟩ →
      Round place token blanks (l.spelling ++ rest)
  /-- A character that starts no lexeme, and is passed over. -/
  | error {c : Char} {rest : List Char} :
      (Cursor.mk (blanks ++ ([c] ++ rest)) place token).next =
        .error ⟨c, (place.pass blanks).line, (place.pass blanks).column⟩ →
      (Cursor.mk (blanks ++ ([c] ++ rest)) place token).skip =
        ⟨rest, (place.pass blanks).pass [c], token⟩ →
      Round place token blanks ([c] ++ rest)

theorem exists_round (cs : List Char) (place : Place) (token : Token) :
    ∃ blanks rest, cs = blanks ++ rest ∧ blanks.all isBlank = true ∧
      Round place token blanks rest := by
  refine ⟨cs.takeWhile isBlank, cs.dropWhile isBlank, List.takeWhile_append_dropWhile.symm,
    List.all_takeWhile, ?_⟩
  have hskip := skipBlanks_eq cs place token
  have hcs : cs.takeWhile isBlank ++ cs.dropWhile isBlank = cs := List.takeWhile_append_dropWhile
  generalize cs.takeWhile isBlank = blanks at hskip hcs ⊢
  generalize cs.dropWhile isBlank = rest at hskip hcs ⊢
  subst hcs
  cases rest with
  | nil =>
    rw [List.append_nil] at hskip
    refine .finish ?_
    unfold next
    simp only [hskip]
  | cons c rest =>
    cases hread : Lexeme.read (c :: rest) with
    | none =>
      refine .error ?_ ?_
      · unfold next
        simp only [List.singleton_append, hskip, hread]
      · unfold skip
        rw [List.singleton_append, hskip]
        exact advance_append [c] rest _ _
    | some l =>
      obtain ⟨tail, htail⟩ := Lexeme.read_append hread
      have hnext : (Cursor.mk (blanks ++ (c :: rest)) place token).next =
          .ok ⟨tail, (place.pass blanks).pass l.spelling,
            (place.pass blanks).token l.kind (String.ofList l.text)⟩ := by
        unfold next
        simp only [hskip, hread]
        rw [htail, advance_append]
      rw [htail] at hread hnext ⊢
      exact .lexeme hread hnext

end Cursor

/-! ## A whole scan -/

section
variable {rounds : Nat} {c c' : Cursor}

theorem scanFrom_finish (h : c.next = .ok c') (hk : c'.token.kind = .endOfInput) :
    scanFrom (rounds + 1) c = ([c'.token], []) := by
  simp only [scanFrom, h, if_pos hk]

theorem scanFrom_token (h : c.next = .ok c') (hk : c'.token.kind ≠ .endOfInput) :
    scanFrom (rounds + 1) c = (c'.token :: (scanFrom rounds c').1, (scanFrom rounds c').2) := by
  simp only [scanFrom, h, if_neg hk]

theorem scanFrom_error {e : LexicalError} (h : c.next = .error e) :
    scanFrom (rounds + 1) c = ((scanFrom rounds c.skip).1, e :: (scanFrom rounds c.skip).2) := by
  simp only [scanFrom, h]

end

theorem Piece.holds_of_read (before : List Char) {blanks rest : List Char} {l : Lexeme}
    (hb : blanks.all isBlank = true) (h : Lexeme.read (l.spelling ++ rest) = some l) :
    (Piece.mk blanks l.spelling (.ok ((({} : Place).pass (before ++ blanks)).token l.kind
      (String.ofList l.text)))).Holds before := by
  obtain ⟨hline, hcolumn⟩ := Place.pass_start (before ++ blanks)
  exact ⟨hb, Lexeme.read_ne_nil h, Lexeme.read_kind_ne h,
    congrArg String.ofList (Lexeme.read_text h), hline, hcolumn⟩

theorem Piece.holds_of_error (before : List Char) {blanks : List Char} (c : Char)
    (hb : blanks.all isBlank = true) :
    (Piece.mk blanks [c] (.error ⟨c, (({} : Place).pass (before ++ blanks)).line,
      (({} : Place).pass (before ++ blanks)).column⟩)).Holds before := by
  obtain ⟨hline, hcolumn⟩ := Place.pass_start (before ++ blanks)
  exact ⟨hb, rfl, hline, hcolumn⟩

theorem endToken_eq (text : List Char) :
    (({} : Place).pass text).token .endOfInput "" = endToken text := by
  obtain ⟨hline, hcolumn⟩ := Place.pass_start text
  unfold Place.token endToken
  rw [hline, hcolumn]

/-- A scan that stands behind `before` reports what is left, if it has a round for each character
and one for the end. -/
theorem accounts_scanFrom {rounds : Nat} {before rest : List Char} {token : Token}
    (hr : rest.length < rounds) :
    ∃ pieces trailing, Accounts before rest pieces trailing
      (scanFrom rounds ⟨rest, ({} : Place).pass before, token⟩) := by
  induction rounds generalizing before rest token with
  | zero => omega
  | succ rounds ih =>
    obtain ⟨blanks, rest, rfl, hb, hround⟩ :=
      Cursor.exists_round rest (({} : Place).pass before) token
    simp only [List.length_append] at hr
    cases hround with
    | finish hnext =>
      simp only [← Place.pass_append, endToken_eq] at hnext
      refine ⟨[], blanks, ?_⟩
      rw [List.append_nil, scanFrom_finish hnext rfl]
      exact .finish hb
    | @lexeme l rest hread hnext =>
      have hne := List.length_pos_iff.mpr (Lexeme.read_ne_nil hread)
      simp only [List.length_append] at hr
      simp only [← Place.pass_append, List.append_assoc] at hnext
      rw [scanFrom_token hnext (Lexeme.read_kind_ne hread)]
      obtain ⟨pieces, trailing, h⟩ := @ih (before ++ (blanks ++ l.spelling)) rest
        ((({} : Place).pass (before ++ blanks)).token l.kind (String.ofList l.text)) (by omega)
      have hcons := h.cons (Piece.holds_of_read before hb hread)
      rw [Piece.chars, List.append_assoc] at hcons
      exact ⟨_, trailing, hcons⟩
    | @error c rest hnext hskip =>
      simp only [List.length_append, List.length_singleton] at hr
      simp only [← Place.pass_append, List.append_assoc] at hnext hskip
      rw [scanFrom_error hnext, hskip]
      obtain ⟨pieces, trailing, h⟩ := @ih (before ++ (blanks ++ [c])) rest token (by omega)
      have hcons := h.cons (Piece.holds_of_error before c hb)
      rw [Piece.chars, List.append_assoc] at hcons
      exact ⟨_, trailing, hcons⟩

/-- A scan reports every character of a text but the blanks, each where it stands. -/
theorem scan_accounts (text : String) :
    ∃ pieces trailing, Accounts [] text.toList pieces trailing (scan text) :=
  accounts_scanFrom (by simp [String.length_toList])

example : scan "\n 1.5f?" =
    ([⟨.floatLiteral, "1.5", 2, 2⟩, ⟨.endOfInput, "", 2, 7⟩], [⟨'?', 2, 6⟩]) := by
  decide +kernel

end LittleLang
