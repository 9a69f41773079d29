import LittleLang.Text.Blank
import LittleLang.Token.Lexeme

/-!
# Cursors

A cursor stands in a text: it holds what is left to read, the place where that starts, and the token
read last. `Cursor.next` reads one more token and `Cursor.skip` passes over a character that starts
none. A cursor is a value, so keeping one is all it takes to come back to it. `scan` reads a whole
text and gathers the lexical errors on its way.
-/

namespace LittleLang

open LittleLang.Text

/-! ## Places -/

/-- A place in a text: the number of characters before it, its line and its column. -/
structure Place where
  offset : Nat := 0
  line : Nat := 1
  column : Nat := 1
  deriving DecidableEq, Repr, Inhabited

namespace Place

/-- The place after one character; only a line feed starts a line. -/
def step (p : Place) (c : Char) : Place :=
  if c = '\n' then ⟨p.offset + 1, p.line + 1, 1⟩ else ⟨p.offset + 1, p.line, p.column + 1⟩

def pass (p : Place) (cs : List Char) : Place :=
  cs.foldl step p

@[simp] theorem pass_nil (p : Place) : p.pass [] = p := rfl

theorem pass_append (p : Place) (as bs : List Char) :
    p.pass (as ++ bs) = (p.pass as).pass bs := by
  simp [pass]

/-- A token that starts here. -/
def token (p : Place) (kind : Kind) (text : String) : Token :=
  ⟨kind, text, p.line, p.column⟩

end Place

/-! ## Cursors -/

/-- A place in a text, with the token before it. -/
structure Cursor where
  rest : List Char
  place : Place
  token : Token
  deriving DecidableEq, Repr

namespace Cursor

def start (text : String) (place : Place) : Cursor :=
  ⟨text.toList.drop place.offset, place, ⟨.endOfInput, "", 1, 1⟩⟩

def ofText (text : String) : Cursor :=
  start text {}

def advance (c : Cursor) (n : Nat) : Cursor :=
  ⟨c.rest.drop n, c.place.pass (c.rest.take n), c.token⟩

def skipBlanks (c : Cursor) : Cursor :=
  c.advance (c.rest.takeWhile isBlank).length

/-- Reads the next token. At the end of the text that is the end-of-input token, again and again. -/
def next (c : Cursor) : Except LexicalError Cursor :=
  let c := c.skipBlanks
  match c.rest with
  | [] => .ok ⟨[], c.place, c.place.token .endOfInput ""⟩
  | ch :: _ => match Lexeme.read c.rest with
    | none => .error ⟨ch, c.place.line, c.place.column⟩
    | some lexeme => .ok ⟨(c.advance lexeme.spelling.length).rest,
        (c.advance lexeme.spelling.length).place,
        c.place.token lexeme.kind (String.ofList lexeme.text)⟩

/-- Moves over the blanks and the character after them. -/
def skip (c : Cursor) : Cursor :=
  c.skipBlanks.advance 1

end Cursor

/-! ## Reading with recovery -/

/-- Reads on from a cursor, passing over each character that starts no token. Every round moves on
by a character at least, so one round for each character left and one for the end are enough. -/
def scanFrom : Nat → Cursor → List Token × List LexicalError
  | 0, _ => ([], [])
  | rounds + 1, c => match c.next with
    | .error e =>
      let (tokens, errors) := scanFrom rounds c.skip
      (tokens, e :: errors)
    | .ok c =>
      if c.token.kind = .endOfInput then ([c.token], [])
      else
        let (tokens, errors) := scanFrom rounds c
        (c.token :: tokens, errors)

/-- All tokens of a text and all its lexical errors. -/
def scan (text : String) : List Token × List LexicalError :=
  scanFrom (text.length + 1) (.ofText text)

end LittleLang
