import LittleLang.Token.Cursor

/-!
# Token streams

A stream is the sequence of the tokens of a text, seen from one of them, its head. It ends with the
end-of-input token, or with the last token before a lexical error. The error is met only by moving
past that token (`Stream.next`). Each token comes with the offset right after it, `stop`.
-/

namespace LittleLang

/-- A token and the offset right after it. -/
structure Placed where
  token : Token
  stop : Nat
  deriving DecidableEq, Repr

/-- The tokens of a text from one of them on. -/
inductive Stream where
  | finish (head : Placed)
  /-- A token after which the text cannot be read. -/
  | blocked (head : Placed) (error : LexicalError)
  | more (head : Placed) (tail : Stream)
  deriving DecidableEq, Repr

namespace Stream

/-! ## Moving on a stream -/

/-- The token that the stream stands on. -/
def head : Stream → Placed
  | finish head | blocked head _ | more head _ => head

/-- The token that the stream stands on, without its offset. -/
def token (s : Stream) : Token :=
  s.head.token

def kind (s : Stream) : Kind :=
  s.token.kind

/-- The stream from the token after the head. The end of the text follows itself. -/
def next : Stream → Except LexicalError Stream
  | finish head => .ok (finish head)
  | blocked _ error => .error error
  | more _ tail => .ok tail

/-- The number of tokens from the head on. -/
def length : Stream → Nat
  | finish _ | blocked _ _ => 1
  | more _ tail => tail.length + 1

theorem length_pos (s : Stream) : 0 < s.length := by
  cases s <;> simp [length]

/-! ## Views -/

def tokens : Stream → List Token
  | finish head | blocked head _ => [head.token]
  | more head tail => head.token :: tail.tokens

/-- The lexical error that the stream ends with. -/
def error? : Stream → Option LexicalError
  | finish _ => none
  | blocked _ error => some error
  | more _ tail => tail.error?

theorem length_tokens (s : Stream) : s.tokens.length = s.length := by
  induction s with
  | finish | blocked => rfl
  | more head tail ih => simp [tokens, length, ih]

/-! ## The stream of a text -/

/-- The tokens that follow a cursor. Every token but the last takes a character, so one round for
each character left and one for the end are enough. -/
def ofCursor : Nat → Cursor → Except LexicalError Stream
  | 0, c => .ok (finish ⟨c.token, c.place.offset⟩)
  | rounds + 1, c => match c.next with
    | .error e => .error e
    | .ok c =>
      let head : Placed := ⟨c.token, c.place.offset⟩
      if c.token.kind = .endOfInput then .ok (finish head)
      else match ofCursor rounds c with
        | .error e => .ok (blocked head e)
        | .ok tail => .ok (more head tail)

/-- The stream of a text from its first token, unless the first lexical error comes before it. -/
def ofText (text : String) : Except LexicalError Stream :=
  ofCursor (text.length + 1) (.ofText text)

end Stream

/-- The tokens of a text up to its first lexical error. -/
def tokenize (text : String) : List Token × Option LexicalError :=
  match Stream.ofText text with
  | .error e => ([], some e)
  | .ok s => (s.tokens, s.error?)

end LittleLang
