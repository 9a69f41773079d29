/-!
# Documents

A document is JSON data: texts, lists and objects, which is what a tree is written down as. The
fields of an object keep their order.
-/

namespace LittleLang

inductive Document where
  | null
  | text (value : String)
  | list (items : List Document)
  | object (fields : List (String × Document))
  deriving Inhabited

namespace Document

/-! ## Writing -/

/-- A control character by its code. -/
def controlEscape (n : Nat) : List Char :=
  ['\\', 'u', '0', '0'] ++ (if n < 16 then ['0'] else []) ++ Nat.toDigits 16 n

/-- A character as it stands inside a text. -/
def escaped (c : Char) : List Char :=
  if c = '\x22' || c = '\\' then ['\\', c]
  else if c = '\n' then ['\\', 'n']
  else if c = '\r' then ['\\', 'r']
  else if c = '\t' then ['\\', 't']
  else if c = '\x08' then ['\\', 'b']
  else if c = '\x0c' then ['\\', 'f']
  else if c.toNat < 0x20 then controlEscape c.toNat
  else [c]

def quote (s : String) : String :=
  String.ofList ('\x22' :: s.toList.flatMap escaped ++ ['\x22'])

/-- The start of a line at a depth of nesting: two blanks for each level. -/
def newline (depth : Nat) : String :=
  "\n" ++ String.ofList (List.replicate (2 * depth) ' ')

mutual

/-- The document laid out over lines, with what is nested indented. -/
def pretty (depth : Nat) : Document → String
  | null => "null"
  | text value => quote value
  | list [] => "[]"
  | list (item :: items) =>
    "[" ++ newline (depth + 1) ++ pretty (depth + 1) item ++ prettyItems (depth + 1) items
      ++ newline depth ++ "]"
  | object [] => "\x7b\x7d"
  | object ((key, value) :: fields) =>
    "\x7b" ++ newline (depth + 1) ++ quote key ++ ": " ++ pretty (depth + 1) value
      ++ prettyFields (depth + 1) fields ++ newline depth ++ "\x7d"

def prettyItems (depth : Nat) : List Document → String
  | [] => ""
  | item :: items => "," ++ newline depth ++ pretty depth item ++ prettyItems depth items

def prettyFields (depth : Nat) : List (String × Document) → String
  | [] => ""
  | (key, value) :: fields =>
    "," ++ newline depth ++ quote key ++ ": " ++ pretty depth value ++ prettyFields depth fields

end

end Document

end LittleLang
