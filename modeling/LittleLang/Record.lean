import LittleLang.Table
import LittleLang.Text.Padding
import LittleLang.Value

/-!
# Activation records

An activation record holds the variables of one run of a program or of one call of a function. The
records of what is under way are kept on a stack.
-/

namespace LittleLang

open LittleLang.Text

inductive RecordKind where
  | program
  | function
  deriving DecidableEq, Repr

def RecordKind.name : RecordKind → String
  | program => "PROGRAM"
  | function => "FUNCTION"

structure Record where
  kind : RecordKind
  name : String
  /-- How deeply the record is nested; a program that is run on its own is at level 1. -/
  level : Int
  members : Table Value := {}
  deriving Repr

namespace Record

def set (r : Record) (name : String) (v : Value) : Record :=
  { r with members := r.members.insert name v }

def get (r : Record) (name : String) : Except RecordFault Value :=
  match r.members.get? name with
  | some v => .ok v
  | none => .error (.unknownMember name)

def memberText (member : String × Value) : Except NumberFault String := do
  let (name, v) := member
  return "    " ++ padRight 20 name ++ ": " ++ (← v.text) ++ "\n"

/-- The text of a record: a heading, and a line for each variable. -/
def text (r : Record) : Except NumberFault String := do
  let lines ← r.members.entries.mapM memberText
  return s!"{r.level}: {r.kind.name} {r.name}\n" ++ String.join lines

end Record

/-- The records of what is under way, the latest first. -/
abbrev CallStack := List Record

namespace CallStack

/-- The text of a stack: its records, the latest first. -/
def text (stack : CallStack) : Except NumberFault String := do
  return "CALL STACK\n" ++ String.join (← stack.mapM Record.text)

/-- Puts a record on the stack; there has to be one. -/
def push? (stack : CallStack) : Option Record → Except RecordFault CallStack
  | some record => .ok (record :: stack)
  | none => .error .missing

end CallStack

end LittleLang
