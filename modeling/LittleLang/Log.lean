/-!
# The debug log

A log takes messages of different levels and drops those above its own. Above level zero it may
write to a file; otherwise, and once the file is closed, messages are printed. A log at level zero
or below never opens a file.
-/

namespace LittleLang

structure Entry where
  level : Int
  text : String
  deriving DecidableEq, Repr

structure Log where
  level : Int
  /-- What was written to the file, if one was opened. -/
  file : Option (Array Entry) := none
  toFile : Bool := false
  printed : Array Entry := #[]
  deriving Repr

namespace Log

/-- A new log of the given level, with a file if one is wanted. -/
def start (level : Int) (wantsFile : Bool) : Log :=
  if 0 < level && wantsFile then { level, file := some #[], toFile := true } else { level }

def enabled (log : Log) (level : Int) : Bool :=
  level ≤ log.level

/-- Writes a message, unless it is above the level of the log. -/
def write (log : Log) (level : Int) (text : String) : Log :=
  if log.enabled level then
    if log.toFile then { log with file := log.file.map (·.push ⟨level, text⟩) }
    else { log with printed := log.printed.push ⟨level, text⟩ }
  else log

def close (log : Log) : Log :=
  { log with toFile := false }

/-- The text of messages: each on lines of its own. -/
def textOf (entries : Array Entry) : String :=
  entries.foldl (fun text entry => text ++ entry.text ++ "\n") ""

def fileText (log : Log) : Option String :=
  log.file.map textOf

def printedText (log : Log) : String :=
  textOf log.printed

def clearPrinted (log : Log) : Log :=
  { log with printed := #[] }

end Log

end LittleLang
