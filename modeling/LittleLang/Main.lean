import LittleLang.Command.Session

/-!
# The executable

Hands the arguments, the program's file and the standard input to the command, and prints what it
gives.
-/

namespace LittleLang.Command

def Arguments.path? (arguments : Arguments) : Option String :=
  given arguments.emitAst <|> match arguments.source with
    | some _ => none
    | none => given arguments.program

def load (path : String) : IO Directory := do
  try
    return ({} : Directory).write path (← IO.FS.readBinFile path)
  catch
    | .noFileOrDirectory .. => return {}
    | e => throw e

def saveDebug (text : Option String) : IO Unit := do
  match text with
  | some text => IO.FS.writeFile debugFile text
  | none => return

/-- What ends the command without a report, in words. -/
def Crash.message : Crash → String
  | failure e => e.message
  | notText => "the file is no text"
  | isDirectory => "the file is a directory"

def deliver (outcome : Outcome) : IO UInt32 := do
  IO.print outcome.out
  IO.eprint outcome.err
  saveDebug outcome.debug
  match outcome.exit with
  | .code n => return n.toUInt32
  | .crashed cause =>
    IO.eprintln cause.message
    return 1

/-- Reads lines up to the end of the input and runs each on its own. -/
partial def interact (log : Log) : IO UInt32 := do
  IO.print prompt
  (← IO.getStdout).flush
  let line ← (← IO.getStdin).getLine
  if line.isEmpty then
    IO.println ""
    return 0
  let (result, log) := runLine log (String.ofList (line.toList.filter (· != '\n')))
  saveDebug log.fileText
  match result with
  | .ok text =>
    IO.print text
    interact log
  | .error e =>
    IO.eprintln e.message
    return 1

end LittleLang.Command

open LittleLang LittleLang.Command in
def main (texts : List String) : IO UInt32 := do
  match Arguments.parse texts with
  | .error _ => deliver (command texts {} "")
  | .ok arguments =>
    match arguments.path?, arguments.source with
    | some path, _ =>
      if (given arguments.emitAst).isNone then
        saveDebug (Log.start arguments.verbosity true).fileText
      deliver (command texts (← load path) "")
    | none, some _ => deliver (command texts {} "")
    | none, none =>
      let log := Log.start arguments.verbosity true
      saveDebug log.fileText
      interact log
