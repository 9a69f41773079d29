import LittleLang.Command.Arguments
import LittleLang.Command.Directory
import LittleLang.Node.Outline
import LittleLang.Run

/-!
# The command

`command` is what the command does with its arguments, a directory and its standard input: what it
prints, how it ends, and what it leaves in the debug file. With a program it runs that; without one
it reads lines and runs each on its own.
-/

namespace LittleLang.Command

open LittleLang.Text

/-! ## Outcomes -/

/-- What ends the command without a report. -/
inductive Crash where
  | failure (e : Failure)
  | notText
  | isDirectory

inductive Exit where
  | code (n : Nat)
  | crashed (cause : Crash)

/-- What the command prints, how it ends, and the text of the debug file if it made one. -/
structure Outcome where
  exit : Exit := .code 0
  out : String := ""
  err : String := ""
  debug : Option String := none

def debugFile : String := "debug.txt"

/-! ## Running a text -/

inductive Shown where
  | nothing
  | text (text : String)
  | report (text : String)
  | crash (e : Failure)

def report (e : Failure) : String :=
  s!"Error: {e.message}"

def shown : Except Failure Value → Shown
  | .error e => if e.isReported then .report (report e) else .crash e
  | .ok .none => .nothing
  | .ok v => match v.text with
    | .ok text => .text text
    | .error e => .crash (.number e)

def runSource (log : Log) (source : String) : Outcome :=
  let (result, log) := run log source
  let debug := log.fileText
  match shown result with
  | .nothing => { debug }
  | .text text => { out := text ++ "\n", debug }
  | .report text => { exit := .code 1, err := text ++ "\n", debug }
  | .crash e => { exit := .crashed (.failure e), debug }

/-! ## The read loop -/

def prompt : String := "$ "

/-- What one line prints, unless it ends the loop. -/
def runLine (log : Log) (line : String) : Except Failure String × Log :=
  if isBlankText line then (.ok "", log)
  else
    let (result, log) := run log line
    match shown result with
    | .nothing => (.ok "", log)
    | .text text | .report text => (.ok (text ++ "\n"), log)
    | .crash e => (.error e, log)

/-- Reads lines up to the end of the input. -/
def readLoop (log : Log) (printed : String) : List String → Outcome
  | [] => { out := printed ++ prompt ++ "\n", debug := log.fileText }
  | line :: rest => match runLine log line with
    | (.ok text, log) => readLoop log (printed ++ prompt ++ text) rest
    | (.error e, log) =>
      { exit := .crashed (.failure e), out := printed ++ prompt, debug := log.fileText }

/-- The lines of a text; what follows the last line feed is a line if it is not empty. -/
def lines (text : String) : List String :=
  let parts := text.splitOn "\n"
  if parts.getLast? = some "" then parts.dropLast else parts

/-! ## Programs in files -/

def withProgram (d : Directory) (path : String) (next : String → Outcome) : Outcome :=
  match d.find path with
  | .absent => { exit := .code 1, err := s!"Error: file {normalize path} not found\n" }
  | .directory => { exit := .crashed .isDirectory }
  | .file content => match decodeText content with
    | none => { exit := .crashed .notText }
    | some text => next text

/-- Prints the tree of a text. Nesting that is too deep is not reported here. -/
def emitAst (source : String) : Outcome :=
  match parse source with
  | .error .tooDeep => { exit := .crashed (.failure .tooDeep) }
  | .error e => { exit := .code 1, err := report e ++ "\n" }
  | .ok tree => match tree.outline with
    | .error e => { exit := .crashed (.failure e) }
    | .ok document => { out := document.pretty 0 ++ "\n" }

/-! ## The command -/

/-- An option or argument that is given and not empty. -/
def given (text : Option String) : Option String :=
  text.filter (· != "")

def runWithLog (arguments : Arguments) (d : Directory) (input : String) (log : Log) : Outcome :=
  match arguments.source, given arguments.program with
  | some source, _ => runSource log source
  | none, some path =>
    let outcome := withProgram d path (runSource log)
    { outcome with debug := outcome.debug <|> log.fileText }
  | none, none => readLoop log "" (lines input)

/-- Carries out the command. The debug file is made before the program is read. -/
def carryOut (arguments : Arguments) (d : Directory) (input : String) : Outcome :=
  match given arguments.emitAst with
  | some path => withProgram d path emitAst
  | none =>
    let log := Log.start arguments.verbosity true
    match log.file, d.find debugFile with
    | none, _ => runWithLog arguments d input log
    | some _, .directory => { exit := .crashed .isDirectory }
    | some _, _ => runWithLog arguments (d.write debugFile .empty) input log

def command (texts : List String) (d : Directory) (input : String) : Outcome :=
  match Arguments.parse texts with
  | .error .helpWanted => { out := helpText }
  | .error (.usage e) => { exit := .code 2, err := usageReport e }
  | .ok arguments => carryOut arguments d input

/-- The text of the debug file after the command: what the command wrote, or what was there. -/
def debugText (d : Directory) (outcome : Outcome) : Option String :=
  outcome.debug <|> match d.find debugFile with
    | .file content => String.fromUTF8? content
    | _ => none

end LittleLang.Command
