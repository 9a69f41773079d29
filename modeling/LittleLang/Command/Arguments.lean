import LittleLang.Text.DecimalDigit
import LittleLang.Text.Quoted

/-!
# Command line arguments

`Arguments.parse` reads the arguments of the command: options in any order, and at most one program.
Options of one letter can be written together (`-vvc TEXT`), with their value (`-cTEXT`, `-c=TEXT`);
the beginning of a long option is enough if it fits one option only; after `--` nothing is an
option. The equals sign ends the name of the option that an argument starts with: in `-v=v` it
stands between two options, and in `-vc=TEXT` it belongs to the value.
-/

namespace LittleLang.Command

open LittleLang.Text

/-! ## Options -/

inductive Flag where
  | help
  | verbose
  | emitAst
  | source
  deriving DecidableEq, Repr

def flagNames : List (String × Flag) :=
  [("-h", .help), ("--help", .help), ("-v", .verbose), ("--emit-ast", .emitAst), ("-c", .source)]

namespace Flag

/-- All spellings of an option. -/
def title (flag : Flag) : String :=
  "/".intercalate ((flagNames.filter (·.2 = flag)).map Prod.fst)

def takesValue : Flag → Bool
  | emitAst | source => true
  | help | verbose => false

end Flag

/-! ## Errors -/

inductive UsageError where
  | valueExpected (flag : Flag)
  | valueIgnored (flag : Flag) (value : String)
  | notAllowed (flag other : Flag)
  | ambiguous (text : String) (candidates : List String)
  | unrecognized (texts : List String)
  deriving DecidableEq, Repr

def UsageError.message : UsageError → String
  | valueExpected flag => s!"argument {flag.title}: expected one argument"
  | valueIgnored flag value => s!"argument {flag.title}: ignored explicit argument {quoted value}"
  | notAllowed flag other => s!"argument {flag.title}: not allowed with argument {other.title}"
  | ambiguous text candidates =>
    s!"ambiguous option: {text} could match " ++ ", ".intercalate candidates
  | unrecognized texts => "unrecognized arguments: " ++ " ".intercalate texts

/-! ## Pieces -/

/-- An argument by its form. -/
inductive Piece where
  | plain (text : String)
  /-- The argument `--`. -/
  | separator
  /-- An option, with what is written in one piece with it. -/
  | option (flag : Flag) (name : String) (attached : Option String)
  /-- It looks like an option, but there is none of this name. -/
  | unknown (text : String)
  deriving DecidableEq, Repr

namespace Piece

def isOption : Piece → Bool
  | option .. | unknown _ => true
  | plain _ | separator => false

/-- The text of a piece that has not the form of an option. -/
def text : Piece → String
  | plain text | unknown text => text
  | separator => "--"
  | option _ name _ => name

/-- A text up to its first equals sign, and what follows that. -/
def splitAssigned (text : String) : String × Option String :=
  let cs := text.toList
  let name := cs.takeWhile (· != '=')
  match cs.drop name.length with
  | [] => (text, none)
  | _ :: value => (String.ofList name, some (String.ofList value))

/-- Decimal digits of any script, and at least one. -/
def isDigits (cs : List Char) : Bool :=
  !cs.isEmpty && cs.all fun c => (digitValue? c).isSome

/-- A negative number, with or without a fraction. A line feed may end it. -/
def isNegativeNumber (text : String) : Bool :=
  match text.toList with
  | '-' :: cs =>
    let cs := if cs.getLast? = some '\n' then cs.dropLast else cs
    match cs.dropWhile fun c => (digitValue? c).isSome with
    | [] => isDigits cs
    | '.' :: fraction => isDigits fraction
    | _ => false
  | _ => false

/-- The options that a text which is no option's full name may mean. -/
def candidates (text : String) : List (Flag × String × Option String) :=
  match text.toList with
  | '-' :: '-' :: _ =>
    let (name, attached) := splitAssigned text
    (flagNames.filter (name.toList.isPrefixOf ·.1.toList)).map fun (full, flag) =>
      (flag, full, attached)
  | '-' :: letter :: rest =>
    let name := String.ofList ['-', letter]
    (flagNames.filter (·.1 = name)).map fun (full, flag) =>
      (flag, full, some (String.ofList rest))
  | _ => []

/-- The form of an argument that starts with a dash and is longer than it, and is no full name of an
option. -/
def ofDashed (text : String) : Except UsageError Piece :=
  match splitAssigned text with
  | (name, some value) => match flagNames.lookup name with
    | some flag => .ok (.option flag name (some value))
    | none => guess
  | _ => guess
where
  /-- The form of an argument that does not start with the full name of a long option. -/
  guess : Except UsageError Piece := match candidates text with
    | [(flag, name, attached)] => .ok (.option flag name attached)
    | [] =>
      if isNegativeNumber text || text.contains ' ' then .ok (.plain text) else .ok (.unknown text)
    | several => .error (.ambiguous text (several.map fun (_, name, _) => name))

def ofArgument (text : String) : Except UsageError Piece :=
  match flagNames.lookup text with
  | some flag => .ok (.option flag text none)
  | none => match text.toList with
    | '-' :: _ :: _ => ofDashed text
    | _ => .ok (.plain text)

/-- The forms of all arguments; after the separator all are plain. -/
def ofArguments : List String → Except UsageError (List Piece)
  | [] => .ok []
  | text :: rest =>
    if text = "--" then .ok (.separator :: rest.map .plain)
    else do return (← ofArgument text) :: (← ofArguments rest)

end Piece

/-! ## Reading options -/

structure Request where
  settings : List (Flag × Option String)
  rest : List Piece

/-- The value that is written in one piece with an option; the separator stands for an empty one. -/
def attachedValue (text : String) : String :=
  if text = "--" then "" else text

/-- The next option in a row of letters, with what is written after it. -/
def nextInRow? (row : String) : Option (Flag × String × Option String) :=
  match row.toList with
  | [] => none
  | letter :: letters =>
    let name := String.ofList ['-', letter]
    (flagNames.lookup name).map fun flag =>
      (flag, name, if letters.isEmpty then none else some (String.ofList letters))

/-- Reads an option and those written together with it. Each round takes a letter. Only an option of
one letter that takes no value can have others after it. -/
def readRow : Nat → Flag → String → Option String → List Piece → Except UsageError Request
  | 0, flag, _, _, rest => .ok ⟨[(flag, none)], rest⟩
  | rounds + 1, flag, name, attached, rest =>
    match flag.takesValue, attached with
    | false, none => .ok ⟨[(flag, none)], rest⟩
    | false, some text =>
      match if "--".isPrefixOf name then none else nextInRow? text with
      | none => .error (.valueIgnored flag text)
      | some (other, next, attached) => do
        let request ← readRow rounds other next attached rest
        return { request with settings := (flag, none) :: request.settings }
    | true, some text => .ok ⟨[(flag, some (attachedValue text))], rest⟩
    | true, none => match rest with
      | .plain value :: rest => .ok ⟨[(flag, some value)], rest⟩
      | _ => .error (.valueExpected flag)

def readOption (flag : Flag) (name : String) (attached : Option String) (rest : List Piece) :
    Except UsageError Request :=
  readRow ((attached.getD "").length + 1) flag name attached rest

/-! ## Arguments -/

structure Arguments where
  verbosity : Nat := 0
  emitAst : Option String := none
  source : Option String := none
  program : Option String := none
  deriving DecidableEq, Repr

inductive Interruption where
  | helpWanted
  | usage (error : UsageError)
  deriving DecidableEq, Repr

namespace Arguments

def set (arguments : Arguments) : Flag × Option String → Except Interruption Arguments
  | (.help, _) => .error .helpWanted
  | (.verbose, _) => .ok { arguments with verbosity := arguments.verbosity + 1 }
  | (.emitAst, value) =>
    if arguments.source.isSome then .error (.usage (.notAllowed .emitAst .source))
    else .ok { arguments with emitAst := value }
  | (.source, value) =>
    if arguments.emitAst.isSome then .error (.usage (.notAllowed .source .emitAst))
    else .ok { arguments with source := value }

/-- Takes the pieces after the last option. The first of them is the program, unless there is one;
the separator is left out next to it. -/
def finish (arguments : Arguments) (pieces : List Piece) : Arguments × List String :=
  match arguments.program, pieces with
  | some _, pieces => (arguments, pieces.map Piece.text)
  | none, .plain text :: .separator :: rest | none, .separator :: .plain text :: rest
  | none, .plain text :: rest => ({ arguments with program := text }, rest.map Piece.text)
  | none, .separator :: rest => (arguments, rest.map Piece.text)
  | none, pieces => (arguments, pieces.map Piece.text)

/-- Takes all pieces, each round one at least, and gathers those that have no place. -/
def take : Nat → Arguments → List String → List Piece →
    Except Interruption (Arguments × List String)
  | 0, arguments, extras, _ => .ok (arguments, extras)
  | rounds + 1, arguments, extras, pieces =>
    if !pieces.any Piece.isOption then
      let (arguments, more) := arguments.finish pieces
      .ok (arguments, extras ++ more)
    else match pieces with
    | .option flag name attached :: rest =>
      match readOption flag name attached rest with
      | .error e => .error (.usage e)
      | .ok request => do
        let arguments ← request.settings.foldlM set arguments
        take rounds arguments extras request.rest
    | .plain text :: rest =>
      if arguments.program.isNone then take rounds { arguments with program := text } extras rest
      else take rounds arguments (extras ++ [text]) rest
    | piece :: rest => take rounds arguments (extras ++ [piece.text]) rest
    | [] => .ok (arguments, extras)

def parse (texts : List String) : Except Interruption Arguments :=
  match Piece.ofArguments texts with
  | .error e => .error (.usage e)
  | .ok pieces => match take (pieces.length + 1) {} [] pieces with
    | .error e => .error e
    | .ok (arguments, []) => .ok arguments
    | .ok (_, extras) => .error (.usage (.unrecognized extras))

end Arguments

/-! ## Texts -/

def usageText : String :=
  "usage: sprig [-h] [-v] [--emit-ast SPRIG_FILE | -c SOURCE] [program]\n"

def helpText : String :=
  usageText ++
  "\n" ++
  "sprig language interpreter\n" ++
  "\n" ++
  "positional arguments:\n" ++
  "  program               sprig program file (.sprig) to execute\n" ++
  "\n" ++
  "options:\n" ++
  "  -h, --help            show this help message and exit\n" ++
  "  -v                    increase debug verbosity (can be repeated)\n" ++
  "  --emit-ast SPRIG_FILE\n" ++
  "                        print the AST of the given .sprig file as JSON\n" ++
  "  -c SOURCE             run the given source text\n"

def usageReport (error : UsageError) : String :=
  usageText ++ s!"sprig: error: {error.message}\n"

end LittleLang.Command
