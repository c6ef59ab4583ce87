import SourceIndex.Command.Index
import SourceIndex.Command.Show
import SourceIndex.Command.Stats

/-!
# The command line

Arguments are read from left to right.  In front of the name of the command stand
switches that belong to the program, behind it those and the command's own.  A
switch is written `--name` or, as one letter, `-n`; letters may stand together.
The value of a switch is joined to it (`--name=value`, `-nvalue`, `-n=value`) or
is the next argument, which then must not look like a switch.  After `--` there
are no more switches.  No switch may be given twice at one place.
-/

namespace SourceIndex

/-- What can be switched on or set. -/
inductive Switch where
  | debug
  | verbose
  | help
  | version
  | project
  | jobs
  | keyStrategy
  | rebuild
  | format
  deriving DecidableEq, Repr

namespace Switch

/-- The letter of a switch. -/
def letter : Switch → Char
  | .debug => 'd'
  | .verbose => 'v'
  | .help => 'h'
  | .version => 'V'
  | .project => 'p'
  | .jobs => 'j'
  | .keyStrategy => 'k'
  | .rebuild => 'r'
  | .format => 'f'

/-- The name of a switch. -/
def name : Switch → String
  | .debug => "debug"
  | .verbose => "verbose"
  | .help => "help"
  | .version => "version"
  | .project => "project"
  | .jobs => "jobs"
  | .keyStrategy => "key-strategy"
  | .rebuild => "rebuild"
  | .format => "format"

/-- Whether a switch has a value. -/
def hasValue : Switch → Bool
  | .project | .jobs | .keyStrategy | .format => true
  | _ => false

/-- What a switch is for. -/
def purpose : Switch → String
  | .debug => "Enable debug logging and unhandled node kind diagnostics"
  | .verbose => "Enable verbose logging"
  | .help => "Print help"
  | .version => "Print version"
  | .project => "Project root (discovered from the working directory by default)"
  | .jobs => "Worker count (0 for available parallelism)"
  | .keyStrategy => "Cache key strategy: path, content"
  | .rebuild => "Drop the existing index first"
  | .format => "Output format: text, json"

end Switch

/-- The commands by name. -/
inductive Verb where
  | index
  | stats
  | show
  | version
  deriving DecidableEq, Repr

namespace Verb

/-- All commands. -/
def all : List Verb := [.index, .stats, .show, .version]

/-- The name of a command. -/
def name : Verb → String
  | .index => "index"
  | .stats => "stats"
  | .show => "show"
  | .version => "version"

/-- The command of a name. -/
def ofName? (name : String) : Option Verb :=
  all.find? fun verb => verb.name == name

/-- What a command is for. -/
def purpose : Verb → String
  | .index => "Index every file of the compilation database"
  | .stats => "Show index statistics"
  | .show => "Print the stored record of one source file"
  | .version => "Print version information, including the AST provider"

/-- The switches that may stand behind a command. -/
def switches : Verb → List Switch
  | .index => [.project, .jobs, .keyStrategy, .rebuild, .debug, .verbose, .help]
  | .stats => [.project, .debug, .verbose, .help]
  | .show => [.project, .format, .debug, .verbose, .help]
  | .version => [.debug, .verbose, .help]

/-- The number of plain arguments of a command. -/
def arity : Verb → Nat
  | .show => 1
  | _ => 0

end Verb

/-- The switches that may stand in front of a command. -/
def programSwitches : List Switch := [.debug, .verbose, .help, .version]

/-! ## Reading arguments -/

/-- Why reading ends before its time. -/
inductive LineStop where
  | invalid
  | help
  | version
  deriving DecidableEq, Repr

/-- What has been given so far. -/
structure Given where
  switches : List (Switch × String) := []
  plain : List String := []
  deriving DecidableEq, Repr

/-- The number that a text of digits spells, a plus sign in front of them or not. -/
def wordOf? (text : String) : Option Nat :=
  let digits := match text.toList with
    | '+' :: rest => rest
    | rest => rest
  if digits.isEmpty || digits.any fun c => !c.isDigit then none
  else
    let number := digits.foldl (fun number c => 10 * number + (c.toNat - '0'.toNat)) 0
    if number < 0x10000000000000000 then some number else none

namespace Given

/-- Whether a switch was given. -/
def has (given : Given) (switch : Switch) : Bool :=
  (given.switches.lookup switch).isSome

/-- The value that was given to a switch. -/
def value? (given : Given) (switch : Switch) : Option String :=
  given.switches.lookup switch

/-- Adds a switch with a value, which is empty if the switch has none. -/
def add (given : Given) (switch : Switch) (value : String) : Except LineStop Given :=
  if given.has switch then .error .invalid
  else if switch = .jobs ∧ wordOf? value = none then .error .invalid
  else .ok { given with switches := given.switches ++ [(switch, value)] }

/-- Switches something on. -/
def turnOn (given : Given) (switch : Switch) : Except LineStop Given :=
  match switch with
  | .help => .error .help
  | .version => .error .version
  | switch => given.add switch ""

/-- Adds a plain argument, of which there is a greatest number. -/
def addPlain (given : Given) (arity : Nat) (argument : String) : Except LineStop Given :=
  if given.plain.length < arity then .ok { given with plain := given.plain ++ [argument] }
  else .error .invalid

end Given

/-- What an argument is, as far as its looks tell. -/
inductive Shape where
  /-- The mark behind which there are no switches. -/
  | divider
  | long (name : List Char) (value : Option String)
  | letters (letters : List Char)
  | plain
  deriving DecidableEq, Repr

/-- The shape of an argument. -/
def Shape.of (argument : String) : Shape :=
  match argument.toList with
  | ['-', '-'] => .divider
  | '-' :: '-' :: rest =>
    match rest.dropWhile (· != '=') with
    | '=' :: value => .long (rest.takeWhile (· != '=')) (some (String.ofList value))
    | _ => .long rest none
  | ['-'] => .plain
  | '-' :: rest => .letters rest
  | _ => .plain

/-- Where reading stands between two arguments. -/
inductive Reading where
  | ready (given : Given)
  /-- The next argument is the value of a switch. -/
  | expecting (switch : Switch) (given : Given)
  /-- There are no more switches. -/
  | plainOnly (given : Given)
  deriving DecidableEq, Repr

namespace Reading

/-- Goes on after an addition. -/
def after : Except LineStop Given → Except LineStop Reading
  | .error stop => .error stop
  | .ok given => .ok (.ready given)

/-- Reads a switch that is written as a name. -/
def readLong (known : List Switch) (given : Given) (name : List Char) (value : Option String) :
    Except LineStop Reading :=
  match known.find? fun switch => switch.name.toList == name with
  | none => .error .invalid
  | some switch =>
    match switch.hasValue, value with
    | true, some value => after (given.add switch value)
    | true, none => .ok (.expecting switch given)
    | false, some _ => .error .invalid
    | false, none => after (given.turnOn switch)

/-- Reads switches that are written as letters. -/
def readLetters (known : List Switch) (given : Given) : List Char → Except LineStop Reading
  | [] => .ok (.ready given)
  | letter :: rest =>
    match known.find? fun switch => switch.letter == letter with
    | none => .error .invalid
    | some switch =>
      if switch.hasValue then
        match rest with
        | [] => .ok (.expecting switch given)
        | '=' :: value => after (given.add switch (String.ofList value))
        | value => after (given.add switch (String.ofList value))
      else
        match given.turnOn switch with
        | .error stop => .error stop
        | .ok given => readLetters known given rest

/-- Reads one argument of a command. -/
def read (known : List Switch) (arity : Nat) (reading : Reading) (argument : String) :
    Except LineStop Reading :=
  match reading, Shape.of argument with
  | .ready given, .divider => .ok (.plainOnly given)
  | .ready given, .long name value => readLong known given name value
  | .ready given, .letters letters => readLetters known given letters
  | .ready given, .plain => after (given.addPlain arity argument)
  | .expecting switch given, .plain => after (given.add switch argument)
  | .expecting _ _, _ => .error .invalid
  | .plainOnly given, _ =>
    match given.addPlain arity argument with
    | .error stop => .error stop
    | .ok given => .ok (.plainOnly given)

/-- What has been given when there are no more arguments. -/
def close : Reading → Except LineStop Given
  | .ready given | .plainOnly given => .ok given
  | .expecting _ _ => .error .invalid

/-- Reads the arguments of a command. -/
def readAll (known : List Switch) (arity : Nat) (reading : Reading) :
    List String → Except LineStop Given
  | [] => reading.close
  | argument :: rest =>
    match reading.read known arity argument with
    | .error stop => .error stop
    | .ok reading => reading.readAll known arity rest

end Reading

/-! ## Requests -/

/-- What the program is asked to do. -/
inductive Request where
  | index (request : IndexRequest)
  | stats (project : Option String)
  | show (request : ShowRequest)
  | version
  deriving DecidableEq, Repr

/-- The request of a command with what was given behind it.  `debug` says whether
that switch was given in front of the command. -/
def Request.of? (debug : Bool) (verb : Verb) (given : Given) : Option Request :=
  match verb, given.plain with
  | .index, _ =>
    some (.index
      { project := given.value? .project
        jobs := (given.value? .jobs).bind wordOf?
        keyStrategy := given.value? .keyStrategy
        rebuild := given.has .rebuild
        diagnostics := debug || given.has .debug })
  | .stats, _ => some (.stats (given.value? .project))
  | .show, [file] =>
    some (.show
      { file
        project := given.value? .project
        format := (given.value? .format).getD "text" })
  | .show, _ => none
  | .version, _ => some .version

/-- What a command line asks for. -/
inductive Invocation where
  | run (request : Request)
  | help (verb : Option Verb)
  | version
  | invalid
  deriving DecidableEq, Repr

/-- The end of reading that a stop asks for. -/
def LineStop.invocation (verb : Option Verb) : LineStop → Invocation
  | .invalid => .invalid
  | .help => .help verb
  | .version => .version

namespace Invocation

/-- Reads what stands behind a command. -/
def ofVerb (debug : Bool) (verb : Verb) (arguments : List String) : Invocation :=
  match Reading.readAll verb.switches verb.arity (.ready {}) arguments with
  | .error stop => stop.invocation (some verb)
  | .ok given =>
    match Request.of? debug verb given with
    | none => .invalid
    | some request => .run request

/-- Reads what stands behind the word that asks for help. -/
def ofHelp : List String → Invocation
  | [] => .help none
  | ["help"] => .help none
  | [name] =>
    match Verb.ofName? name with
    | none => .invalid
    | some verb => .help (some verb)
  | _ => .invalid

/-- Reads arguments from the first one on. -/
def ofArguments (given : Given) : List String → Invocation
  | [] => .invalid
  | argument :: rest =>
    let goOn (reading : Except LineStop Reading) : Invocation :=
      match reading with
      | .error stop => stop.invocation none
      | .ok (.ready given) => ofArguments given rest
      | .ok _ => .invalid
    match Shape.of argument with
    | .divider => .invalid
    | .long name value => goOn (Reading.readLong programSwitches given name value)
    | .letters letters => goOn (Reading.readLetters programSwitches given letters)
    | .plain =>
      if argument == "help" then ofHelp rest
      else
        match Verb.ofName? argument with
        | none => .invalid
        | some verb => ofVerb (given.has .debug) verb rest

end Invocation

/-! ## Help -/

/-- The line about a switch. -/
def Switch.helpLine (switch : Switch) : String :=
  "  -" ++ switch.letter.toString ++ ", --" ++ switch.name ++
    (if switch.hasValue then " <" ++ switch.name.toUpper ++ ">" else "") ++ "  " ++ switch.purpose

/-- The help on a command. -/
def Verb.help (verb : Verb) : String :=
  textOfLines (
    [verb.purpose, "", "Usage: cxxgraph " ++ verb.name ++ " [OPTIONS]" ++
      (if verb.arity = 0 then "" else " <FILE>"), "", "Options:"] ++
    verb.switches.map Switch.helpLine)

/-- The help on the program. -/
def programHelp : String :=
  textOfLines (
    ["Cached symbol index for C and C++ projects", "", "Usage: cxxgraph [OPTIONS] <COMMAND>", "",
     "Commands:"] ++
    (Verb.all.map fun verb => "  " ++ verb.name ++ "  " ++ verb.purpose) ++
    ["", "Options:"] ++ programSwitches.map Switch.helpLine)

/-! ## Running -/

/-- What a run of the program leaves behind. -/
structure Finished where
  status : Nat
  out : String := ""
  err : String := ""
  files : FileTree

/-- The text about a failure: what failed, and the causes behind it, with numbers
if there are several. -/
def failureText : List String → String
  | [] => "Error: \n"
  | [what] => "Error: " ++ what ++ "\n"
  | [what, cause] => "Error: " ++ what ++ "\n\nCaused by:\n    " ++ cause ++ "\n"
  | what :: causes =>
    "Error: " ++ what ++ "\n\nCaused by:\n" ++
      String.join (causes.mapIdx fun i cause => "    " ++ toString i ++ ": " ++ cause ++ "\n")

/-- The end of a run in which a command printed. -/
def Printed.finish (printed : Printed) : Finished :=
  let (status, err) : Nat × String := match printed.result with
    | .done () => (0, "")
    | .failed fault => (1, failureText fault.chain)
    | .crashed => (101, "")
  { status, err, out := printed.out, files := printed.files }

/-- Does what is asked for. -/
def Request.perform (around : Surroundings) (files : FileTree) : Request → Printed
  | .index request => indexProject around files request
  | .stats project => showStats around files project
  | .show request => showRecord files request
  | .version =>
    .done (textOfLines ["cxxgraph " ++ programVersion, "AST provider: " ++ parserVersion]) files

/-- Runs the program with arguments. -/
def runProgram (around : Surroundings) (files : FileTree) (arguments : List String) : Finished :=
  match Invocation.ofArguments {} arguments with
  | .run request => (request.perform around files).finish
  | .help none => { status := 0, out := programHelp, files }
  | .help (some verb) => { status := 0, out := verb.help, files }
  | .version => { status := 0, out := "cxxgraph " ++ programVersion ++ "\n", files }
  | .invalid => { status := 2, files }

end SourceIndex
