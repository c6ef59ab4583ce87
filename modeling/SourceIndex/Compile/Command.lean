import SourceIndex.Flag
import SourceIndex.Path
import SourceIndex.Text.Json
import SourceIndex.Text.ShellWords

/-!
# Compile commands

A compilation database lists how files are compiled.  This module reads one entry
and brings it into normal form: the file and all include directories are made
absolute, and what only concerns the output or names the file itself is dropped.
-/

namespace SourceIndex

/-- How one file is compiled: its path, and the flags that matter for reading it. -/
structure CompileCommand where
  file : String
  arguments : List String
  deriving DecidableEq, Repr

/-- An entry of a compilation database. -/
structure RawCommand where
  directory : String
  file : String
  arguments : Option (List String) := none
  command : Option String := none
  deriving DecidableEq, Repr

namespace RawCommand

/-- A list of arguments that may be missing. -/
def argumentsOf? : Json → Option (Option (List String))
  | .null => some none
  | value => value.texts?.map some

/-- A command line that may be missing. -/
def commandOf? : Json → Option (Option String)
  | .null => some none
  | value => value.text?.map some

/-- The values found so far for the four members of an entry. -/
structure Slots where
  directory : Option Json := none
  file : Option Json := none
  arguments : Option Json := none
  command : Option Json := none

/-- Puts a member into its slot.  A member of another name is passed over, one
that comes twice is refused. -/
def Slots.add (slots : Slots) (name : String) (value : Json) : Option Slots :=
  match name with
  | "directory" =>
    if slots.directory.isNone then some { slots with directory := some value } else none
  | "file" => if slots.file.isNone then some { slots with file := some value } else none
  | "arguments" =>
    if slots.arguments.isNone then some { slots with arguments := some value } else none
  | "command" => if slots.command.isNone then some { slots with command := some value } else none
  | _ => some slots

/-- Puts the members of an object into their slots. -/
def Slots.addAll (slots : Slots) : List (Option String × Json) → Option Slots
  | [] => some slots
  | (none, _) :: _ => none
  | (some name, value) :: rest =>
    match slots.add name value with
    | none => none
    | some slots => slots.addAll rest

/-- The entry with these members, of which two may be missing. -/
def ofSlots? (slots : Slots) : Option RawCommand := do
  let directory ← (← slots.directory).text?
  let file ← (← slots.file).text?
  let arguments ← argumentsOf? (slots.arguments.getD .null)
  let command ← commandOf? (slots.command.getD .null)
  return { directory, file, arguments, command }

/-- The entry that a JSON value describes: an object, or an array of the members
in order. -/
def ofJson? : Json → Option RawCommand
  | .object members => (Slots.addAll {} members).bind ofSlots?
  | .array [directory, file] => ofSlots? { directory, file }
  | .array [directory, file, arguments] => ofSlots? { directory, file, arguments }
  | .array [directory, file, arguments, command] =>
    ofSlots? { directory, file, arguments, command }
  | _ => none

/-- The words of the command, the compiler first; none if they are not given or
not properly quoted. -/
def words? (entry : RawCommand) : Option (List String) :=
  match entry.arguments, entry.command with
  | some arguments, _ => some arguments
  | none, some command => ShellWords.split command
  | none, none => none

/-- Flags that start with `-o` and do not name an output. -/
def outputLookalikes : List String := ["-obj"]

/-- Whether an argument is `-o` with the name of the output joined to it. -/
def isJoinedOutput (argument : String) : Bool :=
  2 < argument.utf8ByteSize && Flag.startsWith "-o" argument &&
    !outputLookalikes.any fun start => Flag.startsWith start argument

/-- An argument with the directory that may be joined to it made absolute. -/
def absolutizeJoined (directory argument : String) : String :=
  match Flag.includeFlag? argument with
  | some (flag, _, joined) =>
    if joined == "" then argument else flag ++ Path.absolutize directory joined
  | none => argument

/-- The arguments of a command in normal form. -/
def normalizeArguments (directory file : String) : List String → List String
  | [] => []
  | argument :: rest =>
    if argument == "-c" then normalizeArguments directory file rest
    else if argument == "-o" then
      match rest with
      | [] => []
      | _ :: rest => normalizeArguments directory file rest
    else if argument == "-I" || argument == "-iquote" || argument == "-isystem" then
      match rest with
      | [] => [argument]
      | dir :: rest =>
        argument :: Path.absolutize directory dir :: normalizeArguments directory file rest
    else if isJoinedOutput argument then normalizeArguments directory file rest
    else if !Flag.startsWith "-" argument && Path.absolutize directory argument == file then
      normalizeArguments directory file rest
    else absolutizeJoined directory argument :: normalizeArguments directory file rest

/-- An entry in normal form; none if it does not say how the file is compiled. -/
def normalize? (entry : RawCommand) : Option CompileCommand :=
  let file := Path.absolutize entry.directory entry.file
  entry.words?.map fun words =>
    { file, arguments := normalizeArguments entry.directory file (words.drop 1) }

end RawCommand
end SourceIndex
