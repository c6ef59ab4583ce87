/-!
# Shell words

Splits a command line into words the way a shell does, without expansions.
Blanks, tabs and line ends separate words; `#` where a word could start begins a
comment; single quotes keep everything, double quotes keep everything but a
backslash before `$`, a backquote, `"`, a backslash or a line end; outside of
quotes a backslash keeps the next character.  A backslash and a line end vanish
together, but they do start a word.
-/

namespace SourceIndex
namespace ShellWords

/-- Where the splitter is.  The word being read is given in reverse. -/
inductive Mode where
  | between
  | comment
  | word (current : List Char)
  | escaped (current : List Char)
  | single (current : List Char)
  | double (current : List Char)
  | doubleEscaped (current : List Char)
  deriving DecidableEq, Repr

/-- Whether a character separates words. -/
def isSeparator (c : Char) : Bool :=
  c == ' ' || c == '\t' || c == '\n'

/-- One character inside of a word; `none` if it ends the word. -/
def wordStep (current : List Char) (c : Char) : Option Mode :=
  if c == '"' then some (.double current)
  else if c == '\'' then some (.single current)
  else if c == '\\' then some (.escaped current)
  else if isSeparator c then none
  else some (.word (c :: current))

/-- A word from its characters in reverse. -/
def finishWord (current : List Char) : String :=
  String.ofList current.reverse

/-- Whether a backslash inside of double quotes is taken away before `c`. -/
def isDoubleEscape (c : Char) : Bool :=
  c == '$' || c == Char.ofNat 0x60 || c == '"' || c == '\\'

/-- Splits the rest of a text; the words so far are given last first.  There is
no answer if a quote is not closed or a backslash is last. -/
def splitFrom (mode : Mode) (words : List String) : List Char → Option (List String)
  | [] =>
    match mode with
    | .between | .comment => some words.reverse
    | .word current => some (finishWord current :: words).reverse
    | _ => none
  | c :: rest =>
    match mode with
    | .between =>
      if isSeparator c then splitFrom .between words rest
      else if c == '#' then splitFrom .comment words rest
      else
        match wordStep [] c with
        | some mode => splitFrom mode words rest
        | none => splitFrom .between words rest
    | .comment => splitFrom (if c == '\n' then .between else .comment) words rest
    | .word current =>
      match wordStep current c with
      | some mode => splitFrom mode words rest
      | none => splitFrom .between (finishWord current :: words) rest
    | .escaped current =>
      splitFrom (.word (if c == '\n' then current else c :: current)) words rest
    | .single current =>
      splitFrom (if c == '\'' then .word current else .single (c :: current)) words rest
    | .double current =>
      if c == '"' then splitFrom (.word current) words rest
      else if c == '\\' then splitFrom (.doubleEscaped current) words rest
      else splitFrom (.double (c :: current)) words rest
    | .doubleEscaped current =>
      if isDoubleEscape c then splitFrom (.double (c :: current)) words rest
      else if c == '\n' then splitFrom (.double current) words rest
      else splitFrom (.double (c :: '\\' :: current)) words rest

/-- The words of a command line. -/
def split (text : String) : Option (List String) :=
  splitFrom .between [] text.toList

end ShellWords
end SourceIndex
