import SourceIndex.Bytes

/-!
# Reading JSON

Strict JSON: no comments, no trailing commas, no text behind the value, no raw
control characters in strings.  Reading goes in two passes, first into tokens and
then, with the open arrays and objects on a stack, into a value; so neither pass
is nested as deep as its input.

Numbers are only checked, for no reader of this library asks for one.  A string
with an escape that names half of a surrogate pair is well-formed, but it has no
text.
-/

namespace SourceIndex

/-- A JSON value. -/
inductive Json where
  | null
  | bool (value : Bool)
  | number
  /-- The text is missing if the string cannot be written in Unicode. -/
  | string (text : Option String)
  | array (items : List Json)
  | object (members : List (Option String × Json))
  deriving Repr, Inhabited

namespace Json

/-- The marks and words that JSON is made of. -/
inductive Token where
  | openArray
  | closeArray
  | openObject
  | closeObject
  | colon
  | comma
  | scalar (value : Json)
  deriving Repr

/-! ## Tokens -/

/-- The number that four hexadecimal digits spell. -/
def unit? (a b c d : Char) : Option Nat :=
  match Bytes.hexValue? a, Bytes.hexValue? b, Bytes.hexValue? c, Bytes.hexValue? d with
  | some a, some b, some c, some d => some (((a * 16 + b) * 16 + c) * 16 + d)
  | _, _, _, _ => none

/-- Whether a number is the first half of a surrogate pair. -/
def isHighHalf (unit : Nat) : Bool :=
  0xd800 ≤ unit && unit < 0xdc00

/-- Whether a number is the second half of a surrogate pair. -/
def isLowHalf (unit : Nat) : Bool :=
  0xdc00 ≤ unit && unit < 0xe000

/-- The code points of a list of 16-bit units, of which only halves that belong
together may be surrogates. -/
def joinHalves : List Nat → Option (List Char)
  | [] => some []
  | [unit] => if isHighHalf unit || isLowHalf unit then none else some [Char.ofNat unit]
  | high :: low :: rest =>
    if isHighHalf high then
      if isLowHalf low then
        (joinHalves rest).map (Char.ofNat (0x10000 + (high - 0xd800) * 0x400 + (low - 0xdc00)) :: ·)
      else none
    else if isLowHalf high then none
    else (joinHalves (low :: rest)).map (Char.ofNat high :: ·)

/-- What a one-letter escape stands for. -/
def escape? : Char → Option Char
  | '"' => some '"'
  | '\\' => some '\\'
  | '/' => some '/'
  | 'b' => some (Char.ofNat 8)
  | 'f' => some (Char.ofNat 12)
  | 'n' => some '\n'
  | 'r' => some '\r'
  | 't' => some '\t'
  | _ => none

/-- Adds the characters of a run of numbered escapes (last one first) to the
text so far (last character first). -/
def flush (run : List Nat) (text : Option (List Char)) : Option (List Char) :=
  match text, joinHalves run.reverse with
  | some text, some chars => some (chars.reverse ++ text)
  | _, _ => none

/-- Reads a string behind its opening quote.  `run` holds the numbered escapes
that stand directly before the next character. -/
def readString (run : List Nat) (text : Option (List Char)) :
    List Char → Option (Option String × List Char)
  | [] => none
  | '"' :: rest => some ((flush run text).map fun chars => String.ofList chars.reverse, rest)
  | '\\' :: 'u' :: a :: b :: c :: d :: rest =>
    match unit? a b c d with
    | none => none
    | some unit => readString (unit :: run) text rest
  | '\\' :: e :: rest =>
    match escape? e with
    | none => none
    | some c => readString [] ((flush run text).map (c :: ·)) rest
  | c :: rest =>
    if c.toNat < 0x20 || c == '\\' then none
    else readString [] ((flush run text).map (c :: ·)) rest

/-- Takes the digits in front of a text; `none` if there are none. -/
def digits? (chars : List Char) : Option (List Char) :=
  match chars with
  | [] => none
  | c :: _ => if c.isDigit then some (chars.dropWhile Char.isDigit) else none

/-- Takes a whole number without leading zeros. -/
def whole? : List Char → Option (List Char)
  | '0' :: rest =>
    match rest with
    | c :: _ => if c.isDigit then none else some rest
    | [] => some rest
  | chars => digits? chars

/-- Takes the places behind a point, if there is one. -/
def fraction? : List Char → Option (List Char)
  | '.' :: rest => digits? rest
  | chars => some chars

/-- Takes an exponent, if there is one. -/
def exponent? : List Char → Option (List Char)
  | c :: rest =>
    if c == 'e' || c == 'E' then
      match rest with
      | '+' :: rest => digits? rest
      | '-' :: rest => digits? rest
      | rest => digits? rest
    else some (c :: rest)
  | [] => some []

/-- Takes a number. -/
def number? (chars : List Char) : Option (List Char) :=
  let unsigned := match chars with
    | '-' :: rest => rest
    | chars => chars
  ((whole? unsigned).bind fraction?).bind exponent?

/-- Whether a character may stand between tokens. -/
def isBlank (c : Char) : Bool :=
  c == ' ' || c == '\t' || c == '\n' || c == '\r'

/-- The first token of a text that does not start with a blank. -/
def token? : List Char → Option (Token × List Char)
  | '[' :: rest => some (.openArray, rest)
  | ']' :: rest => some (.closeArray, rest)
  | '\x7b' :: rest => some (.openObject, rest)
  | '\x7d' :: rest => some (.closeObject, rest)
  | ':' :: rest => some (.colon, rest)
  | ',' :: rest => some (.comma, rest)
  | 't' :: 'r' :: 'u' :: 'e' :: rest => some (.scalar (.bool true), rest)
  | 'f' :: 'a' :: 'l' :: 's' :: 'e' :: rest => some (.scalar (.bool false), rest)
  | 'n' :: 'u' :: 'l' :: 'l' :: rest => some (.scalar .null, rest)
  | '"' :: rest =>
    (readString [] (some []) rest).map fun (text, rest) => (.scalar (.string text), rest)
  | chars => (number? chars).map fun rest => (.scalar .number, rest)

/-- The tokens of a text, those so far given last first.  A token or a blank is
at least one character, so the length of the text is enough fuel. -/
def tokens (fuel : Nat) (read : List Token) (chars : List Char) : Option (List Token) :=
  match fuel, chars with
  | _, [] => some read.reverse
  | 0, _ :: _ => none
  | fuel + 1, c :: rest =>
    if isBlank c then tokens fuel read rest
    else
      match token? (c :: rest) with
      | none => none
      | some (token, rest) => tokens fuel (token :: read) rest

/-! ## Values -/

/-- An array or object that is still open, what it holds given last first. -/
inductive Frame where
  | array (items : List Json)
  | object (members : List (Option String × Json)) (key : Option String)

/-- What may come next. -/
inductive Expect where
  | value
  /-- A value, or the end of the array that was just opened. -/
  | firstValue
  | key (members : List (Option String × Json))
  /-- A key, or the end of the object that was just opened. -/
  | firstKey
  | colon (members : List (Option String × Json)) (key : Option String)
  /-- A comma or the end of the innermost frame, after a value in it. -/
  | next (done : Json)

/-- Reads a value from tokens. -/
def build (expect : Expect) (stack : List Frame) : List Token → Option Json
  | [] =>
    match expect, stack with
    | .next done, [] => some done
    | _, _ => none
  | token :: rest =>
    match expect, token with
    | .value, .scalar value | .firstValue, .scalar value => build (.next value) stack rest
    | .value, .openArray | .firstValue, .openArray => build .firstValue (.array [] :: stack) rest
    | .value, .openObject | .firstValue, .openObject => build .firstKey stack rest
    | .firstValue, .closeArray =>
      match stack with
      | .array _ :: stack => build (.next (.array [])) stack rest
      | _ => none
    | .firstKey, .closeObject => build (.next (.object [])) stack rest
    | .firstKey, .scalar (.string key) => build (.colon [] key) stack rest
    | .key members, .scalar (.string key) => build (.colon members key) stack rest
    | .colon members key, .colon => build .value (.object members key :: stack) rest
    | .next done, .comma =>
      match stack with
      | .array items :: stack => build .value (.array (done :: items) :: stack) rest
      | .object members key :: stack => build (.key ((key, done) :: members)) stack rest
      | [] => none
    | .next done, .closeArray =>
      match stack with
      | .array items :: stack => build (.next (.array (done :: items).reverse)) stack rest
      | _ => none
    | .next done, .closeObject =>
      match stack with
      | .object members key :: stack =>
        build (.next (.object ((key, done) :: members).reverse)) stack rest
      | _ => none
    | _, _ => none

/-- The value that a text writes. -/
def parse? (text : String) : Option Json :=
  let chars := text.toList
  (tokens chars.length [] chars).bind (build .value [])

/-! ## Looking into values -/

/-- The text of a string. -/
def text? : Json → Option String
  | .string text => text
  | _ => none

/-- The texts of an array of strings. -/
def texts? : Json → Option (List String)
  | .array items => items.mapM text?
  | _ => none

end Json
end SourceIndex
