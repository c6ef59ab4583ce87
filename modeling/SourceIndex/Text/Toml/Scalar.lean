import SourceIndex.Bytes
import SourceIndex.Text.Toml.Value

/-!
# Strings, numbers and dates of TOML

Readers of single values.  A reader returns what it read and the characters
behind it.  What may follow a value is the affair of whoever reads the line.
-/

namespace SourceIndex
namespace Toml

/-- A reader of characters. -/
abbrev Reader (α : Type) := List Char → Option (α × List Char)

/-- Whether a character is a blank. -/
def isBlank (c : Char) : Bool :=
  c == ' ' || c == '\t'

/-- Whether a character may stand in comments and strings. -/
def isPrintable (c : Char) : Bool :=
  c == '\t' || (' ' ≤ c && c ≤ '~') || 0x80 ≤ c.toNat

/-- Drops blanks. -/
def skipBlanks (chars : List Char) : List Char :=
  chars.dropWhile isBlank

/-- The characters behind a line end. -/
def lineEnd? : List Char → Option (List Char)
  | '\n' :: rest => some rest
  | '\r' :: '\n' :: rest => some rest
  | _ => none

/-- Drops blanks and line ends. -/
def skipLines : List Char → List Char
  | ' ' :: rest => skipLines rest
  | '\t' :: rest => skipLines rest
  | '\n' :: rest => skipLines rest
  | '\r' :: '\n' :: rest => skipLines rest
  | chars => chars

/-! ## Strings -/

/-- The number that hexadecimal digits spell. -/
def hexNumber? (digits : List Char) : Option Nat :=
  digits.foldl (fun value c =>
    match value, Bytes.hexValue? c with
    | some value, some digit => some (value * 16 + digit)
    | _, _ => none) (some 0)

/-- The character with a number, unless the number is half of a surrogate pair or
too large. -/
def scalar? (number : Nat) : Option Char :=
  if number < 0xd800 || (0xe000 ≤ number && number < 0x110000) then some (Char.ofNat number)
  else none

/-- What an escape stands for, read behind its backslash. -/
def escape? : List Char → Option (Char × List Char)
  | 'b' :: rest => some (Char.ofNat 8, rest)
  | 't' :: rest => some ('\t', rest)
  | 'n' :: rest => some ('\n', rest)
  | 'f' :: rest => some (Char.ofNat 12, rest)
  | 'r' :: rest => some ('\r', rest)
  | '"' :: rest => some ('"', rest)
  | '\\' :: rest => some ('\\', rest)
  | 'u' :: a :: b :: c :: d :: rest =>
    ((hexNumber? [a, b, c, d]).bind scalar?).map fun c => (c, rest)
  | 'U' :: a :: b :: c :: d :: e :: f :: g :: h :: rest =>
    ((hexNumber? [a, b, c, d, e, f, g, h]).bind scalar?).map fun c => (c, rest)
  | _ => none

/-- Reads a string in double quotes behind the opening quote.  Each step takes at
least one character, so the length of the input is enough fuel. -/
def basicString (fuel : Nat) (read : List Char) (chars : List Char) :
    Option (List Char × List Char) :=
  match fuel, chars with
  | _, '"' :: rest => some (read.reverse, rest)
  | fuel + 1, '\\' :: rest =>
    match escape? rest with
    | none => none
    | some (c, rest) => basicString fuel (c :: read) rest
  | fuel + 1, c :: rest => if isPrintable c then basicString fuel (c :: read) rest else none
  | _, _ => none

/-- Reads a string in single quotes behind the opening quote. -/
def literalString (read : List Char) : List Char → Option (List Char × List Char)
  | [] => none
  | '\'' :: rest => some (read.reverse, rest)
  | c :: rest => if isPrintable c then literalString (c :: read) rest else none

/-- Reads a run of quotes inside of a string in triple quotes: up to two belong
to the string, three end it, and two more may stand before those.  The answer is
the number of quotes that belong to the string, and whether it ended. -/
def quoteRun (quote : Char) (chars : List Char) : Nat × Bool × List Char :=
  let run := (chars.takeWhile (· == quote)).length
  if run < 3 then (run, false, chars.drop run)
  else (min (run - 3) 2, true, chars.drop (min run 5))

/-- Reads a string in triple quotes behind the opening quotes.  Escapes count in
double quotes only. -/
def longString (quote : Char) (fuel : Nat) (read : List Char) (chars : List Char) :
    Option (List Char × List Char) :=
  match fuel, chars with
  | 0, _ => none
  | _ + 1, [] => none
  | fuel + 1, c :: rest =>
    if c == quote then
      let (count, ended, rest) := quoteRun quote (c :: rest)
      let read := List.replicate count quote ++ read
      if ended then some (read.reverse, rest) else longString quote fuel read rest
    else
      match lineEnd? (c :: rest) with
      | some rest => longString quote fuel ('\n' :: read) rest
      | none =>
        if c == '\\' && quote == '"' then
          match escape? rest with
          | some (c, rest) => longString quote fuel (c :: read) rest
          | none =>
            match lineEnd? (skipBlanks rest) with
            | some rest => longString quote fuel read (skipLines rest)
            | none => none
        else if isPrintable c then longString quote fuel (c :: read) rest
        else none

/-- Reads a string in triple quotes; a line end directly behind the opening
quotes does not count. -/
def openLongString (quote : Char) (chars : List Char) : Option (List Char × List Char) :=
  let body := (lineEnd? chars).getD chars
  longString quote (body.length + 1) [] body

/-- Reads a string of one line. -/
def shortString? : Reader String
  | '"' :: rest => (basicString rest.length [] rest).map fun (c, rest) => (String.ofList c, rest)
  | '\'' :: rest => (literalString [] rest).map fun (c, rest) => (String.ofList c, rest)
  | _ => none

/-- Reads any string. -/
def string? : Reader String
  | '"' :: '"' :: '"' :: rest => (openLongString '"' rest).map fun (c, rest) => (String.ofList c, rest)
  | '\'' :: '\'' :: '\'' :: rest =>
    (openLongString '\'' rest).map fun (c, rest) => (String.ofList c, rest)
  | chars => shortString? chars

/-! ## Numbers -/

/-- Reads digits, the ones read so far given last first, with single underscores
between them. -/
def moreDigits (isDigit : Char → Bool) (read : List Char) : List Char → Option (List Char × List Char)
  | '_' :: c :: rest => if isDigit c then moreDigits isDigit (c :: read) rest else none
  | ['_'] => none
  | c :: rest => if isDigit c then moreDigits isDigit (c :: read) rest else some (read.reverse, c :: rest)
  | [] => some (read.reverse, [])

/-- Reads at least one digit. -/
def digits? (isDigit : Char → Bool) : Reader (List Char)
  | c :: rest => if isDigit c then moreDigits isDigit [c] rest else none
  | [] => none

/-- Reads the digits of a decimal number without leading zeros. -/
def decimal? : Reader (List Char)
  | '0' :: rest => some (['0'], rest)
  | chars => digits? Char.isDigit chars

/-- Reads a sign, and tells whether it is a minus. -/
def sign : List Char → Bool × List Char
  | '-' :: rest => (true, rest)
  | '+' :: rest => (false, rest)
  | chars => (false, chars)

/-- The number that digits spell. -/
def number (base : Nat) (digits : List Char) : Nat :=
  digits.foldl (fun value c => value * base + (Bytes.hexValue? c).getD 0) 0

/-- Whether a number fits 64 bits with a sign. -/
def fits (value : Int) : Bool :=
  -0x8000000000000000 ≤ value && value < 0x8000000000000000

/-- A whole number as an item, if it fits. -/
def integerItem? (value : Int) (rest : List Char) : Option (Item × List Char) :=
  if fits value then some (.integer value, rest) else none

/-- Whether a character is an octal digit. -/
def isOctal (c : Char) : Bool :=
  '0' ≤ c && c ≤ '7'

/-- Whether a character is a binary digit. -/
def isBinary (c : Char) : Bool :=
  c == '0' || c == '1'

/-- Reads a whole number. -/
def integer? : Reader Item
  | '0' :: 'x' :: rest =>
    (digits? (fun c => (Bytes.hexValue? c).isSome) rest).bind fun (d, rest) =>
      integerItem? (number 16 d) rest
  | '0' :: 'o' :: rest =>
    (digits? isOctal rest).bind fun (d, rest) => integerItem? (number 8 d) rest
  | '0' :: 'b' :: rest =>
    (digits? isBinary rest).bind fun (d, rest) => integerItem? (number 2 d) rest
  | chars =>
    let (negative, unsigned) := sign chars
    (decimal? unsigned).bind fun (d, rest) =>
      integerItem? (if negative then -(number 10 d : Int) else number 10 d) rest

/-- Whether a decimal with these digits and this exponent is too large for a
double: at least `2 ^ 1024 - 2 ^ 970`. -/
def overflows (digits : List Char) (exponent : Int) : Bool :=
  let mantissa := number 10 digits
  let magnitude := (toString mantissa).length + exponent
  if mantissa == 0 || magnitude < 309 then false
  else if 310 < magnitude then true
  else
    let limit := Nat.pow 2 1024 - Nat.pow 2 970
    if 0 ≤ exponent then limit ≤ mantissa * Nat.pow 10 exponent.toNat
    else limit * Nat.pow 10 (-exponent).toNat ≤ mantissa

/-- Reads the exponent of a float. -/
def exponent? : Reader Int
  | c :: rest =>
    if c == 'e' || c == 'E' then
      let (negative, unsigned) := sign rest
      (digits? Char.isDigit unsigned).map fun (d, rest) =>
        (if negative then -(number 10 d : Int) else number 10 d, rest)
    else none
  | [] => none

/-- Reads a float: a decimal with places, an exponent or both, or a special
value.  A number above all doubles is refused. -/
def float? (chars : List Char) : Option (Item × List Char) :=
  let (negative, unsigned) := sign chars
  match unsigned with
  | 'i' :: 'n' :: 'f' :: rest => some (.float, rest)
  | 'n' :: 'a' :: 'n' :: rest => some (.float, rest)
  | _ =>
    let made (digits : List Char) (exponent : Int) (rest : List Char) : Option (Item × List Char) :=
      if !negative && overflows digits exponent then none else some (.float, rest)
    match decimal? unsigned with
    | none => none
    | some (whole, '.' :: rest) =>
      match digits? Char.isDigit rest with
      | none => none
      | some (places, rest) =>
        match exponent? rest with
        | none => made (whole ++ places) (-(places.length : Int)) rest
        | some (exponent, rest) => made (whole ++ places) (exponent - places.length) rest
    | some (whole, rest) =>
      match exponent? rest with
      | none => none
      | some (exponent, rest) => made whole exponent rest

/-! ## Dates -/

/-- Reads exactly `count` digits as a number. -/
def fixedDigits? (count : Nat) (chars : List Char) : Option (Nat × List Char) :=
  let digits := chars.take count
  if digits.length == count && digits.all Char.isDigit then some (number 10 digits, chars.drop count)
  else none

/-- Reads a number of two digits up to `limit`. -/
def twoDigits? (limit : Nat) (chars : List Char) : Option (Nat × List Char) :=
  match fixedDigits? 2 chars with
  | some (value, rest) => if value ≤ limit then some (value, rest) else none
  | none => none

/-- Reads one character. -/
def mark? (c : Char) : List Char → Option (List Char)
  | d :: rest => if c == d then some rest else none
  | [] => none

/-- The number of days of a month. -/
def daysIn (year month : Nat) : Nat :=
  if month == 2 then
    if year % 4 == 0 && (year % 100 != 0 || year % 400 == 0) then 29 else 28
  else if [4, 6, 9, 11].contains month then 30
  else 31

/-- Reads a day. -/
def fullDate? (chars : List Char) : Option (List Char) := do
  let (year, rest) ← fixedDigits? 4 chars
  let (month, rest) ← twoDigits? 12 (← mark? '-' rest)
  let (day, rest) ← twoDigits? 31 (← mark? '-' rest)
  if month == 0 || day == 0 || daysIn year month < day then none else some rest

/-- Reads the places of a second, if there are any. -/
def secondPlaces? : List Char → Option (List Char)
  | '.' :: c :: rest => if c.isDigit then some (rest.dropWhile Char.isDigit) else none
  | ['.'] => none
  | chars => some chars

/-- Reads a time of day. -/
def timeOfDay? (chars : List Char) : Option (List Char) := do
  let (_, rest) ← twoDigits? 23 chars
  let (_, rest) ← twoDigits? 59 (← mark? ':' rest)
  let (_, rest) ← twoDigits? 60 (← mark? ':' rest)
  secondPlaces? rest

/-- Reads a distance from universal time. -/
def offset? : List Char → Option (List Char)
  | [] => none
  | c :: rest =>
    if c == 'Z' || c == 'z' then some rest
    else if c == '+' || c == '-' then do
      let (_, rest) ← twoDigits? 23 rest
      let (_, rest) ← twoDigits? 59 (← mark? ':' rest)
      return rest
    else none

/-- Reads the time behind a day, if there is one. -/
def timeOfDate (chars : List Char) : List Char :=
  match chars with
  | c :: rest =>
    if c == 'T' || c == 't' || c == ' ' then
      match timeOfDay? rest with
      | none => chars
      | some rest => (offset? rest).getD rest
    else chars
  | [] => chars

/-- Reads a day, a time of day, or both. -/
def date? (chars : List Char) : Option (Item × List Char) :=
  match fullDate? chars with
  | some rest => some (.date, timeOfDate rest)
  | none => (timeOfDay? chars).map fun rest => (.date, rest)

/-! ## All of them -/

/-- Reads a value that holds no other values. -/
def scalarItem? (chars : List Char) : Option (Item × List Char) :=
  match chars with
  | 't' :: 'r' :: 'u' :: 'e' :: rest => some (.boolean true, rest)
  | 'f' :: 'a' :: 'l' :: 's' :: 'e' :: rest => some (.boolean false, rest)
  | '"' :: _ => (string? chars).map fun (text, rest) => (.string text, rest)
  | '\'' :: _ => (string? chars).map fun (text, rest) => (.string text, rest)
  | _ => ((date? chars).or (float? chars)).or (integer? chars)

end Toml
end SourceIndex
