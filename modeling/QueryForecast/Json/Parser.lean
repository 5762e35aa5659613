import QueryForecast.Decimal.Reading
import QueryForecast.Json.Basic

/-!
# Reading JSON text

A strict reader: no comments, byte order marks, leading zeros, raw control characters or lone
surrogates, no text after the value, and at most `maxDepth` brackets open at once. A text that is
not JSON has no reading; why is not recorded.

Each reader takes a value off the front of the text and returns what follows it. `value` recurses on
the number of brackets that may still be opened; the loops over the items of an array and the
entries of an object have a `limit`, for which the length of the whole text is enough.
-/

namespace QueryForecast.Json.Parser

open Decimal

/-- A reader of something at the front of a text. -/
abbrev Reader (α : Type) := List Char → Option (α × List Char)

/-- How many brackets may be open at once. -/
def maxDepth : Nat := 127

/-- Whether a character is JSON white space. -/
def isBlank (c : Char) : Bool :=
  c = ' ' || c = '\n' || c = '\t' || c = '\r'

/-- The text without the white space in front. -/
def skipBlank (text : List Char) : List Char :=
  text.dropWhile isBlank

/-- The value of a hexadecimal digit. -/
def hexDigit? (c : Char) : Option Nat :=
  if '0' ≤ c ∧ c ≤ '9' then some (c.toNat - '0'.toNat)
  else if 'a' ≤ c ∧ c ≤ 'f' then some (c.toNat - 'a'.toNat + 10)
  else if 'A' ≤ c ∧ c ≤ 'F' then some (c.toNat - 'A'.toNat + 10)
  else none

/-- The value of four hexadecimal digits. -/
def hexUnit? (a b c d : Char) : Option Nat := do
  let a ← hexDigit? a
  let b ← hexDigit? b
  let c ← hexDigit? c
  let d ← hexDigit? d
  return ((a * 16 + b) * 16 + c) * 16 + d

/-- Whether a 16-bit unit is the first half of a pair. -/
def isHighSurrogate (u : Nat) : Bool := 0xD800 ≤ u && u < 0xDC00

/-- Whether a 16-bit unit is the second half of a pair. -/
def isLowSurrogate (u : Nat) : Bool := 0xDC00 ≤ u && u < 0xE000

/-- The character that a one-letter escape stands for. -/
def shortEscape? : Char → Option Char
  | '"' => some '"'
  | '\\' => some '\\'
  | '/' => some '/'
  | 'b' => some '\x08'
  | 'f' => some '\x0c'
  | 'n' => some '\n'
  | 'r' => some '\r'
  | 't' => some '\t'
  | _ => none

/-- The rest of a string after its opening quote; `done` holds the characters read so far, last one
first. -/
def stringTail (done : List Char) : Reader String
  | '"' :: rest => some (String.ofList done.reverse, rest)
  | '\\' :: 'u' :: a :: b :: c :: d :: rest =>
    match hexUnit? a b c d with
    | none => none
    | some u =>
      if isLowSurrogate u then none
      else if isHighSurrogate u then
        match rest with
        | '\\' :: 'u' :: a' :: b' :: c' :: d' :: rest' =>
          match hexUnit? a' b' c' d' with
          | none => none
          | some v =>
            if isLowSurrogate v then
              stringTail (Char.ofNat (0x10000 + (u - 0xD800) * 1024 + (v - 0xDC00)) :: done) rest'
            else none
        | _ => none
      else stringTail (Char.ofNat u :: done) rest
  | '\\' :: e :: rest =>
    match shortEscape? e with
    | none => none
    | some c => stringTail (c :: done) rest
  | c :: rest => if c = '\\' ∨ c.toNat < 0x20 then none else stringTail (c :: done) rest
  | [] => none

/-- The parts of a numeral, as they were written. -/
structure NumberParts where
  negative : Bool
  whole : List Char
  fraction : List Char
  exponent : Option Int

/-- The number that the parts of a numeral denote. It stays whole when it has neither point nor
exponent, fits 64 bits and is not negative zero; a number past the range of doubles has no
reading. -/
def NumberParts.number? (p : NumberParts) : Option Number :=
  let n := valueOf p.whole
  let isWhole := p.fraction.isEmpty ∧ p.exponent.isNone
  if isWhole ∧ ¬ p.negative ∧ n < 0x10000000000000000 then some (.whole n)
  else if isWhole ∧ p.negative ∧ 0 < n ∧ n ≤ 0x8000000000000000 then some (.whole (-(n : Int)))
  else
    let x := toFloat p.negative (assemble p.whole p.fraction (p.exponent.getD 0))
    if x.isFinite then some (.real x) else none

/-- The fraction part of a numeral, if there is one: a point and at least one digit. -/
def fractionPart : Reader (List Char)
  | '.' :: rest =>
    let (digits, rest) := takeDigits rest
    if digits.isEmpty then none else some (digits, rest)
  | rest => some ([], rest)

/-- The exponent part of a numeral, if there is one. -/
def exponentPart (text : List Char) : Option (Option Int × List Char) :=
  match text with
  | e :: rest =>
    if e = 'e' ∨ e = 'E' then
      let (negative, rest) := match rest with
        | '-' :: rest => (true, rest)
        | '+' :: rest => (false, rest)
        | rest => (false, rest)
      let (digits, rest) := takeDigits rest
      if digits.isEmpty then none
      else
        let n : Int := valueOf digits
        some (some (if negative then -n else n), rest)
    else some (none, text)
  | [] => some (none, text)

/-- A numeral. The whole part is a single zero or starts with another digit. -/
def numberParts (text : List Char) : Option (NumberParts × List Char) := do
  let (negative, text) := match text with
    | '-' :: rest => (true, rest)
    | rest => (false, rest)
  let (whole, rest) := takeDigits text
  if whole.isEmpty ∨ (whole.head? = some '0' ∧ whole.length ≠ 1) then none
  else
    let (fraction, rest) ← fractionPart rest
    let (exponent, rest) ← exponentPart rest
    return (⟨negative, whole, fraction, exponent⟩, rest)

/-- A number. -/
def number (text : List Char) : Option (Number × List Char) := do
  let (parts, rest) ← numberParts text
  let n ← parts.number?
  return (n, rest)

/-- A value that is neither an array nor an object. -/
def scalar : Reader Json
  | 'n' :: 'u' :: 'l' :: 'l' :: rest => some (.null, rest)
  | 't' :: 'r' :: 'u' :: 'e' :: rest => some (.bool true, rest)
  | 'f' :: 'a' :: 'l' :: 's' :: 'e' :: rest => some (.bool false, rest)
  | '"' :: rest => (stringTail [] rest).map fun (s, rest) => (.str s, rest)
  | text => (number text).map fun (n, rest) => (.num n, rest)

/-- The items of an array up to its closing bracket, at least one and at most `limit`. -/
def items (item : Reader Json) : (limit : Nat) → Reader (List Json)
  | 0, _ => none
  | limit + 1, text => do
    let (first, rest) ← item text
    match skipBlank rest with
    | ',' :: rest =>
      let (others, rest) ← items item limit rest
      return (first :: others, rest)
    | ']' :: rest => return ([first], rest)
    | _ => none

/-- The name of an entry and the colon after it. -/
def entryName (text : List Char) : Option (String × List Char) :=
  match skipBlank text with
  | '"' :: rest =>
    match stringTail [] rest with
    | some (name, rest) =>
      match skipBlank rest with
      | ':' :: rest => some (name, rest)
      | _ => none
    | none => none
  | _ => none

/-- The entries of an object up to its closing bracket, at least one and at most `limit`. -/
def entries (item : Reader Json) : (limit : Nat) → Reader Entries
  | 0, _ => none
  | limit + 1, text => do
    let (name, rest) ← entryName text
    let (first, rest) ← item rest
    match skipBlank rest with
    | ',' :: rest =>
      let (others, rest) ← entries item limit rest
      return ((name, first) :: others, rest)
    | '}' :: rest => return ([(name, first)], rest)
    | _ => none

/-- A value with at most `depth` open brackets and at most `limit` items in each; `arrange` is
applied to the entries of every object. -/
def value (arrange : Entries → Entries) (limit : Nat) : (depth : Nat) → Reader Json
  | 0, text => scalar (skipBlank text)
  | depth + 1, text =>
    match skipBlank text with
    | '[' :: rest =>
      match skipBlank rest with
      | ']' :: rest => some (.arr [], rest)
      | rest => (items (value arrange limit depth) limit rest).map fun (xs, rest) => (.arr xs, rest)
    | '{' :: rest =>
      match skipBlank rest with
      | '}' :: rest => some (.obj [], rest)
      | rest =>
        (entries (value arrange limit depth) limit rest).map fun (es, rest) =>
          (.obj (arrange es), rest)
    | rest => scalar rest

/-- The value that a whole text denotes. -/
def document (arrange : Entries → Entries) (text : List Char) : Option Json :=
  match value arrange text.length maxDepth text with
  | some (v, rest) => if (skipBlank rest).isEmpty then some v else none
  | none => none

end Parser

/-- The JSON value of a text; of repeated names in an object the last counts. -/
def parse? (text : String) : Option Json :=
  Parser.document Entries.lastOfEach text.toList

end QueryForecast.Json
