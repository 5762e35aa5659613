import QueryForecast.Decimal.Basic

/-!
# Reading numerals

The pieces that numerals are read with: runs of digits and their value. Each piece takes the longest
run from the front of the text and returns what follows.
-/

namespace QueryForecast.Decimal

/-- The value of a digit character. -/
def digitValue (c : Char) : Nat :=
  c.toNat - '0'.toNat

/-- The number that a run of digits denotes. -/
def valueOf (digits : List Char) : Nat :=
  digits.foldl (fun n c => 10 * n + digitValue c) 0

/-- The run of digits at the front of the text, and the rest. -/
def takeDigits (text : List Char) : List Char × List Char :=
  text.span Char.isDigit

/-- The decimal number with the given digits before and after its point, times `10^exponent`. -/
def assemble (whole fraction : List Char) (exponent : Int) : Numeral :=
  ⟨valueOf (whole ++ fraction), exponent - fraction.length⟩

/-- The natural number written by a text of digits alone, with an optional plus sign in front. -/
def readNat? (text : List Char) : Option Nat :=
  let digits := match text with
    | '+' :: rest => rest
    | _ => text
  if digits.isEmpty ∨ ¬ digits.all Char.isDigit then none else some (valueOf digits)

/-- An exponent part at the end of a numeral: nothing, or `e` with an optional sign and digits. -/
def readExponent? : List Char → Option Int
  | [] => some 0
  | e :: rest =>
    if e = 'e' ∨ e = 'E' then
      match rest with
      | '-' :: digits => (readUnsigned? digits).map fun n => -(n : Int)
      | '+' :: digits => (readUnsigned? digits).map fun n => (n : Int)
      | digits => (readUnsigned? digits).map fun n => (n : Int)
    else none
where
  /-- A text of digits alone. -/
  readUnsigned? (digits : List Char) : Option Nat :=
    if digits.isEmpty ∨ ¬ digits.all Char.isDigit then none else some (valueOf digits)

/-- The magnitude that a numeral denotes: digits with an optional point among or around them, at
least one digit, and an optional exponent part. -/
def readMagnitude? (text : List Char) : Option Numeral :=
  let (whole, afterWhole) := takeDigits text
  let (fraction, afterFraction) := match afterWhole with
    | '.' :: rest => takeDigits rest
    | rest => ([], rest)
  if whole.isEmpty ∧ fraction.isEmpty then none
  else (readExponent? afterFraction).map (assemble whole fraction)

/-- The double that a command-line argument denotes: a numeral, or `inf`, `infinity` or `nan` in any
case, with an optional sign. -/
def readFloat? (text : List Char) : Option Float :=
  let (negative, body) := match text with
    | '-' :: rest => (true, rest)
    | '+' :: rest => (false, rest)
    | _ => (false, text)
  let signed (size : Float) : Float := if negative then -size else size
  let word := String.ofList (body.map Char.toLower)
  if word = "inf" ∨ word = "infinity" then some (signed (1.0 / 0.0))
  else if word = "nan" then some (0.0 / 0.0)
  else (readMagnitude? body).map (toFloat negative)

end QueryForecast.Decimal
