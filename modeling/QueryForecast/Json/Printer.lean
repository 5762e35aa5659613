import QueryForecast.Decimal.Layout
import QueryForecast.Json.Basic

/-!
# Writing JSON text

`compact` writes a value on one line without blanks, as execution logs hold it; `indented` breaks
lines between items and entries, as model artifacts hold it. In both, entries come in the order of
the object and text escapes only what it must.
-/

namespace QueryForecast.Json

open Decimal

/-- The lower-case hexadecimal digit of a number below 16. -/
def hexDigit (n : Nat) : Char :=
  if n < 10 then Char.ofNat (48 + n) else Char.ofNat (87 + n)

/-- A character inside a string. -/
def escaped (c : Char) : List Char :=
  if c = '"' then ['\\', '"']
  else if c = '\\' then ['\\', '\\']
  else if c = '\n' then ['\\', 'n']
  else if c = '\r' then ['\\', 'r']
  else if c = '\t' then ['\\', 't']
  else if c = '\x08' then ['\\', 'b']
  else if c = '\x0c' then ['\\', 'f']
  else if c.toNat < 0x20 then
    ['\\', 'u', '0', '0', hexDigit (c.toNat / 16), hexDigit (c.toNat % 16)]
  else [c]

/-- A string in quotes. -/
def quoted (s : String) : List Char :=
  '"' :: (s.toList.flatMap escaped ++ ['"'])

/-- The text of a number. -/
def numberText : Number → List Char
  | .whole n => if n < 0 then '-' :: digitsOf n.natAbs else digitsOf n.natAbs
  | .real x => if x.isFinite then Layout.record.write x else "null".toList

/-- The text of a value that holds no others. -/
def scalarText : Json → List Char
  | .null => "null".toList
  | .bool true => "true".toList
  | .bool false => "false".toList
  | .num n => numberText n
  | .str s => quoted s
  | .arr _ => ['[', ']']
  | .obj _ => ['{', '}']

mutual

/-- The characters of a value on one line, in front of `rest`. -/
def compactTo (rest : List Char) : Json → List Char
  | .arr items => '[' :: compactItems (']' :: rest) items
  | .obj entries => '{' :: compactEntries ('}' :: rest) entries
  | v => scalarText v ++ rest

/-- The items of an array with commas between them, in front of `rest`. -/
def compactItems (rest : List Char) : List Json → List Char
  | [] => rest
  | [v] => compactTo rest v
  | v :: vs => compactTo (',' :: compactItems rest vs) v

/-- The entries of an object with commas between them, in front of `rest`. -/
def compactEntries (rest : List Char) : List (String × Json) → List Char
  | [] => rest
  | [(name, v)] => quoted name ++ ':' :: compactTo rest v
  | (name, v) :: es => quoted name ++ ':' :: compactTo (',' :: compactEntries rest es) v

end

/-- The text of a value on one line. -/
def compact (v : Json) : String :=
  String.ofList (compactTo [] v)

/-- A line break and the indentation of the given depth, two blanks a level. -/
def newline (depth : Nat) : List Char :=
  '\n' :: List.replicate (2 * depth) ' '

mutual

/-- The characters of a value over several lines, in front of `rest`; what it holds is indented one
level deeper than `depth`. -/
def indentedTo (depth : Nat) (rest : List Char) : Json → List Char
  | .arr (v :: vs) =>
    '[' :: (newline (depth + 1) ++ indentedItems depth (newline depth ++ ']' :: rest) (v :: vs))
  | .obj (e :: es) =>
    '{' :: (newline (depth + 1) ++ indentedEntries depth (newline depth ++ '}' :: rest) (e :: es))
  | v => scalarText v ++ rest

/-- The items of an array, a line each. -/
def indentedItems (depth : Nat) (rest : List Char) : List Json → List Char
  | [] => rest
  | [v] => indentedTo (depth + 1) rest v
  | v :: vs =>
    indentedTo (depth + 1) (',' :: (newline (depth + 1) ++ indentedItems depth rest vs)) v

/-- The entries of an object, a line each. -/
def indentedEntries (depth : Nat) (rest : List Char) : List (String × Json) → List Char
  | [] => rest
  | [(name, v)] => quoted name ++ ':' :: ' ' :: indentedTo (depth + 1) rest v
  | (name, v) :: es =>
    quoted name ++ ':' :: ' ' ::
      indentedTo (depth + 1) (',' :: (newline (depth + 1) ++ indentedEntries depth rest es)) v

end

/-- The text of a value over several lines. -/
def indented (v : Json) : String :=
  String.ofList (indentedTo 0 [] v)

end QueryForecast.Json
