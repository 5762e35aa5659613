import QueryForecast.Json.Parser

/-!
# Passing over a value

A reader of a record does not look into the entries that it does not know. `skipValue` finds the end
of such a value and checks only what that needs: that brackets match, and that words, numerals and
escapes are spelled as they may be. Numbers may be of any size, escapes may stand for half a pair,
and brackets may be nested to any depth.

The brackets that are open are kept in a stack, the innermost first.
-/

namespace QueryForecast.Json.Parser

/-- A kind of bracket. -/
inductive Bracket where
  | array
  | object
  deriving DecidableEq, Repr

/-- The character that closes a bracket. -/
def Bracket.closing : Bracket → Char
  | .array => ']'
  | .object => '}'

/-- The text after the rest of a string. -/
def skipString : List Char → Option (List Char)
  | '"' :: rest => some rest
  | '\\' :: 'u' :: a :: b :: c :: d :: rest =>
    if (hexUnit? a b c d).isSome then skipString rest else none
  | '\\' :: e :: rest => if (shortEscape? e).isSome then skipString rest else none
  | c :: rest => if c = '\\' ∨ c.toNat < 0x20 then none else skipString rest
  | [] => none

/-- The text after a value that is neither an array nor an object. -/
def skipScalar : List Char → Option (List Char)
  | 'n' :: 'u' :: 'l' :: 'l' :: rest => some rest
  | 't' :: 'r' :: 'u' :: 'e' :: rest => some rest
  | 'f' :: 'a' :: 'l' :: 's' :: 'e' :: rest => some rest
  | '"' :: rest => skipString rest
  | text => (numberParts text).map (·.2)

/-- The text after the name of an entry and its colon. -/
def skipName (text : List Char) : Option (List Char) :=
  match skipBlank text with
  | '"' :: rest =>
    match (skipString rest).map skipBlank with
    | some (':' :: rest) => some rest
    | _ => none
  | _ => none

/-- The text of the first item of a bracket that was opened, or of the next one. -/
def enter : Bracket → List Char → Option (List Char)
  | .array, text => some text
  | .object, text => skipName text

/-- What follows a value inside the given brackets: those that stay open, and the text of the next
item in the innermost of them; no bracket, and the text that is left, when all are closed. -/
def leave : List Bracket → List Char → Option (List Bracket × List Char)
  | [], text => some ([], text)
  | bracket :: outer, text =>
    match skipBlank text with
    | [] => none
    | c :: rest =>
      if c = ',' then (enter bracket rest).map (bracket :: outer, ·)
      else if c = bracket.closing then leave outer rest
      else none

/-- The text after a value and all that follows it inside the given brackets, at most `limit`
values together. -/
def skipThrough : (limit : Nat) → List Bracket → List Char → Option (List Char)
  | 0, _, _ => none
  | limit + 1, opened, text =>
    match begin opened (skipBlank text) with
    | some (.inl (opened, rest)) => skipThrough limit opened rest
    | some (.inr rest) =>
      match leave opened rest with
      | some ([], rest) => some rest
      | some (opened, rest) => skipThrough limit opened rest
      | none => none
    | none => none
where
  /-- Either the bracket that a value opens and the text of its first item, or the text after a
  value that is whole. -/
  begin (opened : List Bracket) :
      List Char → Option ((List Bracket × List Char) ⊕ List Char)
    | '[' :: rest => first .array opened rest
    | '{' :: rest => first .object opened rest
    | text => (skipScalar text).map .inr
  /-- The first item of a bracket, or the text after a bracket that holds nothing. -/
  first (bracket : Bracket) (opened : List Bracket) (text : List Char) :
      Option ((List Bracket × List Char) ⊕ List Char) :=
    match skipBlank text with
    | c :: rest =>
      if c = bracket.closing then some (.inr rest)
      else (enter bracket (c :: rest)).map fun text => .inl (bracket :: opened, text)
    | [] => none

/-- The text after a value. Every value in it has a character of its own, so the length of the text
is enough for the `limit`. -/
def skipValue (limit : Nat) (text : List Char) : Option (List Char) :=
  skipThrough limit [] text

end QueryForecast.Json.Parser
