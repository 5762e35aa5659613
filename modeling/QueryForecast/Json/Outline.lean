import QueryForecast.Json.Skipping

/-!
# Reading a record from text

A document is read while it is decoded, so what is wrong with its first half is reported even when
its second half is no JSON at all. An `Outline` tells the reader which parts of the document are
records, and `excerpt` reads as much of the document as the text holds: the entries of a record that
the outline does not name are passed over, and all others are read strictly.

The `limit` bounds how many parts a bracket may have, as in the strict reader.

Decoding an excerpt and then looking whether it was the whole document finds the first fault in the
order of the text.
-/

namespace QueryForecast.Json

/-- The parts of a document that are records. -/
inductive Outline where
  /-- A value that is read as it stands. -/
  | value
  /-- An array of parts that all have one outline. -/
  | list (item : Outline)
  /-- A record, with the outlines of its fields in declaration order. -/
  | record (fields : List (String × Outline))
  deriving Repr, Inhabited

/-- The outlines of fields in declaration order. A field that is not among the `inner` ones is read
as it stands. -/
def Outline.fields (names : List String) (inner : List (String × Outline)) :
    List (String × Outline) :=
  names.map fun name => (name, (inner.lookup name).getD .value)

/-- A record of the given fields. -/
def Outline.ofFields (names : List String) (inner : List (String × Outline) := []) : Outline :=
  .record (Outline.fields names inner)

namespace Parser

/-- The parts of a bracket up to its closing character, at least one and at most `limit`. Where the
text breaks off, the parts before the break, and no text after them. -/
def gather {α : Type} (part : (index : Nat) → Reader (List α)) (closing : Char) :
    (limit index : Nat) → List Char → List α × Option (List Char)
  | 0, _, _ => ([], none)
  | limit + 1, index, text =>
    match part index text with
    | none => ([], none)
    | some (found, rest) =>
      match skipBlank rest with
      | [] => (found, none)
      | c :: rest =>
        if c = ',' then
          let (others, after) := gather part closing limit (index + 1) rest
          (found ++ others, after)
        else (found, if c = closing then some rest else none)

/-- The parts of a bracket after its opening character, which may be none. -/
def bracket {α : Type} (limit : Nat) (part : (index : Nat) → Reader (List α)) (closing : Char)
    (text : List Char) : List α × Option (List Char) :=
  match skipBlank text with
  | [] => ([], none)
  | c :: rest =>
    if c = closing then ([], some rest) else gather part closing limit 0 (c :: rest)

/-- An entry of a record: nothing, if the record has no such field. -/
def fieldEntry (limit : Nat) (read : Outline → Reader Json) (fields : List (String × Outline)) :
    Reader Entries := fun text => do
  let (name, rest) ← entryName text
  match fields.lookup name with
  | some outline =>
    let (v, rest) ← read outline rest
    return ([(name, v)], rest)
  | none =>
    let rest ← skipValue limit rest
    return ([], rest)

/-- The item of a record that is written as an array. -/
def fieldItem (read : Outline → Reader Json) (fields : List (String × Outline)) (index : Nat) :
    Reader (List Json) := fun text => do
  let field ← fields[index]?
  let (v, rest) ← read field.2 text
  return ([v], rest)

/-- As much of a record as the text holds, and the text after it if it is whole. -/
def record (limit : Nat) (read : Outline → Reader Json) (fields : List (String × Outline))
    (text : List Char) : Json × Option (List Char) :=
  match skipBlank text with
  | '{' :: rest =>
    let (entries, after) := bracket limit (fun _ => fieldEntry limit read fields) '}' rest
    (.obj entries, after)
  | '[' :: rest =>
    let (items, after) := bracket limit (fieldItem read fields) ']' rest
    (.arr items, after)
  | text =>
    match scalar text with
    | some (v, rest) => (v, some rest)
    | none => (.null, none)

/-- A value with the given outline and at most `depth` open brackets. -/
def outlined (limit : Nat) : (depth : Nat) → Outline → Reader Json
  | 0, _, text => scalar (skipBlank text)
  | depth + 1, .value, text => value id limit (depth + 1) text
  | depth + 1, .list item, text =>
    match skipBlank text with
    | '[' :: rest =>
      let one : Reader (List Json) := fun text => do
        let (v, rest) ← outlined limit depth item text
        return ([v], rest)
      match bracket limit (fun _ => one) ']' rest with
      | (items, some after) => some (.arr items, after)
      | (_, none) => none
    | text => value id limit (depth + 1) text
  | depth + 1, .record fields, text =>
    match record limit (outlined limit depth) fields text with
    | (v, some after) => some (v, after)
    | (_, none) => none

end Parser

/-- As much of a document as a text holds, and whether that is all of it and the text holds nothing
else. -/
def excerpt (fields : List (String × Outline)) (text : String) : Json × Bool :=
  let chars := text.toList
  let limit := chars.length
  let (v, after) :=
    Parser.record limit (Parser.outlined limit (Parser.maxDepth - 1)) fields chars
  (v, after.any fun rest => (Parser.skipBlank rest).isEmpty)

end QueryForecast.Json
