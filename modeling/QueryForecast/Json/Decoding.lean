import QueryForecast.Decimal.Layout
import QueryForecast.Json.Basic
import QueryForecast.Text.Quoted

/-!
# Decoding JSON values

A decoder maps a JSON value to a domain value or to a `DecodeFault`. Records are decoded by one
rule: an object is read entry by entry, in its own order, over a record of defaults; an array of at
least `leading` items stands for the record with these fields in declaration order. The first fault
in that order is the one reported.

Execution logs are written by engines that disagree on details, so counts, numbers and categories
are read tolerantly: a count may be any number from zero up, and `null` means the default.
-/

namespace QueryForecast

open Numeric Decimal

/-- What was found where a count was expected. -/
inductive Found where
  | integer (n : Int)
  | real (x : Float)
  | text (s : String)
  | boolean (b : Bool)
  | sequence
  | map
  deriving DecidableEq, Repr

/-- Whether the fault is in the value found, and not in its type. -/
def Found.isValue : Found → Bool
  | .integer _ => true
  | .real _ => true
  | _ => false

/-- How a message names what was found. -/
def Found.describe : Found → String
  | .integer n => "integer " ++ tick (toString n)
  | .real x => "floating point " ++ tick (String.ofList (Layout.record.write x))
  | .text s => "string " ++ Text.quoted s
  | .boolean b => "boolean " ++ tick (toString b)
  | .sequence => "sequence"
  | .map => "map"
where
  /-- A text between grave accents. -/
  tick (s : String) : String := "`" ++ s ++ "`"

/-- Why a JSON value is not the encoding of a domain value. -/
inductive DecodeFault where
  /-- A value of the wrong type, a field that is missing, repeated or one too many, an unknown name,
  or a malformed timestamp. -/
  | shape
  | notACount (found : Found)
  | countTooLarge (n : Nat)
  | emptySchema
  | repeatedFeature (name : String)
  deriving DecidableEq, Repr

/-- The text of the faults that say more than that the shape is wrong. -/
def DecodeFault.detail? : DecodeFault → Option String
  | .shape => none
  | .notACount found =>
    some ((if found.isValue then "invalid value: " else "invalid type: ") ++ found.describe ++
      ", expected a non-negative number or null")
  | .countTooLarge n =>
    some ("invalid value: " ++ (Found.integer n).describe ++ ", expected a count within range")
  | .emptySchema => some "feature schema is empty"
  | .repeatedFeature name => some ("duplicate feature '" ++ name ++ "' in schema")

/-- The text of a fault inside a longer message. -/
def DecodeFault.message (fault : DecodeFault) : String :=
  fault.detail?.getD "<decode>"

namespace Json

/-- The result of decoding. -/
abbrev Decoded (α : Type) := Except DecodeFault α

/-- A text. -/
def asString : Json → Decoded String
  | .str s => .ok s
  | _ => .error .shape

/-- A truth value. -/
def asBool : Json → Decoded Bool
  | .bool b => .ok b
  | _ => .error .shape

/-- A number, as a double. -/
def asFloat : Json → Decoded Float
  | .num n => .ok n.toFloat
  | _ => .error .shape

/-- A whole number that is not negative, written without point or exponent. -/
def asNat : Json → Decoded Nat
  | .num (.whole n) => if n < 0 then .error .shape else .ok n.toNat
  | _ => .error .shape

/-- `null` for an absent value. -/
def asOption {α : Type} (decode : Json → Decoded α) : Json → Decoded (Option α)
  | .null => .ok none
  | v => (decode v).map some

/-- An array of encodings. -/
def asList {α : Type} (decode : Json → Decoded α) : Json → Decoded (List α)
  | .arr items => items.mapM decode
  | _ => .error .shape

/-- The name of an alternative: a text, or an object whose only entry has that name and no
content. -/
def asName : Json → Decoded String
  | .str s => .ok s
  | .obj [(name, .null)] => .ok name
  | _ => .error .shape

/-- The greatest count that 64 bits hold. -/
def maxCount : Nat := 0xffffffffffffffff

/-- A count, tolerantly: any number from zero up, its fraction cut off; `null` is absent. -/
def asCount : Json → Decoded (Option Nat)
  | .null => .ok none
  | .num (.whole n) =>
    if n < 0 then .error (.notACount (.integer n)) else .ok (some (min n.toNat maxCount))
  | .num (.real x) =>
    if x.isFinite ∧ 0.0 ≤ x then .ok (some (wholePart x)) else .error (.notACount (.real x))
  | .bool b => .error (.notACount (.boolean b))
  | .str s => .error (.notACount (.text s))
  | .arr _ => .error (.notACount .sequence)
  | .obj _ => .error (.notACount .map)

/-- A count of 64 bits, tolerantly; `null` is zero. -/
def asCount64 (v : Json) : Decoded UInt64 := do
  let n ← asCount v
  return UInt64.ofNat (n.getD 0)

/-- A count of 32 bits, tolerantly; `null` is `absent`. -/
def asCount32 (absent : UInt32) (v : Json) : Decoded UInt32 := do
  match ← asCount v with
  | none => return absent
  | some n => if n < 0x100000000 then return UInt32.ofNat n else throw (.countTooLarge n)

/-- A measured number, tolerantly; `null` is zero. -/
def asMeasure (v : Json) : Decoded Float :=
  (asOption asFloat v).map (·.getD 0.0)

/-- A category, tolerantly; `null` is `absent`. -/
def asCategory (absent : String) (v : Json) : Decoded String :=
  (asOption asString v).map (·.getD absent)

/-- The fields of a record: their names in declaration order, the names that an object must have,
and how many items an array must have. -/
structure RecordForm where
  fields : List String
  required : List String := []
  leading : Nat := 0

/-- Reads the entries of an object into a record, skipping unknown names. `seen` holds the names of
the entries so far: a field comes at most once. -/
def readEntries {α : Type} (form : RecordForm) (set : String → Json → α → Decoded α)
    (seen : List String) (record : α) : Entries → Decoded α
  | [] => if form.required.all seen.contains then .ok record else .error .shape
  | (name, v) :: rest =>
    if form.fields.contains name then
      if seen.contains name then .error .shape
      else
        match set name v record with
        | .ok record => readEntries form set (name :: seen) record rest
        | .error fault => .error fault
    else readEntries form set seen record rest

/-- Reads the items of an array into a record, one for each field name. -/
def readItems {α : Type} (set : String → Json → α → Decoded α) :
    List String → α → List Json → Decoded α
  | _, record, [] => .ok record
  | [], _, _ :: _ => .error .shape
  | name :: names, record, v :: rest =>
    match set name v record with
    | .ok record => readItems set names record rest
    | .error fault => .error fault

/-- Reads a record: `set name v` puts the decoded `v` into the field `name`, and `start` holds what
absent fields are. -/
def asRecord {α : Type} (form : RecordForm) (set : String → Json → α → Decoded α) (start : α) :
    Json → Decoded α
  | .obj entries => readEntries form set [] start entries
  | .arr items =>
    match readItems set form.fields start items with
    | .ok record => if items.length < form.leading then .error .shape else .ok record
    | .error fault => .error fault
  | _ => .error .shape

end Json

end QueryForecast
