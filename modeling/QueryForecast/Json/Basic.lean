import QueryForecast.Numeric.Basic

/-!
# JSON values

Execution logs and model artifacts are JSON. A number is `whole` when it was written without a point
or exponent and fits 64 bits, and `real` otherwise: the two are read differently, since counts are
whole.

An object is the list of its entries. `lastOfEach` is the reading in which a repeated name means the
last of its entries; its result is sorted by name, and names in it are distinct.
-/

namespace QueryForecast

/-- A JSON number. -/
inductive Number where
  | whole (n : Int)
  | real (x : Float)
  deriving DecidableEq, Repr

/-- A JSON value. -/
inductive Json where
  | null
  | bool (b : Bool)
  | num (n : Number)
  | str (s : String)
  | arr (items : List Json)
  | obj (entries : List (String × Json))
  deriving Repr, Inhabited

/-- The double that a number denotes, rounded to nearest where it is too long for one. -/
def Number.toFloat : Number → Float
  | .whole n => Float.ofInt n
  | .real x => x

namespace Json

/-- The entries of an object. -/
abbrev Entries := List (String × Json)

/-- The value of the first entry with the given name. -/
def Entries.get? (entries : Entries) (name : String) : Option Json :=
  entries.lookup name

/-- Whether an entry has the given name. -/
def Entries.has (entries : Entries) (name : String) : Bool :=
  entries.any fun entry => entry.1 == name

/-- Puts an entry in its place in a list sorted by name, unless the name is there already. -/
def Entries.insertNew (name : String) (value : Json) : Entries → Entries
  | [] => [(name, value)]
  | (name', value') :: rest =>
    if name = name' then (name', value') :: rest
    else if name < name' then (name, value) :: (name', value') :: rest
    else (name', value') :: Entries.insertNew name value rest

/-- The last entry of each name, sorted by name. -/
def Entries.lastOfEach (entries : Entries) : Entries :=
  entries.foldr (fun entry rest => Entries.insertNew entry.1 entry.2 rest) []

/-- A natural number as JSON. -/
def ofNat (n : Nat) : Json := .num (.whole n)

/-- A double as JSON. JSON has no infinite or undefined numbers; they become `null`. -/
def ofFloat (x : Float) : Json :=
  if x.isFinite then .num (.real x) else .null

/-- An optional value as JSON, `null` when it is absent. -/
def ofOption {α : Type} (encode : α → Json) : Option α → Json
  | none => .null
  | some a => encode a

/-- An entry that is left out when its value is absent. -/
def optionalEntry {α : Type} (name : String) (encode : α → Json) : Option α → Entries
  | none => []
  | some a => [(name, encode a)]

/-! ## Equality -/

mutual

/-- Whether two values are the same. -/
def same : Json → Json → Bool
  | .null, .null => true
  | .bool a, .bool b => a == b
  | .num m, .num n => m == n
  | .str s, .str t => s == t
  | .arr xs, .arr ys => sameItems xs ys
  | .obj es, .obj fs => sameEntries es fs
  | _, _ => false

def sameItems : List Json → List Json → Bool
  | [], [] => true
  | v :: vs, w :: ws => same v w && sameItems vs ws
  | _, _ => false

def sameEntries : List (String × Json) → List (String × Json) → Bool
  | [], [] => true
  | (n, v) :: es, (m, w) :: fs => n == m && same v w && sameEntries es fs
  | _, _ => false

end

mutual

theorem same_iff (v w : Json) : same v w = true ↔ v = w := by
  cases v with
  | arr vs =>
    cases w with
    | arr ws => rw [same, sameItems_iff, Json.arr.injEq]
    | _ => simp [same]
  | obj es =>
    cases w with
    | obj fs => rw [same, sameEntries_iff, Json.obj.injEq]
    | _ => simp [same]
  | _ => cases w <;> simp [same]

theorem sameItems_iff (vs ws : List Json) : sameItems vs ws = true ↔ vs = ws := by
  cases vs with
  | nil => cases ws <;> simp [sameItems]
  | cons v vs =>
    cases ws with
    | nil => simp [sameItems]
    | cons w ws =>
      rw [sameItems, Bool.and_eq_true, same_iff v w, sameItems_iff vs ws, List.cons.injEq]

theorem sameEntries_iff (es fs : List (String × Json)) : sameEntries es fs = true ↔ es = fs := by
  cases es with
  | nil => cases fs <;> simp [sameEntries]
  | cons e es =>
    obtain ⟨n, v⟩ := e
    cases fs with
    | nil => simp [sameEntries]
    | cons f fs =>
      obtain ⟨m, w⟩ := f
      rw [sameEntries, Bool.and_eq_true, Bool.and_eq_true, same_iff v w, sameEntries_iff es fs,
        beq_iff_eq, List.cons.injEq, Prod.mk.injEq]

end

instance : DecidableEq Json := fun v w => decidable_of_iff _ (same_iff v w)

end Json

end QueryForecast
