import QueryForecast.Error
import QueryForecast.Feature.Vector
import QueryForecast.Json.Decoding

/-!
# Feature schemas

The feature names that a model was trained on, in the order of its columns. A vector is aligned to a
schema by picking its values in that order: names that the schema lacks are dropped, and names that
the vector lacks are zero.
-/

namespace QueryForecast

/-- The columns of a model: at least one name, none of them twice, with the position of each. -/
structure Schema where
  names : List String
  /-- The names with their positions. -/
  positions : List (String × Nat)
  ne_nil : names ≠ []
  nodup : names.Nodup
  indexed : positions = names.zipIdx

/-- Why a list of names is not a schema. -/
inductive SchemaFault where
  | empty
  | repeated (name : String)
  deriving DecidableEq, Repr

/-- The fault as the decoding of a schema reports it. -/
def SchemaFault.toDecodeFault : SchemaFault → DecodeFault
  | .empty => .emptySchema
  | .repeated name => .repeatedFeature name

/-- The text of a schema fault. -/
def SchemaFault.message (fault : SchemaFault) : String :=
  fault.toDecodeFault.message

/-- The failure that a schema fault leads to outside of decoding. -/
def SchemaFault.toFailure (fault : SchemaFault) : Failure :=
  .invalidArgument fault.message

namespace Schema

/-- Gives names the positions from `next` on, in addition to `positions`, unless one of them has a
position already. -/
def number (positions : List (String × Nat)) (next : Nat) :
    List String → Except SchemaFault (List (String × Nat))
  | [] => .ok positions
  | name :: rest =>
    match positions.lookup name with
    | some _ => .error (.repeated name)
    | none => number (positions ++ [(name, next)]) (next + 1) rest

theorem number_eq_ok {names : List String} {positions positions' : List (String × Nat)} {next : Nat}
    (h : number positions next names = .ok positions') :
    positions' = positions ++ names.zipIdx next ∧ names.Nodup ∧
      ∀ name ∈ names, positions.lookup name = none := by
  induction names generalizing positions next with
  | nil => cases h; simp
  | cons name rest ih =>
    unfold number at h
    split at h
    · cases h
    · rename_i hl
      obtain ⟨hp, hn, hd⟩ := ih h
      refine ⟨?_, List.nodup_cons.2 ⟨fun hm => ?_, hn⟩, fun n hm => ?_⟩
      · rw [hp, List.append_assoc, List.zipIdx_cons]
        rfl
      · have hc := hd name hm
        simp [List.lookup_append] at hc
      · rcases List.mem_cons.1 hm with rfl | hm
        · exact hl
        · have hc := hd n hm
          rw [List.lookup_append, Option.or_eq_none_iff] at hc
          exact hc.1

/-- The schema with the given names, or what is wrong with them. -/
def ofNames (names : List String) : Except SchemaFault Schema :=
  if hne : names = [] then .error .empty
  else
    match h : number [] 0 names with
    | .error fault => .error fault
    | .ok positions =>
      .ok ⟨names, positions, hne, (number_eq_ok h).2.1, (number_eq_ok h).1⟩

/-- The number of columns. -/
def width (s : Schema) : Nat := s.names.length

/-- The column of a name. -/
def position? (s : Schema) (name : String) : Option Nat :=
  s.positions.lookup name

/-- The row with a named value in the column of its name, if there is one. -/
def place (s : Schema) (row : List Float) (entry : String × Float) : List Float :=
  match s.position? entry.1 with
  | some position => row.set position entry.2
  | none => row

/-- The values of a vector in the order of the columns. -/
def align (s : Schema) (v : FeatureVector) : List Float :=
  v.entries.foldl s.place (List.replicate s.width 0.0)

theorem length_place (s : Schema) (row : List Float) (entry : String × Float) :
    (s.place row entry).length = row.length := by
  unfold place
  split
  · exact List.length_set
  · rfl

theorem length_foldl_place (s : Schema) (entries : List (String × Float)) (row : List Float) :
    (entries.foldl s.place row).length = row.length := by
  induction entries generalizing row with
  | nil => rfl
  | cons entry rest ih => rw [List.foldl_cons, ih, length_place]

theorem length_align (s : Schema) (v : FeatureVector) : (s.align v).length = s.width := by
  unfold align
  rw [length_foldl_place, List.length_replicate]

/-- Names in order of first appearance, and where each of them stands. -/
structure Builder where
  names : List String := []
  seen : List (String × Nat) := []

namespace Builder

/-- Takes a name in, unless it was seen. -/
def add (b : Builder) (name : String) : Builder :=
  match b.seen.lookup name with
  | some _ => b
  | none => ⟨b.names ++ [name], b.seen ++ [(name, b.names.length)]⟩

/-- A builder that has seen some names. -/
def ofBase (base : List String) : Builder :=
  base.foldl add {}

/-- Takes in the names of a vector. -/
def observe (b : Builder) (v : FeatureVector) : Builder :=
  v.names.foldl add b

/-- The schema of the names, or what is wrong with them. -/
def build (b : Builder) : Except SchemaFault Schema :=
  ofNames b.names

end Builder

/-- The schema of some vectors: base names first, then the others in order of first appearance. -/
def ofVectors (base : List String) (vectors : List FeatureVector) : Except SchemaFault Schema :=
  (vectors.foldl Builder.observe (.ofBase base)).build

/-- A schema as JSON. -/
def toJson (s : Schema) : Json := .arr (s.names.map .str)

/-- The schema that a JSON value encodes. -/
def ofJson (v : Json) : Json.Decoded Schema := do
  match ofNames (← v.asList Json.asString) with
  | .ok s => return s
  | .error fault => throw fault.toDecodeFault

end Schema

end QueryForecast
