import QueryForecast.Json.Printer
import QueryForecast.Model.Basic
import QueryForecast.Storage.Writing

/-!
# Model artifacts

A model is kept as one JSON document. Reading checks that it can be served: that its parts are there
and fit together, and that every tree is well-formed. So a model that was read never fails to
predict.

A document is decoded while it is read: the first fault in the order of its text is the one
reported, and what is left of the text after a fault does not matter.
-/

namespace QueryForecast

/-- Why a document is not a servable model. -/
inductive ArtifactFault where
  | undecodable (fault : DecodeFault)
  | version (found : UInt32)
  | untrained
  | noSchema
  | noTrees
  | width (expected columns : Nat)
  | ensemble (fault : EnsembleFault)
  deriving DecidableEq, Repr

/-- The text of an artifact fault. -/
def ArtifactFault.message : ArtifactFault → String
  | .undecodable fault => "Failed to deserialize model: " ++ fault.message
  | .version found =>
    "unsupported format version " ++ toString found ++ ", expected " ++ toString formatVersion
  | .untrained => "model is not trained"
  | .noSchema => "missing feature schema"
  | .noTrees => "missing trees"
  | .width expected columns =>
    "trees expect " ++ toString expected ++ " features, schema has " ++ toString columns
  | .ensemble fault => fault.message

namespace Model

/-- A model as JSON. -/
def toJson (m : Model) : Json :=
  .obj [
    ("format_version", .ofNat m.formatVersion.toNat),
    ("target", m.target.toJson),
    ("schema", .ofOption Schema.toJson m.schema),
    ("booster", .ofOption Ensemble.toJson m.ensemble),
    ("trained", .bool m.trained),
    ("config", m.settings.toJson),
    ("metrics", .ofOption Quality.toJson m.quality),
    ("training_samples", .ofNat m.trainingRows),
    ("trained_at", .ofOption Query.timestampToJson m.trainedAt)]

/-- The fields of an encoded model. -/
def form : Json.RecordForm where
  fields := ["format_version", "target", "schema", "booster", "trained", "config", "metrics",
    "training_samples", "trained_at"]
  required := ["format_version", "target"]
  leading := 4

/-- How the fields are read from text. -/
def outlines : List (String × Json.Outline) :=
  Json.Outline.fields form.fields
    [("booster", Ensemble.outline), ("config", Settings.outline), ("metrics", Quality.outline)]

/-- Reads one field. -/
def set (name : String) (v : Json) (m : Model) : Json.Decoded Model :=
  match name with
  | "format_version" => do
    let n ← v.asNat
    if n < 0x100000000 then return { m with formatVersion := UInt32.ofNat n } else throw .shape
  | "target" => do return { m with target := ← Target.ofJson v }
  | "schema" => do return { m with schema := ← v.asOption Schema.ofJson }
  | "booster" => do return { m with ensemble := ← v.asOption Ensemble.ofJson }
  | "trained" => do return { m with trained := ← v.asBool }
  | "config" => do return { m with settings := ← Settings.ofJson v }
  | "metrics" => do return { m with quality := ← v.asOption Quality.ofJson }
  | "training_samples" => do return { m with trainingRows := ← v.asNat }
  | "trained_at" => do return { m with trainedAt := ← v.asOption Query.timestampOfJson }
  | _ => .ok m

/-- The model that a JSON value encodes, servable or not. -/
def decode (v : Json) : Json.Decoded Model :=
  v.asRecord form set (untrained .cardinality {})

/-- Why a model cannot be served, if it cannot. -/
def artifactFault? (m : Model) : Option ArtifactFault :=
  if m.formatVersion ≠ QueryForecast.formatVersion then some (.version m.formatVersion)
  else if ¬ m.trained then some .untrained
  else
    match m.schema, m.ensemble with
    | none, _ => some .noSchema
    | some _, none => some .noTrees
    | some schema, some ensemble =>
      if ensemble.width ≠ schema.width then some (.width ensemble.width schema.width)
      else ensemble.fault?.map .ensemble

/-- The servable model that a JSON value encodes. -/
def ofJson (v : Json) : Except ArtifactFault Model :=
  match decode v with
  | .error fault => .error (.undecodable fault)
  | .ok m =>
    match m.artifactFault? with
    | some fault => .error fault
    | none => .ok m

/-- Why a document is not decodable whose text breaks off, or goes on, after a value: the first
fault of the value, or else the break. -/
def brokenFault (v : Json) : DecodeFault :=
  match decode v with
  | .error fault => fault
  | .ok _ => .shape

/-- The document of a model. -/
def toText (m : Model) : String :=
  m.toJson.indented

/-- The servable model of a document. -/
def ofText (text : String) : Except ArtifactFault Model :=
  let (v, whole) := Json.excerpt outlines text
  if whole then ofJson v else .error (.undecodable (brokenFault v))

/-- The servable model of a document, a fault being a failure to decode. A document is a text: bytes
that are none are refused before this, in `load`. -/
def parse (text : String) : Except Failure Model :=
  match ofText text with
  | .ok m => .ok m
  | .error fault => .error (.serialization fault.message)

/-- Writes the document of a model to a file, and what is left of the storage. -/
def save (m : Model) (s : Storage) (path : String) : Except Failure Unit × Storage :=
  if m.isTrained then
    match s.replace path (bytesOf m.toText) with
    | (true, s) => (.ok (), s)
    | (false, s) => (.error .fileAccess, s)
  else (.error .notTrained, s)

/-- The servable model of the document in a file. Bytes that are no text are refused as a document
that cannot be decoded. -/
def load (s : Storage) (path : String) : Except Failure Model :=
  match s.read? path with
  | none => .error (.modelLoad path fileAccessReason)
  | some bytes =>
    match String.fromUTF8? ⟨bytes.toArray⟩ with
    | none => .error (.modelLoad path (ArtifactFault.undecodable .shape).message)
    | some text =>
      match ofText text with
      | .ok m => .ok m
      | .error fault => .error (.modelLoad path fault.message)

end Model

end QueryForecast
