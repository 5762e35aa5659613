import QueryForecast.Json.Parser
import QueryForecast.Json.Printer
import QueryForecast.Log.Record

/-!
# Log lines

An execution log has one record a line. A line is usable for a target when it is a JSON object with
every field that the target needs, decodes as a record, and has a valid outcome.
-/

namespace QueryForecast

/-- Why a log line is not usable. -/
inductive LineFault where
  | notJson
  | notAnObject
  | missingField (name : String)
  | statsNotAnObject
  | profileNotAnObject
  | undecodable (fault : DecodeFault)
  | outcome (fault : OutcomeFault)
  deriving DecidableEq, Repr

/-- The text of a line fault. -/
def LineFault.message (t : Target) : LineFault → String
  | .notJson => "invalid JSON"
  | .notAnObject => "record is not a JSON object"
  | .missingField name => "missing field `" ++ name ++ "`"
  | .statsNotAnObject => "`table_stats` is not an object"
  | .profileNotAnObject => "`features` is not an object"
  | .undecodable fault => fault.message
  | .outcome fault => t.faultMessage fault

namespace ExecutionRecord

/-- What a target asks of the parts of a record, beyond that they are there. -/
def partFault? (t : Target) (entries : Json.Entries) : Option LineFault :=
  match t with
  | .cardinality =>
    match entries.get? "table_stats" with
    | some (.obj stats) =>
      (["row_count", "distinct_count"].find? fun name => !Json.Entries.has stats name).map
        fun name => .missingField ("table_stats." ++ name)
    | _ => some .statsNotAnObject
  | .selectivity =>
    match entries.get? "features" with
    | some (.obj _) => none
    | _ => some .profileNotAnObject

/-- The first field that a target needs and the entries lack. -/
def missingField? (t : Target) (entries : Json.Entries) : Option LineFault :=
  (t.requiredFields.find? fun name => !entries.has name).map .missingField

/-- The usable record that a JSON value encodes. -/
def ofLogValue (t : Target) (v : Json) : Except LineFault ExecutionRecord :=
  match v with
  | .obj entries =>
    match (missingField? t entries).orElse fun _ => partFault? t entries with
    | some fault => .error fault
    | none =>
      match ofJson v with
      | .error fault => .error (.undecodable fault)
      | .ok record =>
        match record.outcome t with
        | .error fault => .error (.outcome fault)
        | .ok _ => .ok record
  | _ => .error .notAnObject

/-- The usable record of a log line. -/
def ofLine (t : Target) (line : String) : Except LineFault ExecutionRecord :=
  match Json.parse? line with
  | some v => ofLogValue t v
  | none => .error .notJson

/-- The usable record of the log line with the given number. -/
def parseLine (t : Target) (number : Nat) (line : String) : Except Failure ExecutionRecord :=
  match ofLine t line with
  | .ok record => .ok record
  | .error fault => .error (.malformedRecord number (fault.message t))

/-- The log line of a record, without its line break. -/
def toLine (r : ExecutionRecord) : String :=
  r.toJson.compact

end ExecutionRecord

end QueryForecast
