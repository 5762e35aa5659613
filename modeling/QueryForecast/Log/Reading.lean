import QueryForecast.Log.Line
import QueryForecast.Storage.Basic
import QueryForecast.Text.Blank

/-!
# Reading execution logs

A log is a sequence of bytes, split at line breaks. Each line is blank, a usable record, or skipped:
one that is not text, or whose text is not usable, costs no other line anything.
-/

namespace QueryForecast

/-- What a line of a log comes to. -/
inductive LineReading where
  | blank
  | usable (record : ExecutionRecord)
  | skipped

/-- The records of a log, and how many lines it has. -/
structure LogReading where
  /-- The usable records in log order. -/
  records : List ExecutionRecord := []
  /-- The lines, not counting blank ones, that are not usable. -/
  skipped : Nat := 0
  /-- The lines, not counting blank ones. -/
  lines : Nat := 0

namespace LogReading

/-- The byte that ends a line. -/
def lineBreak : UInt8 := 10

/-- The text of a line, without blanks at its ends, if its bytes are text. -/
def lineText? (bytes : List UInt8) : Option String :=
  (String.fromUTF8? ⟨bytes.toArray⟩).map fun s => String.ofList (Text.trim s.toList)

/-- What a line comes to. -/
def readLine (t : Target) (bytes : List UInt8) : LineReading :=
  match lineText? bytes with
  | none => .skipped
  | some text =>
    if text.isEmpty then .blank
    else
      match ExecutionRecord.ofLine t text with
      | .ok record => .usable record
      | .error _ => .skipped

/-- Puts what the first line comes to in front of what the others come to. -/
def add (line : LineReading) (rest : LogReading) : LogReading :=
  match line with
  | .blank => rest
  | .usable record => { rest with records := record :: rest.records, lines := rest.lines + 1 }
  | .skipped => { rest with skipped := rest.skipped + 1, lines := rest.lines + 1 }

/-- Reads a log. -/
def read (t : Target) (bytes : List UInt8) : LogReading :=
  (bytes.splitOn lineBreak).foldr (fun line rest => add (readLine t line) rest) {}

/-- Reads the log at a path. -/
def load (t : Target) (s : Storage) (path : String) : Except Failure LogReading :=
  if s.contains path then
    match s.read? path with
    | some bytes => .ok (read t bytes)
    | none => .error .fileAccess
  else .error (.logNotFound path)

end LogReading

end QueryForecast
