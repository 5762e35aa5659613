import QueryForecast.Command.Run
import Std.Time.DateTime.Timestamp

/-!
# The training program

Runs the training command on the files of the machine: finds the log, hands it to `trainCommand`,
and writes the model that this leaves in the storage.
-/

namespace QueryForecast

open Time

/-- The current time. -/
def currentTime : IO Timestamp := do
  let t ← Std.Time.Timestamp.now
  return .ofNanos t.toNanosecondsSinceUnixEpoch.val

/-- What a path of the machine leads to. What is there and is no readable file counts as a
directory. -/
def probe (path : String) : IO (Option Stored) := do
  try
    return some (.file (← IO.FS.readBinFile path).toList)
  catch
    | .noFileOrDirectory .. => return none
    | .inappropriateType (some _) .. => return none
    | _ => return some .directory

/-- The storage with what a path of the machine leads to. -/
def storageAt (path : String) : IO Storage := do
  match ← probe path with
  | some (.file bytes) => return (({} : Storage).append path bytes).2
  | some .directory =>
    let p := Path.ofString path
    return (({} : Storage).makeDirectories (Path.ancestors p.rooted p.backwards)).2
  | none => return {}

/-- Gives a file of the machine new content in one step. -/
def replaceFile (path : String) (bytes : List UInt8) : IO Unit := do
  let p := Path.ofString path
  if let some above := p.directories.head? then IO.FS.createDirAll above.text
  let staging := p.staging.text
  IO.FS.writeBinFile staging ⟨bytes.toArray⟩
  try
    IO.FS.rename staging path
  catch fault =>
    IO.FS.removeFile staging
    throw fault

/-- Writes the model of a run. -/
def writeModel (options : TrainOptions) (result : CommandResult) : IO Unit := do
  if result.exitCode = 0 then
    match result.storage.read? options.outputModel with
    | some bytes => replaceFile options.outputModel bytes
    | none => return

/-- Prints what a command leaves behind; the result is its exit code. -/
def report (result : CommandResult) : IO UInt32 := do
  IO.print result.out
  IO.eprint result.err
  return result.exitCode.toUInt32

/-- Runs the training command on the files of the machine. -/
def runTrain (arguments : List String) : IO UInt32 := do
  let now ← currentTime
  match TrainOptions.ofArguments arguments with
  | .error refusal => report (refusal.result {})
  | .ok options =>
    let result := trainCommand arguments (← storageAt options.logFile) now
    try
      writeModel options result
      report result
    catch fault =>
      IO.eprint ("Error: I/O error: " ++ toString fault ++ "\n")
      return 1

end QueryForecast

/-- The training program. -/
def main (arguments : List String) : IO UInt32 :=
  QueryForecast.runTrain arguments
