/-!
# Errors

What an operation of the library can fail with. A defect of a single log record is set apart from
the others: reading and training pass over such a record and go on.
-/

namespace QueryForecast

/-- Why an operation failed. -/
inductive Failure where
  /-- A record of an execution log cannot be used. -/
  | malformedRecord (line : Nat) (reason : String)
  /-- There are too few usable records to train on. -/
  | insufficientData (found required : Nat)
  /-- A model that was never fitted was asked to predict or to be saved. -/
  | notTrained
  /-- A model artifact is missing, corrupt or incomplete. -/
  | modelLoad (path reason : String)
  /-- There is no execution log to train from. -/
  | logNotFound (path : String)
  /-- A model cannot be encoded or decoded. -/
  | serialization (reason : String)
  /-- A file cannot be read or written. -/
  | fileAccess
  /-- An argument is out of its range. -/
  | invalidArgument (reason : String)
  deriving DecidableEq, Repr

/-- How file access faults are worded; the system's own words are not part of a message. -/
def fileAccessReason : String := "<io>"

/-- The text of a failure. -/
def Failure.message : Failure → String
  | .malformedRecord line reason => "Malformed record at line " ++ toString line ++ ": " ++ reason
  | .insufficientData found required =>
    "Insufficient training data: found " ++ toString found ++ " valid records, need at least " ++
      toString required ++ ". Collect more query logs before training."
  | .notTrained => "Model is not trained"
  | .modelLoad path reason => "Failed to load model from " ++ path ++ ": " ++ reason
  | .logNotFound path => "Log file not found: " ++ path
  | .serialization reason => "Serialization error: " ++ reason
  | .fileAccess => "I/O error: " ++ fileAccessReason
  | .invalidArgument reason => "Invalid argument: " ++ reason

/-- Whether training passes over what failed and goes on. -/
def Failure.isRecordLevel : Failure → Bool
  | .malformedRecord _ _ => true
  | _ => false

end QueryForecast
