import QueryForecast.Command.Options
import QueryForecast.Command.Summary

/-!
# The training command

Trains a model on a log, writes its artifact and prints a summary. The command is a function of its
arguments, of the files it finds and of the current time.
-/

namespace QueryForecast

open Time

/-- What a command leaves behind. -/
structure CommandResult where
  exitCode : UInt8
  /-- What it prints. -/
  out : String := ""
  /-- What it prints about failures. -/
  err : String := ""
  storage : Storage

/-- How the training command is used. -/
def usageText : String :=
  "Usage: train --log-file FILE [--output-model FILE] [--test-size FRACTION]\n" ++
  "             [--min-samples COUNT] [--target selectivity|cardinality] [--seed SEED]\n"

/-- What the training command says about its version: that of the artifacts it writes. -/
def versionText : String :=
  "train, model format " ++ toString formatVersion ++ "\n"

/-- The result of the training command when no run is asked for. -/
def Refusal.result (s : Storage) : Refusal → CommandResult
  | .usage => { exitCode := 2, err := usageText, storage := s }
  | .help => { exitCode := 0, out := usageText, storage := s }
  | .version => { exitCode := 0, out := versionText, storage := s }

/-- Runs the training command. -/
def trainCommand (arguments : List String) (s : Storage) (now : Timestamp) : CommandResult :=
  match TrainOptions.ofArguments arguments with
  | .error refusal => refusal.result s
  | .ok options =>
    match options.plan.trainFromLog s options.logFile options.outputModel now with
    | (.error failure, s) =>
      { exitCode := 1, err := "Error: " ++ failure.message ++ "\n", storage := s }
    | (.ok report, s) => { exitCode := 0, out := report.summary, storage := s }

end QueryForecast
