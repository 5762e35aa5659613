import QueryForecast.Command.Argument
import QueryForecast.Decimal.Reading
import QueryForecast.Training.Plan

/-!
# Options of the training command

Every option is long, takes a value and is given at most once. Its value is attached with an equals
sign or is the next argument, which then must not start with a dash.

Arguments are read from left to right, and the first that is out of order decides: a request for
help or for the version counts only when nothing was wrong before it.
-/

namespace QueryForecast

open Decimal

/-- What the training command is asked to do. -/
structure TrainOptions where
  /-- The path of the log. -/
  logFile : String
  /-- The path that the model is written to. -/
  outputModel : String
  plan : TrainingPlan
  deriving DecidableEq, Repr

/-- Why no training run is asked for. -/
inductive Refusal where
  /-- The arguments are not understood. -/
  | usage
  | help
  | version
  deriving DecidableEq, Repr

/-- The path that a model is written to when no other is given. -/
def defaultOutputModel : String := "filter_selectivity_model.json"

/-- The option values that were given so far. -/
structure GivenOptions where
  logFile : Option String := none
  outputModel : Option String := none
  testSize : Option Float := none
  minSamples : Option Nat := none
  target : Option Target := none
  seed : Option UInt64 := none
  deriving DecidableEq, Repr

namespace GivenOptions

/-- The names of the options. -/
def names : List String :=
  ["log-file", "output-model", "test-size", "min-samples", "target", "seed"]

/-- A path, which is not empty. -/
def path? (text : String) : Option String :=
  if text.isEmpty then none else some text

/-- A natural number of 64 bits. -/
def count? (text : String) : Option Nat :=
  (readNat? text.toList).filter (· < 0x10000000000000000)

/-- A value that is read for the first time. -/
def once {α : Type} (before value : Option α) : Option (Option α) :=
  if before.isSome then none else value.map some

/-- Takes the value of an option, unless it was given before or the text is no value of it. -/
def give (g : GivenOptions) (name text : String) : Option GivenOptions :=
  match name with
  | "log-file" => do return { g with logFile := ← once g.logFile (path? text) }
  | "output-model" => do return { g with outputModel := ← once g.outputModel (path? text) }
  | "test-size" => do return { g with testSize := ← once g.testSize (readFloat? text.toList) }
  | "min-samples" => do return { g with minSamples := ← once g.minSamples (count? text) }
  | "target" => do return { g with target := ← once g.target (Target.parse text).toOption }
  | "seed" => do return { g with seed := ← once g.seed ((count? text).map UInt64.ofNat) }
  | _ => none

/-- Takes the values of all options from some arguments. `pending` is an option whose value comes
next. -/
def read (g : GivenOptions) (pending : Option String) : List String → Except Refusal GivenOptions
  | [] => if pending.isSome then .error .usage else .ok g
  | text :: rest =>
    match pending, Argument.ofText text with
    | some name, .plain value
    | none, .assignment name value =>
      match g.give name value with
      | some g => read g none rest
      | none => .error .usage
    | none, .option name => if names.contains name then read g (some name) rest else .error .usage
    | none, .endOfOptions => if rest.isEmpty then .ok g else .error .usage
    | none, .help => .error .help
    | none, .version => .error .version
    | _, _ => .error .usage

/-- The plan of the options; what was not given is as usual. -/
def plan (g : GivenOptions) : TrainingPlan :=
  let usual := TrainingPlan.ofTarget (g.target.getD .selectivity)
  { usual with
    minRecords := g.minSamples.getD usual.minRecords
    heldOutFraction := g.testSize.getD usual.heldOutFraction }.withSeed
      (g.seed.getD usual.divisionSeed)

end GivenOptions

/-- What some arguments ask for. -/
def TrainOptions.ofArguments (arguments : List String) : Except Refusal TrainOptions := do
  let g ← GivenOptions.read {} none arguments
  match g.logFile with
  | some logFile => return ⟨logFile, g.outputModel.getD defaultOutputModel, g.plan⟩
  | none => throw .usage

end QueryForecast
