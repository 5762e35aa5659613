import QueryForecast.Boosting.Settings
import QueryForecast.Target

/-!
# Training plans

What a training run is asked to do: the target, how many records it needs, which of them it holds
out, and the settings of the fit.
-/

namespace QueryForecast

open Decimal

/-- The fewest records that can be divided into two parts. -/
def minDivisible : Nat := 2

/-- How a training run is set up. -/
structure TrainingPlan where
  target : Target := .selectivity
  /-- The fewest usable records to train on. -/
  minRecords : Nat := 1000
  /-- The fraction of the records that is held out. -/
  heldOutFraction : Float := 0.2
  /-- The seed of the order in which records are held out. -/
  divisionSeed : UInt64 := 42
  settings : Settings := {}
  /-- The mean absolute error that a selectivity model is expected to stay below. -/
  maeGoal : Float := 0.05
  deriving DecidableEq, Repr, Inhabited

/-- Why a plan cannot be carried out. -/
inductive PlanFault where
  | heldOutFraction (x : Float)
  | settings (fault : SettingsFault)
  deriving DecidableEq, Repr

/-- The text of a plan fault. -/
def PlanFault.message : PlanFault → String
  | .heldOutFraction x => "test fraction must be within (0, 1), got " ++ messageText x
  | .settings fault => fault.message

namespace TrainingPlan

/-- The usual plan for a target. -/
def ofTarget (t : Target) : TrainingPlan :=
  { target := t }

/-- The plan with one seed for both the division and the fit. -/
def withSeed (p : TrainingPlan) (seed : UInt64) : TrainingPlan :=
  { p with divisionSeed := seed, settings := { p.settings with seed := seed } }

/-- What is wrong with a plan, if anything. -/
def fault? (p : TrainingPlan) : Option PlanFault :=
  if ¬ (0.0 < p.heldOutFraction ∧ p.heldOutFraction < 1.0) then
    some (.heldOutFraction p.heldOutFraction)
  else p.settings.fault?.map .settings

/-- The number of usable records that a run needs. -/
def requiredRecords (p : TrainingPlan) : Nat :=
  max p.minRecords minDivisible

/-- A plan as JSON. -/
def toJson (p : TrainingPlan) : Json :=
  .obj [
    ("target", p.target.toJson),
    ("min_samples", .ofNat p.minRecords),
    ("test_fraction", .ofFloat p.heldOutFraction),
    ("split_seed", .ofNat p.divisionSeed.toNat),
    ("boosting", p.settings.toJson),
    ("selectivity_mae_target", .ofFloat p.maeGoal)]

/-- The fields of an encoded plan. -/
def form : Json.RecordForm where
  fields := ["target", "min_samples", "test_fraction", "split_seed", "boosting",
    "selectivity_mae_target"]

/-- Reads one field. -/
def set (name : String) (v : Json) (p : TrainingPlan) : Json.Decoded TrainingPlan :=
  match name with
  | "target" => do return { p with target := ← Target.ofJson v }
  | "min_samples" => do return { p with minRecords := ← v.asNat }
  | "test_fraction" => do return { p with heldOutFraction := ← v.asFloat }
  | "split_seed" => do return { p with divisionSeed := UInt64.ofNat (← v.asNat) }
  | "boosting" => do return { p with settings := ← Settings.ofJson v }
  | "selectivity_mae_target" => do return { p with maeGoal := ← v.asFloat }
  | _ => .ok p

/-- The plan that a JSON value encodes. -/
def ofJson (v : Json) : Json.Decoded TrainingPlan :=
  v.asRecord form set {}

end TrainingPlan

end QueryForecast
