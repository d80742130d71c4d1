import Falryn.Orchestration.Outcome

/-!
# Work units

What the scheduler is asked to run (`domain/orchestration/work.ts`) and what it answers
(`domain/orchestration/scheduling.ts`).  A unit's own retry policy is read by nobody here and is left
out.
-/

namespace Falryn.Orchestration

/-- What a unit does to the world. -/
inductive EffectClass where
  | observation
  | mutation
  | external
  | interactive
  deriving DecidableEq

/-- Queue order, highest first. -/
inductive PriorityClass where
  | interactive
  | activeTurn
  | userVisibleBackground
  | maintenance
  deriving DecidableEq

def priorityRank : PriorityClass → ℕ
  | .interactive => 0
  | .activeTurn => 1
  | .userVisibleBackground => 2
  | .maintenance => 3

/-- A declared unit of work.  Instants are milliseconds. -/
structure WorkUnit where
  id : String
  effect : EffectClass
  priority : PriorityClass
  conflictKeys : List String
  dependencies : List String
  deadline : Option ℕ
  expectedOutputBytes : ℚ
  scopeId : Option String
  deriving DecidableEq

/-- `GLOBAL_CONFLICT_KEY`. -/
def globalConflictKey : String := "global:*"

/-- `effectiveConflictKeys`: only an observation may declare nothing and contend for nothing. -/
def effectiveConflictKeys (unit : WorkUnit) : List String :=
  if unit.conflictKeys.length > 0 then unit.conflictKeys
  else if unit.effect = .observation then [] else [globalConflictKey]

/-- What a budget meters. -/
inductive BudgetDimension where
  | timeMs
  | costMicros
  | tokens
  | bytes
  | operations
  deriving DecidableEq

/-- Which of the two queue limits was passed. -/
inductive QueueDimension where
  | items
  | bytes
  deriving DecidableEq

/-- Why a unit was refused before it ran.  `Receipt` is the resource ledger's own account of a
refused admission. -/
inductive SchedulingError (Receipt : Type) where
  | resourceAdmission (unitId : String) (receipt : Receipt)
  | queueLimit (unitId : String) (dimension : QueueDimension)
  | unknownDependency (unitId dependsOn : String)
  | dependencyCycle (units : List String)
  | dependencyFailed (unitId dependsOn : String) (dependencyOutcome : TerminalOutcome)
  | duplicateUnit (unitId : String)
  | lockAcquisitionTimeout (unitId conflictKey : String) (deadline : ℕ)
  | concurrencyLimit (unitId : String) (limit : ℕ)
  | budgetExhausted (unitId : String) (dimension : BudgetDimension) (remaining : ℤ)
  deriving DecidableEq

/-- What a caller can do about a refusal. -/
inductive RecoveryOption where
  | retryLater
  | raiseLimit
  | reduceScope
  | awaitCompetingWork
  | resubmitWithoutFailedDependency
  deriving DecidableEq

def recoveryFor {Receipt : Type} : SchedulingError Receipt → List RecoveryOption
  | .resourceAdmission _ _ => [.raiseLimit, .reduceScope, .retryLater]
  | .queueLimit _ _ => [.raiseLimit, .reduceScope, .retryLater]
  | .budgetExhausted _ _ _ => [.raiseLimit, .reduceScope, .retryLater]
  | .lockAcquisitionTimeout _ _ _ => [.awaitCompetingWork, .retryLater]
  | .concurrencyLimit _ _ => [.retryLater, .raiseLimit]
  | .dependencyFailed _ _ _ => [.resubmitWithoutFailedDependency, .retryLater]
  | .dependencyCycle _ => [.reduceScope]
  | .unknownDependency _ _ => [.reduceScope]
  | .duplicateUnit _ => [.reduceScope]

/-- What happened to one submitted unit.  Only `refused` says that it never ran. -/
inductive SchedulingResult (Value Receipt : Type) where
  | completed (unitId : String) (value : Value)
  | refused (unitId : String) (error : SchedulingError Receipt) (outcome : TerminalOutcome)
      (recovery : List RecoveryOption)
  | settled (unitId : String) (outcome : TerminalOutcome) (partialValue : Option Value)
  deriving DecidableEq

namespace SchedulingResult

variable {Value Receipt : Type}

/-- The unit a result is about. -/
def unitId : SchedulingResult Value Receipt → String
  | completed id _ => id
  | refused id _ _ _ => id
  | settled id _ _ => id

/-- `result.kind === "completed"`. -/
def isCompleted : SchedulingResult Value Receipt → Bool
  | completed _ _ => true
  | _ => false

/-- `result.kind === "refused"`. -/
def isRefused : SchedulingResult Value Receipt → Bool
  | refused _ _ _ _ => true
  | _ => false

end SchedulingResult

structure SchedulerLimits where
  maxConcurrent : ℕ
  maxConcurrentPerKey : ℕ
  lockAcquisitionTimeoutMs : ℕ
  starvationThreshold : ℕ
  maxQueued : Option ℕ
  maxQueuedBytes : Option ℕ
  reservedInteractive : Option ℕ

/-- `DEFAULT_SCHEDULER_LIMITS`. -/
def defaultSchedulerLimits : SchedulerLimits :=
  { maxConcurrent := 8
    maxConcurrentPerKey := 1
    lockAcquisitionTimeoutMs := 30000
    starvationThreshold := 8
    maxQueued := none
    maxQueuedBytes := none
    reservedInteractive := none }

end Falryn.Orchestration
