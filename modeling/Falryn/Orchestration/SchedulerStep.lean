import Falryn.Lib.StateMachine
import Falryn.Orchestration.Scheduler

/-!
# Runs of the scheduler

Everything that can happen to a scheduler is one of the events below, and a run is any list of them.
A generation's code is cut where other code can run: at its awaits, and after each call of a runner,
which may call the scheduler again before it returns.  The parts of one generation run in their
order; everything else interleaves freely.

Clock readings, the answers of `admit`, reservation ids and what the runners do are inputs of the
events.  Each reading of the clock in a loop over entries may give another instant.
-/

namespace Falryn.Orchestration

variable {Value Receipt : Type}

/-- What can happen. -/
inductive SchedulerEvent (Value Receipt : Type) where
  /-- `schedule` is called. -/
  | schedule (work : List Scheduler.Submission) (aborted : Bool)
  /-- A generation goes through the top of its loop. -/
  | loop (g : ℕ) (deadlineNow readyNow : ℕ → ℕ)
  /-- It tries the next ready entry. -/
  | tryReady (g : ℕ) (admission : Scheduler.Admission Receipt) (reservationId : String) (throws : Bool)
  /-- It reaches the end of a round. -/
  | conclude (g : ℕ) (now : ℕ → ℕ)
  /-- The lock deadline a generation waits for passes. -/
  | lockTimer (g : ℕ) (now : ℕ)
  /-- The promise of a runner is fulfilled. -/
  | fulfil (arrival : ℕ) (value : Value)
  /-- The promise of a runner is rejected. -/
  | reject (arrival : ℕ)
  /-- A runner calls `reportPartial`. -/
  | reportPartial (arrival : ℕ) (value : Value)
  /-- The race of a started unit is decided and its continuation runs. -/
  | finish (arrival : ℕ) (raced : Scheduler.Raced Value) (now : ℕ)
  /-- The `finally` of an execution runs. -/
  | forget (arrival : ℕ)
  /-- The signal of a generation is aborted. -/
  | abort (g : ℕ)
  /-- A cancellation scope is cancelled. -/
  | cancelScope (scopeId : String)
  /-- The owner of external capacity reports a change. -/
  | capacityChanged
  /-- Somebody else uses the budget ledger. -/
  | ledgerCall (call : BudgetLedger.Call)

/-- Whether the event is the call of a runner that throws before it returns a promise. -/
def SchedulerEvent.throwsSynchronously : SchedulerEvent Value Receipt → Bool
  | .tryReady _ _ _ throws => throws
  | _ => false

/-- The generation whose loop an event runs. -/
def SchedulerEvent.runs : SchedulerEvent Value Receipt → Option ℕ
  | .loop g _ _ | .tryReady g _ _ _ | .conclude g _ => some g
  | _ => none

/-- Whether the event is the continuation of a started unit. -/
def SchedulerEvent.isFinish : SchedulerEvent Value Receipt → Bool
  | .finish _ _ _ => true
  | _ => false

namespace Entry

/-- Whether the race of a started unit can be won by `raced`.  A runner that threw is in no race:
its closure was left before the race began. -/
def decides (e : Entry Value Receipt) (raced : Scheduler.Raced Value) (now : ℕ)
    [DecidableEq Value] : Bool :=
  e.runner ≠ .threw &&
    match raced with
    | .value value => e.runner = .fulfilled value
    | .error => e.runner = .rejected
    | .expired => e.unit.deadline.any fun deadline => now ≥ deadline
    | .aborted => e.aborted

end Entry

namespace Scheduler

variable (s : Scheduler Value Receipt)

def status? (g : ℕ) : Option (GenerationStatus Value Receipt) :=
  (s.generations[g]?).map Generation.status

/-- The end of an execution: it leaves the map of inflight ones, and a generation parked on it goes
round again, or fails with it. -/
def forget (e : Entry Value Receipt) : Scheduler Value Receipt :=
  s.updateGeneration e.generation fun gen =>
    { gen with
      inflight := gen.inflight.erase e.arrival
      status := match gen.status with
        | .parked _ _ => if e.runner matches .threw then .rejected else .looping
        | status => status }

/-- The abort of a generation's signal reaches its started units, and wakes whoever is parked as long
as the generation listens. -/
def abort (g : ℕ) : Scheduler Value Receipt :=
  let s₁ := (s.updateGeneration g fun gen => { gen with aborted := true }).mapEntries fun e =>
    if e.generation = g ∧ e.state = .running then { e with aborted := true } else e
  match s.status? g with
  | some (.returned _) => s₁
  | _ => s₁.notifyCapacityChanged

/-- The cancellation of a scope reaches the units started under it. -/
def cancelScope (scopeId : String) : Scheduler Value Receipt :=
  { s.mapEntries fun e =>
      if e.unit.scopeId = some scopeId ∧ e.state = .running then { e with aborted := true }
      else e with
    cancelledScopes := scopeId :: s.cancelledScopes }

/-- The subscription of every generation that is not over. -/
def capacityChanged : Scheduler Value Receipt :=
  (s.mapEntries fun e =>
    match s.status? e.generation with
    | some (.returned _) => e
    | _ => { e with capacityBlocked := false }).notifyCapacityChanged

/-- **One step.** -/
def step [DecidableEq Value] (config : SchedulerConfig) :
    Scheduler Value Receipt → SchedulerEvent Value Receipt → Option (Scheduler Value Receipt)
  | s, .schedule work aborted => some (s.schedule config.limits work aborted)
  | s, .loop g deadlineNow readyNow =>
    match s.generations[g]? with
    | some gen =>
      match gen.status with
      | .looping => some (s.loop config.limits g gen deadlineNow readyNow)
      | _ => none
    | none => none
  | s, .tryReady g admission reservationId throws =>
    match s.status? g with
    | some (.admitting (arrival :: rest) skipped) =>
      (s.entryAt arrival).map fun e => s.tryReady config g e rest skipped admission reservationId throws
    | _ => none
  | s, .conclude g now =>
    match s.status? g with
    | some (.admitting [] skipped) => some (s.conclude config.limits g skipped now)
    | _ => none
  | s, .lockTimer g now =>
    match s.status? g with
    | some (.parked _ (some deadline)) => if now ≥ deadline then some (s.setStatus g .looping) else none
    | _ => none
  | s, .fulfil arrival value =>
    (s.entryAt arrival).bind fun e =>
      if e.runner = .pending then
        some (s.updateEntry arrival fun x => { x with runner := .fulfilled value })
      else none
  | s, .reject arrival =>
    (s.entryAt arrival).bind fun e =>
      if e.runner = .pending then
        some (s.updateEntry arrival fun x => { x with runner := .rejected })
      else none
  | s, .reportPartial arrival value =>
    (s.entryAt arrival).bind fun e =>
      if e.runner ≠ .idle then
        some (s.updateEntry arrival fun x => { x with partialValue := some value })
      else none
  | s, .finish arrival raced now =>
    (s.entryAt arrival).bind fun e =>
      if e.state = .running ∧ e.decides raced now = true then some (s.finish e raced) else none
  | s, .forget arrival =>
    (s.entryAt arrival).bind fun e =>
      if (e.state = .settled ∨ e.runner = .threw)
          ∧ (s.generations[e.generation]?).any (fun gen => arrival ∈ gen.inflight) = true then
        some (s.forget e)
      else none
  | s, .abort g =>
    if (s.generations[g]?).any (fun gen => !gen.aborted) then some (s.abort g) else none
  | s, .cancelScope scopeId => some (s.cancelScope scopeId)
  | s, .capacityChanged => some s.capacityChanged
  | s, .ledgerCall call =>
    -- reservation ids are random and never leave the scheduler
    if ∀ e ∈ s.entries, ∀ id, e.reservation = some id → call.reservationId? ≠ some id then
      some { s with ledger := s.ledger.call call }
    else none

/-- The states a scheduler over a ledger can reach, with the events that lead there. -/
def Reaches [DecidableEq Value] (config : SchedulerConfig) (ledger : BudgetLedger)
    (events : List (SchedulerEvent Value Receipt)) (s : Scheduler Value Receipt) : Prop :=
  StateMachine.run (step config) (createScheduler ledger) events = some s

end Scheduler

end Falryn.Orchestration
