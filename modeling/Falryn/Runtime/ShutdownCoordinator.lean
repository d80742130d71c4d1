import Falryn.Orchestration.ScopeForce

/-!
# The shutdown coordinator

`createShutdownCoordinator` (`application/runtime/shutdown-coordinator.ts`) with the contracts of
`domain/orchestration/shutdown.ts`.  The source is two nested async functions, `run` over the phases
and `runPhase` inside a phase; here the place where they stand, with their local variables, is the
`Stage`, and an `Event` is whatever can happen next: a call from outside, a participant that answers
or throws when it is called, a promise that settles, a wait that ends, time that passes.

The clock stands still while JavaScript runs to the end of a turn of its event loop: time passes only
in a stage where the coordinator has nothing to do but wait.  A participant does not call `shutdown`
from inside the call that starts the first phase.  The diagnostics a phase emits are left out.
-/

namespace Falryn.Runtime

open Orchestration

/-! ## The contracts -/

inductive ShutdownPhase where
  | stopAcceptingWork
  | cancelRootScope
  | stopScheduling
  | drainEvents
  | terminateChildren
  | finalizeArtifacts
  | persistOutcomes
  | checkpointProjections
  | closeStorage
  | restoreTerminal
  deriving DecidableEq

/-- `SHUTDOWN_PHASES`. -/
def shutdownPhases : List ShutdownPhase :=
  [.stopAcceptingWork, .cancelRootScope, .stopScheduling, .drainEvents, .terminateChildren,
    .finalizeArtifacts, .persistOutcomes, .checkpointProjections, .closeStorage, .restoreTerminal]

theorem nodup_shutdownPhases : shutdownPhases.Nodup := by decide

theorem mem_shutdownPhases (phase : ShutdownPhase) : phase ∈ shutdownPhases := by
  cases phase <;> decide

inductive ShutdownLevel where
  | graceful
  | escalated
  | forced

/-- `LEVEL_RANK`. -/
def ShutdownLevel.rank : ShutdownLevel → ℕ
  | graceful => 0
  | escalated => 1
  | forced => 2

/-- `DEFAULT_PHASE_GRACE_MS`. -/
def defaultPhaseGraceMs : ℕ := 5000

/-- `ESCALATED_PHASE_GRACE_MS`. -/
def escalatedPhaseGraceMs : ℕ := 500

/-- `FORCED_PHASE_GRACE_MS`. -/
def forcedPhaseGraceMs : ℕ := 50

def graceForLevel : ShutdownLevel → ℕ
  | .graceful => defaultPhaseGraceMs
  | .escalated => escalatedPhaseGraceMs
  | .forced => forcedPhaseGraceMs

/-- `MAX_SHUTDOWN_PARTICIPANTS`. -/
def maxShutdownParticipants : ℕ := 256

/-- `ShutdownParticipant`.  What its `run` does is not data: it is what the events say. -/
structure ShutdownParticipant where
  name : String
  phase : ShutdownPhase
  deriving DecidableEq

/-- A value that was thrown: an `Error` with its message, or anything else. -/
inductive Thrown where
  | error (message : CodeUnits)
  | other

/-- How a promise settles. -/
inductive ParticipantSettlement where
  | fulfilled
  | rejected (error : Thrown)

inductive ParticipantStatus where
  | completed
  | failed
  | timedOut
  deriving DecidableEq

structure ParticipantReport where
  name : String
  status : ParticipantStatus
  failure : Option CodeUnits

/-- The status of a phase. -/
inductive PhaseStatus where
  | completed
  | timedOut

structure PhaseReport where
  phase : ShutdownPhase
  status : PhaseStatus
  startedAt : ℕ
  endedAt : ℕ
  participants : List ParticipantReport

structure ShutdownReport where
  level : ShutdownLevel
  startedAt : ℕ
  endedAt : ℕ
  phases : List PhaseReport
  unfinished : List String
  failures : List ParticipantReport
  outcome : TerminalOutcome

inductive ShutdownError where
  | shutdownAlreadyStarted (participant : String)
  | duplicateParticipant (participant : String) (phase : ShutdownPhase)
  | participantLimitExceeded (maximumParticipants : ℕ)

/-- `MAX_FAILURE_MESSAGE_LENGTH`. -/
def maxFailureMessageLength : ℕ := 200

def safeFailureMessage (error : Thrown) : CodeUnits :=
  let raw :=
    match error with
    | .error message => message
    | .other => codeUnits "non-error value thrown"
  if maxFailureMessageLength < raw.length then
    raw.take maxFailureMessageLength ++ codeUnits "…"
  else
    raw

/-! ## The state -/

/-- What the outside can see the coordinator do, and what it saw itself. -/
inductive Mark where
  /-- A participant was registered. -/
  | registered (participant : ShutdownParticipant)
  /-- The level rose. -/
  | raised (level : ShutdownLevel) (instant : ℕ)
  /-- A phase began. -/
  | began (phase : ShutdownPhase) (instant : ℕ)
  /-- A participant's `run` was called. -/
  | called (participant : ShutdownParticipant)
  /-- The wait of a phase was armed. -/
  | armed (phase : ShutdownPhase) (deadline : ℕ)
  /-- A participant's promise settled. -/
  | settled (participant : ShutdownParticipant) (settlement : ParticipantSettlement)
  /-- A phase ended. -/
  | ended (phase : ShutdownPhase) (deadline instant : ℕ)

/-- The local variables of `runPhase`. -/
structure PhaseRun where
  phase : ShutdownPhase
  startedAt : ℕ
  phaseParticipants : List ShutdownParticipant
  deadline : ℕ
  reports : OrderedMap String ParticipantReport
  outstanding : ℕ

/-- The local variables of `run`: `rest` is what the loop over the phases still has to do. -/
structure Sequence where
  startedAt : ℕ
  phases : List PhaseReport
  rest : List ShutdownPhase

/-- Where the coordinator stands. -/
inductive Stage where
  /-- `shutdown` has not been called. -/
  | idle
  /-- Inside the `map` that calls the participants of a phase. -/
  | calling (sequence : Sequence) (run : PhaseRun) (todo : List ShutdownParticipant)
  /-- At the `await` of the race; `rearmed` if the level rose since. -/
  | waiting (sequence : Sequence) (run : PhaseRun) (rearmed : Bool)
  /-- At the `await` of `runPhase`, which has returned. -/
  | between (sequence : Sequence)
  /-- The promise of `shutdown` is fulfilled. -/
  | finished (report : ShutdownReport)
  /-- The promise of `shutdown` is rejected. -/
  | rejected (error : Thrown)

/-- The coordinator, with the clock and the scope tree it was given.  `pending` holds the participants
whose promise has not settled, and `log` what happened so far, newest first. -/
structure ShutdownCoordinator where
  clock : ℕ
  participants : List ShutdownParticipant
  currentLevel : ShutdownLevel
  rootScopeId : ScopeId
  scopeTree : Option ScopeTree
  stage : Stage
  pending : List ShutdownParticipant
  log : List Mark

namespace ShutdownCoordinator

/-- `createShutdownCoordinator`. -/
def create (clock : ℕ) (rootScopeId : ScopeId) (scopeTree : Option ScopeTree) :
    ShutdownCoordinator :=
  { clock, participants := [], currentLevel := .graceful, rootScopeId, scopeTree, stage := .idle
    pending := [], log := [] }

/-- `started`. -/
def isShuttingDown (c : ShutdownCoordinator) : Bool :=
  match c.stage with
  | .idle => false
  | _ => true

def register (c : ShutdownCoordinator) (participant : ShutdownParticipant) :
    Except ShutdownError ShutdownCoordinator :=
  if c.isShuttingDown then
    .error (.shutdownAlreadyStarted participant.name)
  else if maxShutdownParticipants ≤ c.participants.length then
    .error (.participantLimitExceeded maxShutdownParticipants)
  else if c.participants.any fun existing =>
      existing.phase = participant.phase && existing.name = participant.name then
    .error (.duplicateParticipant participant.name participant.phase)
  else
    .ok { c with
      participants := c.participants ++ [participant]
      log := .registered participant :: c.log }

/-- Aborting the escalation signal reaches a wait that is armed, and nothing else. -/
def rearm : Stage → Stage
  | .waiting sequence run _ => .waiting sequence run true
  | stage => stage

def raiseLevel (c : ShutdownCoordinator) (level : ShutdownLevel) : ShutdownCoordinator :=
  if level.rank ≤ c.currentLevel.rank then
    c
  else
    { c with
      currentLevel := level
      stage := rearm c.stage
      log := .raised level c.clock :: c.log }

/-! ## One phase -/

/-- The report of a participant that settled. -/
def settledReport (participant : ShutdownParticipant) : ParticipantSettlement → ParticipantReport
  | .fulfilled => ⟨participant.name, .completed, none⟩
  | .rejected error => ⟨participant.name, .failed, some (safeFailureMessage error)⟩

/-- The end of `runPhase`: what has no report by now is reported as timed out. -/
def participantReports (run : PhaseRun) : List ParticipantReport :=
  run.phaseParticipants.map fun participant =>
    (run.reports.get participant.name).getD ⟨participant.name, .timedOut, none⟩

/-- What `runPhase` returns. -/
def phaseReport (c : ShutdownCoordinator) (run : PhaseRun) (timedOut : Bool) : PhaseReport :=
  let reports := participantReports run
  let unfinished := reports.any fun report => report.status = .timedOut
  { phase := run.phase
    status := if timedOut || unfinished then .timedOut else .completed
    startedAt := run.startedAt
    endedAt := c.clock
    participants := reports }

/-- `runPhase` after its loop. -/
def endPhase (c : ShutdownCoordinator) (sequence : Sequence) (run : PhaseRun) (timedOut : Bool) :
    ShutdownCoordinator :=
  { c with
    stage := .between
      { sequence with phases := sequence.phases ++ [c.phaseReport run timedOut] }
    log := .ended run.phase run.deadline c.clock :: c.log }

/-- `runPhase` at the head of its loop: the deadline is shortened to the grace of the level. -/
def loopHead (c : ShutdownCoordinator) (sequence : Sequence) (run : PhaseRun) :
    ShutdownCoordinator :=
  if 0 < run.outstanding then
    let shortened := c.clock + graceForLevel c.currentLevel
    let deadline := if shortened < run.deadline then shortened else run.deadline
    { c with
      stage := .waiting sequence { run with deadline } false
      log := .armed run.phase deadline :: c.log }
  else
    c.endPhase sequence run false

/-- `runPhase` at its `map`: the next participant is called, or the loop is entered. -/
def callNext (c : ShutdownCoordinator) (sequence : Sequence) (run : PhaseRun) :
    List ShutdownParticipant → ShutdownCoordinator
  | [] => c.loopHead sequence run
  | todo => { c with stage := .calling sequence run todo }

/-- The work `cancel-root-scope` does by itself. -/
def builtIn (c : ShutdownCoordinator) (phase : ShutdownPhase) : Option ScopeTree :=
  if phase = .cancelRootScope then
    c.scopeTree.map fun tree => tree.apply (.cancel c.rootScopeId .shutdown c.clock)
  else
    c.scopeTree

/-- The start of `runPhase`. -/
def beginPhase (c : ShutdownCoordinator) (sequence : Sequence) (phase : ShutdownPhase) :
    ShutdownCoordinator :=
  let phaseParticipants := c.participants.filter fun participant => participant.phase = phase
  let run : PhaseRun :=
    { phase
      startedAt := c.clock
      phaseParticipants
      deadline := c.clock + graceForLevel c.currentLevel
      reports := OrderedMap.empty
      outstanding := phaseParticipants.length }
  callNext { c with scopeTree := c.builtIn phase, log := .began phase c.clock :: c.log }
    sequence run phaseParticipants

/-! ## The sequence -/

/-- The outcome of a shutdown. -/
def shutdownOutcome (unfinished : List String) (failures : List ParticipantReport) :
    TerminalOutcome :=
  if 0 < unfinished.length then
    .uncertain
  else if 0 < failures.length then
    .failed .partial_
  else
    .completed

/-- `run` after its loop. -/
def finish (c : ShutdownCoordinator) (sequence : Sequence) : ShutdownCoordinator :=
  let reports := sequence.phases.flatMap fun phase => phase.participants
  let unfinished := (reports.filter fun report => report.status = .timedOut).map fun report =>
    report.name
  let failures := reports.filter fun report => report.status = .failed
  { c with
    scopeTree := c.scopeTree.map fun tree => tree.apply (.forceSettleUnacknowledged c.clock)
    stage := .finished
      { level := c.currentLevel
        startedAt := sequence.startedAt
        endedAt := c.clock
        phases := sequence.phases
        unfinished
        failures
        outcome := shutdownOutcome unfinished failures } }

/-- `run` at the head of its loop. -/
def nextPhase (c : ShutdownCoordinator) (sequence : Sequence) : ShutdownCoordinator :=
  match sequence.rest with
  | [] => c.finish sequence
  | phase :: rest => c.beginPhase { sequence with rest } phase

/-- The start of `run`. -/
def run (c : ShutdownCoordinator) (startLevel : ShutdownLevel) : ShutdownCoordinator :=
  let raised := c.raiseLevel startLevel
  raised.nextPhase { startedAt := raised.clock, phases := [], rest := shutdownPhases }

/-! ## What can happen -/

/-- How the race of a wait was decided. -/
inductive Waited where
  | settled
  | expired
  | rearm

/-- What can happen to a coordinator. -/
inductive Event where
  | register (participant : ShutdownParticipant)
  | shutdown (level : Option ShutdownLevel)
  | escalate (level : ShutdownLevel)
  /-- Somebody uses the scope tree. -/
  | scope (operation : ScopeTree.Operation)
  | tick (span : ℕ)
  /-- The participant that is called next returns a promise. -/
  | returns
  /-- The participant that is called next throws before it returns a promise. -/
  | throws (error : Thrown)
  /-- A promise settles and its handler runs. -/
  | settles (participant : ShutdownParticipant) (settlement : ParticipantSettlement)
  /-- The race of the wait is decided and `runPhase` goes on. -/
  | wakes (waited : Waited)
  /-- `run` goes on after a phase. -/
  | resumes

/-- The coordinator has nothing to do but wait. -/
def IsParked (c : ShutdownCoordinator) : Prop :=
  match c.stage with
  | .idle | .finished _ | .rejected _ => True
  | .waiting _ run rearmed => 0 < run.outstanding ∧ rearmed = false
  | .calling .. | .between _ => False

instance (c : ShutdownCoordinator) : Decidable c.IsParked := by
  unfold IsParked
  split <;> infer_instance

/-- `shutdown`.  While the participants of the first phase are being called `running` is not set yet,
which is the one call this model leaves out. -/
def shutdown (c : ShutdownCoordinator) (level : Option ShutdownLevel) :
    Option ShutdownCoordinator :=
  match c.stage with
  | .idle => some (c.run (level.getD .graceful))
  | .calling sequence _ _ => if sequence.phases = [] then none else some c
  | _ => some c

/-- The `map` of `runPhase` when the participant it calls returns a promise. -/
def returns (c : ShutdownCoordinator) : Option ShutdownCoordinator :=
  match c.stage with
  | .calling sequence run (participant :: todo) =>
    some (callNext
      { c with pending := participant :: c.pending, log := .called participant :: c.log }
      sequence run todo)
  | _ => none

/-- The same when the participant throws: nothing catches it. -/
def throws (c : ShutdownCoordinator) (error : Thrown) : Option ShutdownCoordinator :=
  match c.stage with
  | .calling _ _ (participant :: _) =>
    some { c with stage := .rejected error, log := .called participant :: c.log }
  | _ => none

/-- The handler of a participant's promise, on the local variables of its phase. -/
def handle (participant : ShutdownParticipant) (settlement : ParticipantSettlement) : Stage → Stage
  | .waiting sequence run rearmed =>
    if participant.phase = run.phase then
      .waiting sequence
        { run with
          reports := run.reports.set participant.name (settledReport participant settlement)
          outstanding := run.outstanding - 1 }
        rearmed
    else
      .waiting sequence run rearmed
  | stage => stage

/-- A promise settles.  Handlers do not run while the participants of a phase are being called. -/
def settles (c : ShutdownCoordinator) (participant : ShutdownParticipant)
    (settlement : ParticipantSettlement) : Option ShutdownCoordinator :=
  match c.stage with
  | .calling .. => none
  | _ =>
    if participant ∈ c.pending then
      some { c with
        stage := handle participant settlement c.stage
        pending := c.pending.filter fun other => other ≠ participant
        log := .settled participant settlement :: c.log }
    else
      none

/-- The race is decided.  Each answer needs what it says: every promise has settled, the clock has
reached the deadline, or the level rose. -/
def wakes (c : ShutdownCoordinator) (waited : Waited) : Option ShutdownCoordinator :=
  match c.stage, waited with
  | .waiting sequence run _, .settled =>
    if run.outstanding = 0 then some (c.endPhase sequence run false) else none
  | .waiting sequence run _, .expired =>
    if run.deadline ≤ c.clock then some (c.endPhase sequence run true) else none
  | .waiting sequence run true, .rearm => some (c.loopHead sequence run)
  | _, _ => none

/-- `run` goes on. -/
def resumes (c : ShutdownCoordinator) : Option ShutdownCoordinator :=
  match c.stage with
  | .between sequence => some (c.nextPhase sequence)
  | _ => none

/-- The coordinator after an event, if it can happen. -/
def step (c : ShutdownCoordinator) : Event → Option ShutdownCoordinator
  | .register participant =>
    match c.register participant with
    | .ok after => some after
    | .error _ => some c
  | .shutdown level => c.shutdown level
  | .escalate level => some (c.raiseLevel level)
  | .scope operation =>
    some { c with scopeTree := c.scopeTree.map fun tree => tree.apply operation }
  | .tick span => if c.IsParked then some { c with clock := c.clock + span } else none
  | .returns => c.returns
  | .throws error => c.throws error
  | .settles participant settlement => c.settles participant settlement
  | .wakes waited => c.wakes waited
  | .resumes => c.resumes

end ShutdownCoordinator
end Falryn.Runtime
