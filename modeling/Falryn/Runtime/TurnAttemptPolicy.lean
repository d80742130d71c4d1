import Falryn.Lib.StateMachine
import Falryn.Providers.Routing
import Falryn.Runtime.TurnCoordinator
import Falryn.Runtime.TurnEventJournal
import Falryn.Sessions.AttemptPolicy

/-!
# The turn attempt policy

`createTurnAttemptPolicy` (`application/runtime/turn-attempt-policy.ts`): a turn is attempted on one
model, and again on the same model or on the next of the role's list, until an attempt settles it or
nothing is left to try.

The run is a state machine cut at its awaits: the journal stores a fact, the runner makes an attempt,
a delay is waited out.  While it waits, the signal may be aborted, the clock moves, and others act on
the turn, the runner among them; recovering a turn is left to the policy, as nobody else does it.  A
persist has two ends: the append, at which the journal looks at the signal, and the return to the
policy.

Two things are kept for the reader and never read by the code: the calls of the runner (`calls`) and
the number of recoveries.
-/

namespace Falryn.Runtime

open Orchestration Sessions Providers

/-! ## Options, input and outcome -/

/-- `TurnAttemptPolicyOptions`, with the gate of the coordinator.  `jitter` is asked once an attempt
at most. -/
structure TurnAttemptPolicyOptions where
  gate : CompletionGate
  policy : ModelPolicy
  catalogs : List RoutedCatalogEntry
  retryPolicy : RetryPolicy
  backoff : RetryBackoff
  jitter : ℕ → ℚ
  /-- It throws where this is `none`. -/
  allocateAttemptId : Option (ℕ → Option String)
  journal : Bool
  persistTurnLifecycle : Bool

structure RunTurnAttemptPolicyInput where
  turnId : String
  configurationGeneration : ℕ
  intent : Option WorkIntent
  role : Option ModelRole
  explicit : Option ProviderModelIdentity
  required : Option RouteRequirement
  elapsedBudgetMs : Option ℚ

structure AttemptIdentity where
  attemptNumber : ℕ
  modelAttemptId : String
  fallbackPosition : ℕ
  providerKey : String
  modelKey : String

structure AttemptRecord where
  identity : AttemptIdentity
  receipt : RoutingReceipt
  fact : AttemptFact
  classification : AttemptClassification
  action : AttemptAction

/-- The kinds of `TurnAttemptPolicyOutcome`, with what only they carry. -/
inductive PolicyEnd where
  | settled (classification : SettlingClassification)
  | exhausted (reason : Option RetryRefusal)
  | routingRefused (outcome : RoutingOutcome)
  | turnError (error : TurnCoordinatorError)

structure TurnAttemptPolicyOutcome where
  kind : PolicyEnd
  attempts : List AttemptRecord
  turn : Option TurnSnapshot

/-! ## Moving the turn -/

section Turn

variable (options : TurnAttemptPolicyOptions) (input : RunTurnAttemptPolicyInput)

/-- `coordinator.apply`. -/
def applyAt (c : TurnCoordinator) (generation : ℕ) (command : TurnCommand)
    (effect : Option EffectCertainty) : Except TurnCoordinatorError TurnCoordinator :=
  c.apply options.gate input.turnId { command, configurationGeneration := generation, effect }

def advanceToAssemblingContext (c : TurnCoordinator) (generation : ℕ) :
    Except TurnCoordinatorError TurnCoordinator :=
  match c.get input.turnId with
  | none => .error (.turnNotFound input.turnId)
  | some turn =>
    match turn.status, turn.phase with
    | .active, .created => do
      let c ← applyAt options input c generation .beginOrienting none
      applyAt options input c generation .beginAssemblingContext none
    | .active, .orienting => applyAt options input c generation .beginAssemblingContext none
    | _, _ => .ok c

/-- `recoverForNextAttempt`, of a turn that is over. -/
def recoverForNextAttempt (c : TurnCoordinator) (nextGeneration : ℕ) :
    Except TurnCoordinatorError TurnCoordinator := do
  let c ← c.apply options.gate input.turnId
    { command := .recover
      configurationGeneration := nextGeneration
      recoveryGeneration := some nextGeneration }
  advanceToAssemblingContext options input c nextGeneration

/-- The command that leads on from a phase, for the phases before completion is evaluated. -/
def walk : List (TurnPhase × TurnCommand) :=
  [(.created, .beginOrienting), (.orienting, .beginAssemblingContext),
    (.assemblingContext, .beginAwaitingModel), (.awaitingModel, .beginHandlingModelEvent),
    (.handlingModelEvent, .beginEvaluatingCompletion)]

/-- The loop of `ensureTerminal`: the phases come one after another, and it leads an active turn
through those it has not passed. -/
def walkTo (c : TurnCoordinator) (generation : ℕ) : TurnCoordinator :=
  walk.foldl (fun c step =>
    if (c.get input.turnId).any fun turn => turn.status = .active ∧ turn.phase = step.1 then
      (applyAt options input c generation step.2 none).toOption.getD c
    else c) c

def settleCommandFor (classification : SettlingClassification) : TurnCommand × EffectCertainty :=
  match terminalOutcomeForClassification classification with
  | .failed effect => (.fail, effect)
  | .cancelled effect => (.cancel, effect)
  | .timedOut effect => (.timeOut, effect)
  | .uncertain => (.markUncertain, .uncertain)
  | .completed => (.fail, .none)

def ensureTerminal (c : TurnCoordinator) (generation : ℕ) (classification : SettlingClassification) :
    TurnCoordinator :=
  if (c.get input.turnId).any fun turn => turn.status = .active then
    let walked := walkTo options input c generation
    let settled :=
      if classification = .completed then applyAt options input walked generation .complete none
      else
        applyAt options input walked generation (settleCommandFor classification).1
          (some (settleCommandFor classification).2)
    settled.toOption.getD walked
  else c

end Turn

/-! ## The state of a run -/

/-- What comes after a fact was persisted. -/
inductive PolicyNext where
  /-- The loop is entered. -/
  | enter
  /-- The runner is called. -/
  | attempt (identity : AttemptIdentity)
  /-- What was decided after an attempt is done; the probe found the next route, and the runner has
  reported a turn. -/
  | act (action : AttemptAction) (fallbackProbe : RoutingOutcome) (turn : Option TurnSnapshot)
  /-- The run returns. -/
  | finish (outcome : TurnAttemptPolicyOutcome)

/-- Where a run stands. -/
inductive PolicyPoint where
  /-- The journal has not appended the fact yet.  `lifecycle` facts are those of the turn; a `receipt`
  is stored under a signal of its own. -/
  | storing (fact : TurnLifecycleFact) (lifecycle receipt : Bool) (next : PolicyNext)
  /-- The journal has answered; `abortedBefore` is the signal at the append. -/
  | stored (result : PersistResult) (abortedBefore : Bool) (next : PolicyNext)
  | running (identity : AttemptIdentity)
  /-- It waits to retry. -/
  | waiting
  | returned (outcome : TurnAttemptPolicyOutcome)
  /-- The promise of `run` was rejected. -/
  | threw

/-- Whether others can act while the run stands there. -/
def PolicyPoint.awaits : PolicyPoint → Bool
  | returned _ => false
  | threw => false
  | _ => true

/-- A call of the runner. -/
structure RunnerCall where
  identity : AttemptIdentity
  receipt : RoutingReceipt
  configurationGeneration : ℕ
  /-- How often the turn had been recovered. -/
  recoveries : ℕ
  /-- The time that had passed since the run began. -/
  elapsedMs : ℤ
  /-- The signal had been aborted before the start of the attempt was recorded. -/
  abortedBefore : Bool

structure PolicyState where
  receipt : RoutingReceipt
  visited : List ProviderModelIdentity
  attemptsOnCurrentRoute : ℕ
  elapsedMs : ℤ
  generation : ℕ
  startedAt : ℤ
  attempts : List AttemptRecord
  coordinator : TurnCoordinator
  aborted : Bool
  now : ℤ
  /-- The signal of the receipt that is being stored has timed out. -/
  receiptExpired : Bool
  stream : List TurnLifecycleFact
  point : PolicyPoint
  calls : List RunnerCall
  recoveries : ℕ

/-- What can happen to a run. -/
inductive PolicyEvent where
  /-- The signal is aborted. -/
  | abort
  /-- The clock moves. -/
  | tick (now : ℤ)
  /-- The signal of a receipt times out. -/
  | expire
  /-- Somebody else acts on the turn. -/
  | command (input : TurnTransition)
  /-- The journal appends, if it may, and the store answers. -/
  | append (answer : StoreAnswer)
  /-- The journal has returned. -/
  | resume
  /-- The runner has returned. -/
  | ran (fact : AttemptFact) (turn : Option TurnSnapshot)
  /-- The delay before a retry has ended. -/
  | waited

def outcomeForAttemptRecord : AttemptClassification → TerminalOutcome
  | .settling classification => terminalOutcomeForClassification classification
  | .mayRetrySame effect _ => .failed effect
  | .mayFallback effect _ => .failed effect

namespace PolicyState

variable (options : TurnAttemptPolicyOptions) (input : RunTurnAttemptPolicyInput) (s : PolicyState)

/-- `persistFacts`, up to its first await. -/
def store (fact : TurnLifecycleFact) (lifecycle receipt : Bool) (next : PolicyNext) : PolicyState :=
  { s with point := .storing fact lifecycle receipt next, receiptExpired := false }

def return_ (kind : PolicyEnd) : PolicyState :=
  { s with
    point := .returned ⟨kind, s.attempts, s.coordinator.get input.turnId⟩ }

/-- `settleFromClassification`: the turns it leaves, and the turn it reports. -/
def settleFromClassification (classification : SettlingClassification)
    (existingTurn : Option TurnSnapshot) : TurnCoordinator × Option TurnSnapshot :=
  match existingTurn.filter fun turn => turn.outcome?.isSome with
  | some turn => (s.coordinator, some turn)
  | none =>
    let coordinator := ensureTerminal options input s.coordinator s.generation classification
    (coordinator, (coordinator.get input.turnId).or existingTurn)

/-- The run returns; a turn that is over is recorded as completed first. -/
def conclude (outcome : TurnAttemptPolicyOutcome) : PolicyState :=
  match (s.coordinator.get input.turnId).bind TurnSnapshot.outcome? with
  | none => { s with point := .returned outcome }
  | some ended => s.store (.turnCompleted input.turnId ended) true false (.finish outcome)

/-- The turn is settled and the run returns.  All outcomes but a refusal insist on a turn. -/
def settle (classification : SettlingClassification) (existingTurn : Option TurnSnapshot) :
    PolicyState :=
  let settled := s.settleFromClassification options input classification existingTurn
  if settled.2 = none ∧ classification.isRefusal = false then { s with point := .threw }
  else
    { s with coordinator := settled.1 }.conclude input
      ⟨.settled classification, s.attempts, settled.2⟩

/-- The call of the runner. -/
def call (identity : AttemptIdentity) (abortedBefore : Bool) : PolicyState :=
  { s with
    calls := s.calls ++
      [{ identity
         receipt := s.receipt
         configurationGeneration := s.generation
         recoveries := s.recoveries
         elapsedMs := s.now - s.startedAt
         abortedBefore }]
    point := .running identity }

/-- The id of the next attempt. -/
def nextAttemptId : Option String :=
  match options.allocateAttemptId with
  | some allocateAttemptId => allocateAttemptId (s.attempts.length + 1)
  | none => identifier? ("attempt:" ++ input.turnId ++ ":" ++ toString (s.attempts.length + 1))

/-- The start of an attempt. -/
def begin_ : PolicyState :=
  match s.nextAttemptId options input with
  | none => { s with point := .threw }
  | some modelAttemptId =>
    let identity : AttemptIdentity :=
      { attemptNumber := s.attempts.length + 1
        modelAttemptId
        fallbackPosition := s.receipt.fallbackPosition
        providerKey := s.receipt.route.providerId
        modelKey := s.receipt.route.modelId }
    match s.coordinator.get input.turnId with
    | none => s.call identity false
    | some _ => s.store (.modelAttemptStarted modelAttemptId) false false (.attempt identity)

/-- From the top of the loop to its next await. -/
def top : PolicyState :=
  if s.aborted then s.settle options input (.cancelled .none) none
  else
    match (s.coordinator.get input.turnId).bind TurnSnapshot.outcome? with
    | none => s.begin_ options input
    | some _ =>
      match recoverForNextAttempt options input s.coordinator (s.generation + 1) with
      | .error error => s.return_ input (.turnError error)
      | .ok coordinator =>
        { s with
          coordinator
          generation := s.generation + 1
          recoveries := s.recoveries + 1 }.begin_ options input

def routeInput (now : ℤ) (visited : List ProviderModelIdentity) : ResolveRouteInput :=
  { policy := options.policy
    catalogs := options.catalogs
    intent := input.intent
    role := input.role
    fastOption := none
    explicit := input.explicit
    required := input.required
    now := some now
    fallbackPosition := none
    visited }

/-- The call of `run`. -/
def start (coordinator : TurnCoordinator) (aborted : Bool) (now : ℤ)
    (stream : List TurnLifecycleFact) : PolicyState :=
  let state (receipt : RoutingReceipt) (coordinator : TurnCoordinator) : PolicyState :=
    { receipt
      visited := [receipt.route]
      attemptsOnCurrentRoute := 0
      elapsedMs := 0
      generation := input.configurationGeneration
      startedAt := now
      attempts := []
      coordinator
      aborted
      now
      receiptExpired := false
      stream
      point := .threw
      calls := []
      recoveries := 0 }
  match resolveModelRoute (routeInput options input now []) with
  | .selected receipt =>
    match advanceToAssemblingContext options input coordinator input.configurationGeneration with
    | .error error => (state receipt coordinator).return_ input (.turnError error)
    | .ok coordinator =>
      (state receipt coordinator).store (.turnStarted input.turnId) true false .enter
  | outcome =>
    (state ⟨.default_, none, ⟨"", "", ""⟩, .providerDefault, none, 0⟩ coordinator).return_ input
      (.routingRefused outcome)

/-- The retry that is weighed after an attempt that may be retried. -/
def retryRequest (effect : EffectCertainty) : RetryRequest :=
  { errorRetryable := true
    errorEffect := effect
    policy := options.retryPolicy
    attemptsMade := s.attemptsOnCurrentRoute
    elapsedMs := s.elapsedMs
    elapsedBudgetMs := input.elapsedBudgetMs
    idempotent := true
    cancelled := s.aborted
    backoff := options.backoff
    jitter := options.jitter (s.attempts.length + 1) }

/-- What is done after an attempt. -/
def act (action : AttemptAction) (fallbackProbe : RoutingOutcome) (turn : Option TurnSnapshot) :
    PolicyState :=
  match action with
  | .settle classification => s.settle options input classification turn
  | .retrySame _ _ => { s with point := .waiting }
  | .fallback =>
    match fallbackProbe with
    | .selected receipt =>
      { s with
        receipt
        visited := receipt.route :: s.visited
        attemptsOnCurrentRoute := 0 }.top options input
    | _ => s.return_ input (.exhausted none)
  | .exhausted reason _ => s.return_ input (.exhausted reason)

/-- The books after an attempt: the time that has passed, and the attempts that may be retried. -/
def measured (fact : AttemptFact) : PolicyState :=
  { s with
    elapsedMs := max s.elapsedMs (s.now - s.startedAt)
    attemptsOnCurrentRoute := match classifyAttempt fact with
      | .mayRetrySame _ _ => s.attemptsOnCurrentRoute + 1
      | _ => s.attemptsOnCurrentRoute }

/-- The next route, if there is one. -/
def fallbackProbe : RoutingOutcome :=
  resolveNextFallback (routeInput options input s.now s.visited) s.receipt

/-- What is decided after an attempt. -/
def actionFor (fact : AttemptFact) : AttemptAction :=
  let retryDecision := match classifyAttempt fact with
    | .mayRetrySame effect _ =>
      some (evaluateRetry ((s.measured fact).retryRequest options input effect))
    | _ => none
  decideAttemptAction (classifyAttempt fact) retryDecision
    (s.fallbackProbe options input matches .selected _)

/-- From the return of the runner to the next await. -/
def afterAttempt (identity : AttemptIdentity) (fact : AttemptFact) (turn : Option TurnSnapshot) :
    PolicyState :=
  let action := s.actionFor options input fact
  let record : AttemptRecord :=
    { identity, receipt := s.receipt, fact, classification := classifyAttempt fact, action }
  let s₁ := { s.measured fact with attempts := s.attempts ++ [record] }
  match s.coordinator.get input.turnId with
  | none => s₁.act options input action (s.fallbackProbe options input) turn
  | some _ =>
    s₁.store (.modelAttemptCompleted identity.modelAttemptId
        (outcomeForAttemptRecord (classifyAttempt fact)))
      false true (.act action (s.fallbackProbe options input) turn)

/-- What follows a fact that was persisted. -/
def continue_ (result : PersistResult) (abortedBefore : Bool) (next : PolicyNext) : PolicyState :=
  if result = .threw then { s with point := .threw }
  else
    match next with
    | .enter => s.top options input
    | .attempt identity =>
      match result with
      | .storeError code =>
        s.settle options input
          (.failed .none ("attempt start record could not be stored (" ++ code ++ ")")) none
      | _ => s.call identity abortedBefore
    | .act action fallbackProbe turn => s.act options input action fallbackProbe turn
    | .finish outcome => { s with point := .returned outcome }

/-- Whether the journal of a fact is there. -/
def journalFor (lifecycle : Bool) : Bool :=
  options.journal && (!lifecycle || options.persistTurnLifecycle)

/-- **One step.** -/
def step : PolicyState → PolicyEvent → Option PolicyState
  | s, .abort => if s.point.awaits then some { s with aborted := true } else none
  | s, .tick now => if s.point.awaits then some { s with now } else none
  | s, .expire =>
    match s.point with
    | .storing _ _ true _ => some { s with receiptExpired := true }
    | _ => none
  | s, .command transition =>
    if s.point.awaits ∧ transition.command ≠ .recover then
      match s.coordinator.apply options.gate input.turnId transition with
      | .ok coordinator => some { s with coordinator }
      | .error _ => some s
    else none
  | s, .append answer =>
    match s.point with
    | .storing fact lifecycle receipt next =>
      let persisted := persistFact (journalFor options lifecycle)
        (if receipt then s.receiptExpired else s.aborted) answer s.stream fact
      some { s with
        stream := persisted.2
        point := .stored persisted.1 s.aborted next }
    | _ => none
  | s, .resume =>
    match s.point with
    | .stored result abortedBefore next => some (s.continue_ options input result abortedBefore next)
    | _ => none
  | s, .ran fact turn =>
    match s.point with
    | .running identity => some (s.afterAttempt options input identity fact turn)
    | _ => none
  | s, .waited =>
    match s.point with
    | .waiting =>
      some (if s.aborted then s.settle options input (.cancelled .none) none
        else s.top options input)
    | _ => none

/-- The states of a run, with the events that lead there. -/
def Reaches (coordinator : TurnCoordinator) (aborted : Bool) (now : ℤ)
    (stream : List TurnLifecycleFact) (events : List PolicyEvent) (s : PolicyState) : Prop :=
  StateMachine.run (step options input) (start options input coordinator aborted now stream) events
    = some s

end PolicyState
end Falryn.Runtime
