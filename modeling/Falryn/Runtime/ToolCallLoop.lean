import Falryn.Lib.StateMachine
import Falryn.Lib.WorkerPool
import Falryn.Runtime.TurnCoordinator
import Falryn.Tools.OperationProfiles

/-!
# The tool-call loop

`createToolCallLoop` (`application/runtime/tool-call-loop.ts`): a batch of proposals is bound, executed
and handed back to the model, which may answer with the next batch, until something ends the turn.

The loop is a state machine cut at its awaits.  At each of them the signal may be aborted and others
may act on the turn; the workers that execute a batch take their steps in any order.  What the loop
does when it stops is decided in one place and done in another: the decision is a `Settlement`, and
`settle` carries it out.

Four lists are kept for the reader and never read by the code: the proposals the loop was given
(`offered`), those it reported as refused (`refused`), the ids it called the runner with
(`executed`), and the batches it bound.
-/

namespace Falryn.Runtime

open Orchestration Sessions Tools WorkerPool

/-! ## Limits -/

/-- `MAX_TOOL_LOOP_ITERATIONS`. -/
def maxToolLoopIterations : ℕ := 32

/-- `MAX_CONCURRENT_TOOLS`. -/
def maxConcurrentToolsCap : ℕ := 16

/-- `MAX_TOOL_CALLS_PER_ITERATION`. -/
def maxToolCallsPerIterationCap : ℕ := 64

structure ToolCallLoopLimits where
  maxIterations : ℕ
  maxConcurrentTools : ℕ
  maxToolCallsPerIteration : ℕ

/-- `DEFAULT_TOOL_CALL_LOOP_LIMITS`. -/
def defaultToolCallLoopLimits : ToolCallLoopLimits := ⟨8, 4, 16⟩

/-- `Partial<ToolCallLoopLimits>`. -/
structure PartialLimits where
  maxIterations : Option ℚ := none
  maxConcurrentTools : Option ℚ := none
  maxToolCallsPerIteration : Option ℚ := none

def clamp (value : ℚ) (minimum maximum : ℕ) : ℕ :=
  if value.den ≠ 1 then minimum else min maximum (max minimum value.num.toNat)

def normalizeLimits (limits : PartialLimits) : ToolCallLoopLimits :=
  { maxIterations :=
      clamp (limits.maxIterations.getD defaultToolCallLoopLimits.maxIterations) 1
        maxToolLoopIterations
    maxConcurrentTools :=
      clamp (limits.maxConcurrentTools.getD defaultToolCallLoopLimits.maxConcurrentTools) 1
        maxConcurrentToolsCap
    maxToolCallsPerIteration :=
      clamp (limits.maxToolCallsPerIteration.getD
        defaultToolCallLoopLimits.maxToolCallsPerIteration) 1 maxToolCallsPerIterationCap }

/-! ## Options, input and outcome -/

structure FallbackTransition where
  fromToolName : String
  toToolNames : List String

structure ToolFallbackPolicy where
  maxTransitions : ℚ
  transitions : List FallbackTransition

/-- `ToolCallLoopOptions`.  The gate belongs to the coordinator; of the runner it matters here
whether it executes whole batches. -/
structure ToolCallLoopOptions where
  gate : CompletionGate
  catalog : ToolCatalog
  executesBatches : Bool
  limits : PartialLimits
  fallbackPolicy : Option ToolFallbackPolicy
  disclosed : List DisclosedOperationProfile
  definitions : List OperationProfileDefinition

inductive AbortAs where
  | cancel
  | timeout
  deriving DecidableEq

/-- `RunToolCallLoopInput`.  `abortAs` may answer differently each time it is asked. -/
structure RunToolCallLoopInput where
  turnId : String
  configurationGeneration : ℕ
  proposals : List ToolProposal
  abortAs : ℕ → AbortAs
  invocationIdLineage : Option String
  continuesModel : Bool

inductive ContinueModelResult where
  | stop
  | failed (reason : String)
  | proceed (proposals : List ToolProposal)

/-- The proposals a continuation brings. -/
def ContinueModelResult.proposals : ContinueModelResult → List ToolProposal
  | proceed proposals => proposals
  | _ => []

inductive ToolCallLoopBound where
  | maxIterations
  | maxToolCallsPerIteration
  deriving DecidableEq

/-- The kinds of `ToolCallLoopOutcome`, with what only they carry. -/
inductive LoopEnd where
  | completed (foldedEffect : EffectCertainty)
  | cancelled (effect : EffectCertainty)
  | timedOut (effect : EffectCertainty)
  | failed (effect : EffectCertainty) (reason : String)
  | uncertain (recoveryHint : String)
  | denied (reason : String)
  | malformed (reason : String) (bindError : Option ToolBindError)
  | unavailable (reason : String)
  | partial_ (effect : EffectCertainty) (reason : String)
  | boundExceeded (bound : ToolCallLoopBound) (maximum attempted : ℕ)
  | turnError (error : TurnCoordinatorError)
  deriving DecidableEq

/-- The `effect` or `foldedEffect` of an outcome that has one. -/
def LoopEnd.effect? : LoopEnd → Option EffectCertainty
  | completed foldedEffect => some foldedEffect
  | cancelled effect => some effect
  | timedOut effect => some effect
  | failed effect _ => some effect
  | partial_ effect _ => some effect
  | _ => none

structure ToolCallLoopOutcome where
  kind : LoopEnd
  iterations : ℕ
  results : List ToolInvocationRecord
  turn : Option TurnSnapshot

/-! ## Settlement -/

inductive ClassifiedStop where
  | denied (reason : String)
  | malformed (reason : String)
  | unavailable (reason : String)
  | failed (reason : String) (effect : EffectCertainty)
  | partial_ (reason : String) (effect : EffectCertainty)
  | uncertain (recoveryHint : String)

/-- How one outcome would end the turn, if it would. -/
def classifyOutcome (outcome : ToolInvocationOutcome) : Option ClassifiedStop :=
  match outcome.status with
  | .completed => none
  | .cancelled _ => none
  | .timedOut _ => none
  | .denied reason => some (.denied reason)
  | .malformed reason => some (.malformed reason)
  | .unavailable reason => some (.unavailable reason)
  | .failed reason effect => some (.failed reason effect)
  | .partial_ effect => some (.partial_ "tool returned partial output" effect)
  | .uncertain recoveryHint => some (.uncertain recoveryHint)

/-- `classifyPreTerminal`: the first outcome that ends the turn. -/
def classifyPreTerminal (records : List ToolInvocationRecord) : Option ClassifiedStop :=
  records.findSome? fun record => classifyOutcome record.outcome

/-- What the loop has decided to do when it stops. -/
inductive Settlement where
  | turnError (error : TurnCoordinatorError)
  | maxIterations
  | bindFailure (error : ToolBindError)
  /-- `abortAs` was asked `asked` times before. -/
  | abort (asked : ℕ) (inFlightEffect : EffectCertainty)
  | classified (stop : ClassifiedStop)
  | finish
  /-- The model stopped and the turn is over already. -/
  | completed

section Settle

variable (options : ToolCallLoopOptions) (input : RunToolCallLoopInput)

def applyCommand (coordinator : TurnCoordinator) (command : TurnCommand)
    (effect : Option EffectCertainty) : Except TurnCoordinatorError TurnCoordinator :=
  coordinator.apply options.gate input.turnId
    { command, configurationGeneration := input.configurationGeneration, effect }

/-- The turn is settled by one command; if it cannot be, that is what the loop returns. -/
def settleBy (coordinator : TurnCoordinator) (command : TurnCommand)
    (effect : Option EffectCertainty) (kind : LoopEnd) : TurnCoordinator × LoopEnd :=
  match applyCommand options input coordinator command effect with
  | .error error => (coordinator, .turnError error)
  | .ok coordinator' => (coordinator', kind)

def bindErrorReason : ToolBindError → String
  | .malformedInput _ name _ => "malformed input for " ++ name
  | .duplicateToolCallId _ => "duplicate tool call id"
  | .invalidToolCallId _ => "invalid tool call id"
  | .invalidDescriptor _ reason => "invalid descriptor: " ++ match reason with
    | .emptyName => "empty-name"
    | .invalidVersion => "invalid-version"
    | .invalidEffect => "invalid-effect"
  | .unknownTool _ name => "unknown tool: " ++ name
  | .queueBoundExceeded _ _ => "queue bound exceeded"
  | .profileOperationInvalid _ name reason => "invalid operation for " ++ name ++ ": " ++
    match reason with
    | .argumentsNotObject => "arguments-not-object"
    | .operationMissing => "operation-missing"
    | .operationUnknown => "operation-unknown"
    | .operationNotDisclosed => "operation-not-disclosed"
    | .operationArgumentsInvalid => "operation-arguments-invalid"

def settleBindFailure (coordinator : TurnCoordinator) (error : ToolBindError) :
    TurnCoordinator × LoopEnd :=
  match error with
  | .queueBoundExceeded maximum attempted =>
    (coordinator, .boundExceeded .maxToolCallsPerIteration maximum attempted)
  | .unknownTool _ _ =>
    settleBy options input coordinator .fail (some .none) (.unavailable (bindErrorReason error))
  | _ =>
    settleBy options input coordinator .fail (some .none)
      (.malformed (bindErrorReason error) (some error))

def settleClassified (coordinator : TurnCoordinator) (stop : ClassifiedStop) :
    TurnCoordinator × LoopEnd :=
  match stop with
  | .denied reason => settleBy options input coordinator .fail (some .none) (.denied reason)
  | .malformed reason =>
    settleBy options input coordinator .fail (some .none) (.malformed reason none)
  | .unavailable reason =>
    settleBy options input coordinator .fail (some .none) (.unavailable reason)
  | .failed reason effect =>
    settleBy options input coordinator .fail (some effect) (.failed effect reason)
  | .partial_ reason effect =>
    settleBy options input coordinator .fail (some effect) (.partial_ effect reason)
  | .uncertain recoveryHint =>
    settleBy options input coordinator .markUncertain none (.uncertain recoveryHint)

/-- The effects of all records. -/
def effectsOf (results : List ToolInvocationRecord) : List EffectCertainty :=
  results.map fun record => effectOfToolOutcome record.outcome

def settleAbort (coordinator : TurnCoordinator) (results : List ToolInvocationRecord)
    (inFlightEffect : EffectCertainty) (abortAs : AbortAs) : TurnCoordinator × LoopEnd :=
  let effect := foldToolEffects (inFlightEffect :: effectsOf results)
  let command := if abortAs = .timeout then .timeOut else .cancel
  match applyCommand options input coordinator command (some effect) with
  | .error error => (coordinator, .turnError error)
  | .ok coordinator' =>
    if (coordinator'.get input.turnId).any fun turn => turn.status = .terminal .uncertain then
      (coordinator', .uncertain "cancelled during capability execution; inspect before retry")
    else
      (coordinator', if abortAs = .timeout then .timedOut effect else .cancelled effect)

def finishTurn (coordinator : TurnCoordinator) (results : List ToolInvocationRecord) :
    TurnCoordinator × LoopEnd :=
  match applyCommand options input coordinator .beginEvaluatingCompletion none with
  | .error error => (coordinator, .turnError error)
  | .ok coordinator' =>
    settleBy options input coordinator' .complete none
      (.completed (foldToolEffects (effectsOf results)))

end Settle

/-! ## Fallback -/

/-- `ExplicitFallbackResolution`. -/
inductive FallbackResolution where
  | available (fromToolNames allowedToolNames : List String) (maximumTransitions : ℕ)
  | exhausted (reason : String)

def resolveExplicitFallback (records : List ToolInvocationRecord)
    (policy : Option ToolFallbackPolicy) (visited : List String)
    (transitionsMade loopMaximum : ℕ) : FallbackResolution :=
  let fromToolNames := (records.filter fun record =>
    record.outcome.status matches .unavailable _).map ToolInvocationRecord.toolName
  match policy with
  | none => .exhausted "no-declared-fallback"
  | some policy =>
    if fromToolNames = [] then .exhausted "no-declared-fallback"
    else
      let maximumTransitions := min loopMaximum (max 1 ⌊policy.maxTransitions⌋.toNat)
      if transitionsMade ≥ maximumTransitions then .exhausted "fallback-transition-limit"
      else
        let declaredToolNames := (policy.transitions.filter fun transition =>
          transition.fromToolName ∈ fromToolNames).flatMap FallbackTransition.toToolNames
        if declaredToolNames = [] then .exhausted "no-declared-fallback"
        else
          let allowedToolNames := declaredToolNames.filter fun name => name ∉ visited
          if allowedToolNames = [] then .exhausted "fallback-exhausted"
          else .available fromToolNames allowedToolNames maximumTransitions

def nativeNameOf (profiles : List DisclosedOperationProfile) (proposal : ToolProposal) : String :=
  match lowerProfileProposals profiles [proposal] [] with
  | .ok (lowered :: _) => lowered.name
  | _ => proposal.name

/-! ## The state of a run -/

/-- Where a run stands. -/
inductive LoopPoint where
  /-- It waits for `onRefusedProposals` and then settles. -/
  | reporting (reason : String) (settlement : Settlement)
  /-- It is about to settle, with nothing to wait for. -/
  | settling (settlement : Settlement)
  /-- Its workers execute a batch; `sawAbort` is their flag `aborted`. -/
  | executing (batch : List BoundToolInvocation) (pool : Pool ToolInvocationRecord)
      (sawAbort : Bool)
  /-- The runner executes a whole batch. -/
  | executingBatch (batch : List BoundToolInvocation)
  /-- It waits for the model. -/
  | continuing (fallback : Option FallbackResolution)
  | returned (outcome : ToolCallLoopOutcome)
  /-- The promise of `run` was rejected. -/
  | threw

/-- Whether others can act while the run stands there. -/
def LoopPoint.awaits : LoopPoint → Bool
  | reporting _ _ => true
  | executing _ _ _ => true
  | executingBatch _ => true
  | continuing _ => true
  | _ => false

structure LoopState where
  iteration : ℕ
  proposals : List ToolProposal
  results : List ToolInvocationRecord
  seenToolCallIds : List String
  fallbackVisited : List String
  fallbackTransitions : ℕ
  coordinator : TurnCoordinator
  aborted : Bool
  point : LoopPoint
  offered : List ToolProposal
  refused : List ToolProposal
  executed : List String
  batches : List (List BoundToolInvocation)

/-- What can happen to a run. -/
inductive LoopEvent where
  /-- The signal is aborted. -/
  | abort
  /-- Somebody else acts on the turn. -/
  | command (input : TurnTransition)
  /-- `onRefusedProposals` has returned. -/
  | reported
  /-- The loop settles. -/
  | settle
  /-- A worker takes the next invocation. -/
  | take (worker : ℕ)
  /-- The runner has answered a worker. -/
  | ran (worker : ℕ) (outcome : ToolInvocationOutcome)
  /-- All workers are done. -/
  | joined
  /-- The runner has answered a whole batch. -/
  | ranBatch (outcomes : List ToolInvocationOutcome)
  /-- The model has answered. -/
  | continued (result : ContinueModelResult)

def recordFromOutcome (bound : BoundToolInvocation) (outcome : ToolInvocationOutcome) :
    ToolInvocationRecord :=
  { invocationId := bound.invocationId
    toolCallId := bound.proposal.toolCallId
    toolName := bound.descriptor.name
    capabilityId := some bound.descriptor.id
    effectClass := bound.descriptor.effect
    outcome }

/-- The record of an invocation that was aborted before it began. -/
def abortedRecord (bound : BoundToolInvocation) : ToolInvocationRecord :=
  recordFromOutcome bound
    { status := .cancelled (if bound.descriptor.effect = some .observation then .none else .uncertain)
      hookEffects := [] }

namespace LoopState

variable (options : ToolCallLoopOptions) (input : RunToolCallLoopInput) (s : LoopState)

def limits : ToolCallLoopLimits := normalizeLimits options.limits

/-- `await options.onRefusedProposals?.(proposals, reason)`. -/
def report (reason : String) (settlement : Settlement) : LoopState :=
  { s with refused := s.refused ++ s.proposals, point := .reporting reason settlement }

def settling (settlement : Settlement) : LoopState := { s with point := .settling settlement }

/-- The reason a batch is reported with when the signal was aborted. -/
def abortReason : String := if input.abortAs 0 = .timeout then "timed-out" else "cancelled"

/-- `nextInvocationId`, which throws where this is `none`. -/
def nextInvocationId (iteration : ℕ) (proposal : ToolProposal) : Option String :=
  identifier? (input.invocationIdLineage.getD "tool" ++ "-inv-" ++ toString iteration ++ "-"
    ++ proposal.toolCallId)

/-- The call of `executeBoundBatch`. -/
def execute (batch : List BoundToolInvocation) : LoopState :=
  if options.executesBatches then
    { s with
      batches := s.batches ++ [batch]
      executed := s.executed ++ batch.map fun bound => bound.proposal.toolCallId
      point := .executingBatch batch }
  else
    let workers := min (limits options).maxConcurrentTools batch.length
    { s with
      batches := s.batches ++ [batch]
      point := .executing batch (Pool.init batch.length workers) false }

/-- From the top of an iteration that has begun to its first await. -/
def bind : LoopState :=
  match s.proposals.find? fun proposal => proposal.toolCallId ∈ s.seenToolCallIds with
  | some repeated =>
    s.report "duplicate-tool-call-id" (.bindFailure (.duplicateToolCallId repeated.toolCallId))
  | none =>
    let s₁ := { s with
      seenToolCallIds := s.seenToolCallIds ++ s.proposals.map ToolProposal.toolCallId }
    match lowerProfileProposals options.disclosed s.proposals options.definitions with
    | .error error => s₁.report error.code (.bindFailure error)
    | .ok lowered =>
      match bindToolProposals options.catalog lowered (limits options).maxToolCallsPerIteration
          (nextInvocationId input s.iteration) with
      | .error (.refused error) => s₁.report error.code (.bindFailure error)
      | .error .threw => { s₁ with point := .threw }
      | .ok [] => s₁.settling .finish
      | .ok batch => s₁.execute options batch

/-- From the top of the loop to its next await. -/
def top : LoopState :=
  if s.aborted then s.report (abortReason input) (.abort 1 .none)
  else if s.iteration ≥ (limits options).maxIterations then
    s.report "max-iterations" .maxIterations
  else { s with iteration := s.iteration + 1 }.bind options input

/-- The call of `run`. -/
def start (coordinator : TurnCoordinator) (aborted : Bool) : LoopState :=
  let s : LoopState :=
    { iteration := 0
      proposals := input.proposals
      results := []
      seenToolCallIds := []
      fallbackVisited := []
      fallbackTransitions := 0
      coordinator
      aborted
      point := .threw
      offered := input.proposals
      refused := []
      executed := []
      batches := [] }
  match applyCommand options input coordinator .beginExecutingCapability none with
  | .error error => s.report "turn-not-executable" (.turnError error)
  | .ok coordinator' => { s with coordinator := coordinator' }.top options input

/-- The way back to the model. -/
def cycle (fallback : Option FallbackResolution) : LoopState :=
  match applyCommand options input s.coordinator .cycleToModel none with
  | .error error => s.settling (.turnError error)
  | .ok coordinator => { s with coordinator, point := .continuing fallback }

/-- What is looked up when a batch has left the turn without a capability. -/
def fallbackFor (records : List ToolInvocationRecord) : Option FallbackResolution :=
  match classifyPreTerminal records with
  | some (.unavailable _) =>
    if input.continuesModel then
      some (resolveExplicitFallback records options.fallbackPolicy s.fallbackVisited
        s.fallbackTransitions (limits options).maxIterations)
    else none
  | _ => none

/-- The rest of an iteration once its batch was executed, up to the next await. -/
def afterBatch (records : List ToolInvocationRecord) (aborted : Bool) : LoopState :=
  let s₁ := { s with results := s.results ++ records }
  if aborted then s₁.settling (.abort 0 (foldToolEffects (effectsOf records)))
  else
    match classifyPreTerminal records, s₁.fallbackFor options input records with
    | some _, some (.available from_ allowed maximum) =>
      s₁.cycle options input (some (.available from_ allowed maximum))
    | some _, some (.exhausted reason) => s₁.settling (.classified (.unavailable reason))
    | some stop, none => s₁.settling (.classified stop)
    | none, _ =>
      if input.continuesModel then s₁.cycle options input none else s₁.settling .finish

/-- The turn handles the model's answer, unless it does so already. -/
def handleModelEvent : Except TurnCoordinatorError TurnCoordinator :=
  if (s.coordinator.get input.turnId).any fun turn => turn.phase = .awaitingModel then
    applyCommand options input s.coordinator .beginHandlingModelEvent none
  else .ok s.coordinator

/-- The end of an iteration whose answer is a further batch. -/
def proceed (proposals : List ToolProposal) : LoopState :=
  match s.handleModelEvent options input with
  | .error error => s.settling (.turnError error)
  | .ok coordinator =>
    match applyCommand options input coordinator .beginExecutingCapability none with
    | .error error => { s with coordinator }.settling (.turnError error)
    | .ok coordinator' => { s with coordinator := coordinator', proposals }.top options input

/-- The check of a further batch against a declared fallback. -/
def proceedFallback (fallback : Option FallbackResolution) (proposals : List ToolProposal) :
    LoopState :=
  match fallback with
  | some (.available from_ allowed maximum) =>
    let nextNames := proposals.map (nativeNameOf options.disclosed)
    match nextNames.find? fun name => name ∉ allowed with
    | some undeclared =>
      s.settling (.classified (.unavailable ("fallback-not-declared:" ++ undeclared)))
    | none =>
      if nextNames = [] ∨ s.fallbackTransitions + nextNames.length > maximum then
        s.settling (.classified (.unavailable "fallback-transition-limit"))
      else
        { s with
          fallbackVisited := s.fallbackVisited ++ from_ ++ nextNames
          fallbackTransitions := s.fallbackTransitions + nextNames.length }.proceed options input
            proposals
  | _ => s.proceed options input proposals

/-- The end of an iteration after which the model has stopped. -/
def stop : LoopState :=
  match (s.coordinator.get input.turnId).bind TurnSnapshot.outcome? with
  | some _ => s.settling .completed
  | none =>
    match s.handleModelEvent options input with
    | .error error => s.settling (.turnError error)
    | .ok coordinator => { s with coordinator }.settling .finish

/-- The rest of an iteration once the model has answered. -/
def afterModel (fallback : Option FallbackResolution) (result : ContinueModelResult) : LoopState :=
  let s₁ := { s with offered := s.offered ++ result.proposals }
  if s.aborted then
    s₁.report (abortReason input) (.abort 1 (foldToolEffects (effectsOf s.results)))
  else
    match result with
    | .failed reason => s₁.settling (.classified (.unavailable reason))
    | .stop => s₁.stop options input
    | .proceed proposals => s₁.proceedFallback options input fallback proposals

/-- The coordinator and the outcome a settlement leaves. -/
def settled (settlement : Settlement) : TurnCoordinator × LoopEnd :=
  match settlement with
  | .turnError error => (s.coordinator, .turnError error)
  | .maxIterations =>
    (s.coordinator, .boundExceeded .maxIterations (limits options).maxIterations (s.iteration + 1))
  | .bindFailure error => settleBindFailure options input s.coordinator error
  | .abort asked inFlightEffect =>
    settleAbort options input s.coordinator s.results inFlightEffect (input.abortAs asked)
  | .classified stop => settleClassified options input s.coordinator stop
  | .finish => finishTurn options input s.coordinator s.results
  | .completed => (s.coordinator, .completed (foldToolEffects (effectsOf s.results)))

/-- The loop settles and returns. -/
def settle (settlement : Settlement) : LoopState :=
  let (coordinator, kind) := s.settled options input settlement
  { s with
    coordinator
    point := .returned
      { kind
        iterations := s.iteration
        results := s.results
        turn := coordinator.get input.turnId } }

/-- A worker takes the next invocation of the batch. -/
def take (batch : List BoundToolInvocation) (pool : Pool ToolInvocationRecord) (sawAbort : Bool)
    (worker : ℕ) : Option LoopState :=
  if s.aborted then
    (pool.take worker fun i => batch[i]?.map abortedRecord).map fun pool' =>
      { s with point := .executing batch pool' (sawAbort || pool.next < batch.length) }
  else
    (pool.take worker fun _ => none).map fun pool' =>
      { s with
        executed := s.executed ++
          (batch[pool.next]?.map fun bound => bound.proposal.toolCallId).toList
        point := .executing batch pool' sawAbort }

/-- **One step.** -/
def step : LoopState → LoopEvent → Option LoopState
  | s, .abort => if s.point.awaits then some { s with aborted := true } else none
  | s, .command transition =>
    if s.point.awaits then
      match s.coordinator.apply options.gate input.turnId transition with
      | .ok coordinator => some { s with coordinator }
      | .error _ => some s
    else none
  | s, .reported =>
    match s.point with
    | .reporting _ settlement => some (s.settle options input settlement)
    | _ => none
  | s, .settle =>
    match s.point with
    | .settling settlement => some (s.settle options input settlement)
    | _ => none
  | s, .take worker =>
    match s.point with
    | .executing batch pool sawAbort => s.take batch pool sawAbort worker
    | _ => none
  | s, .ran worker outcome =>
    match s.point with
    | .executing batch pool sawAbort =>
      (pool.settle worker fun i => batch[i]?.map fun bound => recordFromOutcome bound outcome).map
        fun pool' => { s with point := .executing batch pool' (sawAbort || s.aborted) }
    | _ => none
  | s, .joined =>
    match s.point with
    | .executing _ pool sawAbort =>
      if pool.isDone then some (s.afterBatch options input pool.answers (sawAbort || s.aborted))
      else none
    | _ => none
  | s, .ranBatch outcomes =>
    match s.point with
    | .executingBatch batch =>
      if outcomes.length = batch.length then
        some (s.afterBatch options input (List.zipWith recordFromOutcome batch outcomes) s.aborted)
      else none
    | _ => none
  | s, .continued result =>
    match s.point with
    | .continuing fallback => some (s.afterModel options input fallback result)
    | _ => none

/-- The states of a run, with the events that lead there. -/
def Reaches (coordinator : TurnCoordinator) (aborted : Bool) (events : List LoopEvent)
    (s : LoopState) : Prop :=
  StateMachine.run (step options input) (start options input coordinator aborted) events = some s

end LoopState

end Falryn.Runtime
