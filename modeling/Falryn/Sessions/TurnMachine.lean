import Falryn.Orchestration.Outcome

/-!
# The turn machine

One turn of a session and the named transitions between its phases
(`domain/sessions/turn-machine.ts`).  A terminal turn accepts nothing but a recovery, which starts a
new runtime generation; a cancellation while a capability may have changed the world settles as
`uncertain`.
-/

namespace Falryn.Sessions

open Orchestration

/-! ## Data -/

inductive TurnPhase where
  | created
  | orienting
  | assemblingContext
  | awaitingModel
  | handlingModelEvent
  | executingCapability
  | evaluatingCompletion
  deriving DecidableEq

inductive TurnCommand where
  | beginOrienting
  | beginAssemblingContext
  | beginAwaitingModel
  | beginHandlingModelEvent
  | beginExecutingCapability
  | beginEvaluatingCompletion
  | cycleToModel
  | complete
  | fail
  | cancel
  | timeOut
  | markUncertain
  | recover
  deriving DecidableEq

inductive TurnTransitionError where
  | illegalTransition (phase : TurnPhase) (command : TurnCommand) (terminal : Bool)
  | alreadyTerminal (command : TurnCommand) (outcome : TerminalOutcome)
  | recoveryRequiresInterrupted (terminal : Bool) (phase : TurnPhase)
  deriving DecidableEq

inductive TurnStatus where
  | active
  | terminal (outcome : TerminalOutcome)
  deriving DecidableEq

/-- `TurnSnapshot`; the phase of a terminal turn is its last one before settlement. -/
structure TurnSnapshot where
  status : TurnStatus
  turnId : String
  sessionId : String
  workspaceId : String
  traceId : String
  phase : TurnPhase
  configurationGeneration : ℕ
  runtimeGeneration : ℕ
  observationOrder : ℕ
  recordedEffect : EffectCertainty

/-- The outcome of a turn that is over. -/
def TurnSnapshot.outcome? (turn : TurnSnapshot) : Option TerminalOutcome :=
  match turn.status with
  | .active => none
  | .terminal outcome => some outcome

/-- `TurnObservation`; `source` and `target` are its `from` and `to`. -/
structure TurnObservation where
  order : ℕ
  turnId : String
  sessionId : String
  source : TurnPhase
  target : TurnPhase
  command : TurnCommand
  terminal : Bool
  runtimeGeneration : ℕ
  causationEventId : Option String
  outcome : Option TerminalOutcome

/-- `ApplyTurnTransitionInput`, less the snapshot. -/
structure TurnTransition where
  command : TurnCommand
  configurationGeneration : ℕ
  causationEventId : Option String := none
  effect : Option EffectCertainty := none
  recoveryGeneration : Option ℕ := none

/-! ## Transitions -/

/-- `PHASE_EDGES`. -/
def phaseEdges : TurnPhase → List (TurnCommand × TurnPhase)
  | .created => [(.beginOrienting, .orienting)]
  | .orienting => [(.beginAssemblingContext, .assemblingContext)]
  | .assemblingContext => [(.beginAwaitingModel, .awaitingModel)]
  | .awaitingModel => [(.beginHandlingModelEvent, .handlingModelEvent)]
  | .handlingModelEvent =>
    [(.beginExecutingCapability, .executingCapability),
      (.beginEvaluatingCompletion, .evaluatingCompletion)]
  | .executingCapability =>
    [(.cycleToModel, .awaitingModel), (.beginEvaluatingCompletion, .evaluatingCompletion)]
  | .evaluatingCompletion => []

/-- `TERMINAL_COMMANDS`. -/
def terminalCommands : List TurnCommand := [.complete, .fail, .cancel, .timeOut, .markUncertain]

def phaseTarget (phase : TurnPhase) (command : TurnCommand) : Option TurnPhase :=
  (phaseEdges phase).lookup command

def outcomeFor (command : TurnCommand) (phase : TurnPhase) (effect : EffectCertainty) :
    Option TerminalOutcome :=
  match command with
  | .complete => some .completed
  | .fail => some (.failed effect)
  | .cancel =>
    -- a mutation in flight cannot claim a clean cancel
    if phase = .executingCapability then some .uncertain else some (.cancelled effect)
  | .timeOut => some (.timedOut effect)
  | .markUncertain => some .uncertain
  | _ => none

def mergeEffect (prior next : EffectCertainty) : EffectCertainty :=
  if next.severity ≥ prior.severity then next else prior

/-- What a transition gives. -/
abbrev TransitionResult := Except TurnTransitionError (TurnSnapshot × TurnObservation)

section Transitions

variable (snapshot : TurnSnapshot) (input : TurnTransition)

/-- The observation of a transition. -/
def observation (target : TurnPhase) (runtimeGeneration : ℕ) (outcome : Option TerminalOutcome) :
    TurnObservation :=
  { order := snapshot.observationOrder + 1
    turnId := snapshot.turnId
    sessionId := snapshot.sessionId
    source := snapshot.phase
    target
    command := input.command
    terminal := outcome.isSome
    runtimeGeneration
    causationEventId := input.causationEventId
    outcome }

/-- `settleTurn`, of an active turn. -/
def settleTurn : TransitionResult :=
  match outcomeFor input.command snapshot.phase (input.effect.getD snapshot.recordedEffect) with
  | none => .error (.illegalTransition snapshot.phase input.command false)
  | some outcome =>
    -- completion leaves nothing behind that has to be inspected
    if input.command = .complete ∧ (snapshot.phase ≠ .evaluatingCompletion
        ∨ snapshot.recordedEffect = .partial_ ∨ snapshot.recordedEffect = .uncertain) then
      .error (.illegalTransition snapshot.phase input.command false)
    else
      .ok ({ snapshot with
          status := .terminal outcome
          configurationGeneration := input.configurationGeneration
          observationOrder := snapshot.observationOrder + 1
          recordedEffect := match outcome with
            | .completed => .completed
            | _ => mergeEffect snapshot.recordedEffect (effectOf outcome) },
        observation snapshot input snapshot.phase snapshot.runtimeGeneration (some outcome))

def recoverTurn : TransitionResult :=
  match snapshot.status with
  | .active => .error (.recoveryRequiresInterrupted false snapshot.phase)
  | .terminal _ =>
    match input.recoveryGeneration with
    | none => .error (.recoveryRequiresInterrupted true snapshot.phase)
    | some generation =>
      if generation = snapshot.runtimeGeneration then
        .error (.recoveryRequiresInterrupted true snapshot.phase)
      else
        .ok ({ snapshot with
            status := .active
            phase := .orienting
            configurationGeneration := generation
            runtimeGeneration := generation
            observationOrder := snapshot.observationOrder + 1 },
          observation snapshot input .orienting generation none)

def applyTurnTransition : TransitionResult :=
  if input.command = .recover then recoverTurn snapshot input
  else
    match snapshot.status with
    | .terminal outcome => .error (.alreadyTerminal input.command outcome)
    | .active =>
      if input.command ∈ terminalCommands then settleTurn snapshot input
      else
        match phaseTarget snapshot.phase input.command with
        | none => .error (.illegalTransition snapshot.phase input.command false)
        | some target =>
          .ok ({ snapshot with
              phase := target
              configurationGeneration := input.configurationGeneration
              observationOrder := snapshot.observationOrder + 1
              recordedEffect :=
                mergeEffect snapshot.recordedEffect (input.effect.getD .none) },
            observation snapshot input target snapshot.runtimeGeneration none)

end Transitions

def createTurnSnapshot (turnId sessionId workspaceId traceId : String)
    (configurationGeneration : ℕ) : TurnSnapshot :=
  { status := .active
    turnId
    sessionId
    workspaceId
    traceId
    phase := .created
    configurationGeneration
    runtimeGeneration := configurationGeneration
    observationOrder := 0
    recordedEffect := .none }

/-! ## What the transitions do -/

section Lemmas

variable {snapshot : TurnSnapshot} {input : TurnTransition}

variable {outcome : TerminalOutcome} {phase target : TurnPhase}

theorem outcome?_eq_some :
    snapshot.outcome? = some outcome ↔ snapshot.status = .terminal outcome := by
  rw [TurnSnapshot.outcome?]
  cases snapshot.status <;> simp

theorem outcome?_eq_none : snapshot.outcome? = none ↔ snapshot.status = .active := by
  rw [TurnSnapshot.outcome?]
  cases snapshot.status <;> simp

/-- **A turn that is over accepts nothing but a recovery.** -/
theorem applyTurnTransition_terminal
    (h : snapshot.status = .terminal outcome) (hr : input.command ≠ .recover) :
    applyTurnTransition snapshot input = .error (.alreadyTerminal input.command outcome) := by
  rw [applyTurnTransition, if_neg hr, h]

theorem applyTurnTransition_settles (h : snapshot.status = .active)
    (hc : input.command ∈ terminalCommands) :
    applyTurnTransition snapshot input = settleTurn snapshot input := by
  have hr : input.command ≠ .recover := by
    intro hr
    rw [hr] at hc
    simp [terminalCommands] at hc
  rw [applyTurnTransition, if_neg hr, h]
  exact if_pos hc

/-- **Settling an active turn** by anything but `complete` always works, with the outcome the command
stands for in its phase. -/
theorem applyTurnTransition_settles_ok (input : TurnTransition) (h : snapshot.status = .active)
    (hc : input.command ∈ terminalCommands) (hne : input.command ≠ .complete)
    (ho : outcomeFor input.command snapshot.phase (input.effect.getD snapshot.recordedEffect)
      = some outcome) :
    ∃ turn obs, applyTurnTransition snapshot input = .ok (turn, obs)
      ∧ turn.status = .terminal outcome := by
  rw [applyTurnTransition_settles h hc, settleTurn, ho]
  dsimp only
  rw [if_neg fun hcomp => hne hcomp.1]
  exact ⟨_, _, rfl, rfl⟩

/-- A turn after a command that moved it to a phase. -/
def movedTurn (snapshot : TurnSnapshot) (input : TurnTransition) (target : TurnPhase) :
    TurnSnapshot :=
  { snapshot with
    phase := target
    configurationGeneration := input.configurationGeneration
    observationOrder := snapshot.observationOrder + 1
    recordedEffect := mergeEffect snapshot.recordedEffect (input.effect.getD .none) }

/-- A command that settles nothing leaves an active turn active. -/
theorem applyTurnTransition_moves (h : snapshot.status = .active)
    (hc : input.command ∉ terminalCommands) (hr : input.command ≠ .recover) :
    (∃ error, applyTurnTransition snapshot input = .error error
        ∧ phaseTarget snapshot.phase input.command = none)
      ∨ ∃ obs target, applyTurnTransition snapshot input = .ok (movedTurn snapshot input target, obs)
        ∧ phaseTarget snapshot.phase input.command = some target := by
  rw [applyTurnTransition, if_neg hr, h]
  dsimp only
  rw [if_neg hc]
  cases phaseTarget snapshot.phase input.command with
  | none => exact .inl ⟨_, rfl, rfl⟩
  | some target =>
    refine .inr ⟨observation snapshot input target snapshot.runtimeGeneration none, target, ?_, rfl⟩
    rw [movedTurn, h]

theorem phaseTarget_beginEvaluatingCompletion (phase : TurnPhase) :
    phaseTarget phase .beginEvaluatingCompletion
      = if phase = .handlingModelEvent ∨ phase = .executingCapability then
          some .evaluatingCompletion
        else none := by
  cases phase <;> rfl

theorem phaseTarget_beginExecutingCapability
    (h : phaseTarget phase .beginExecutingCapability = some target) :
    phase = .handlingModelEvent := by
  cases phase <;> first | rfl | cases h

theorem phaseTarget_beginHandlingModelEvent
    (h : phaseTarget phase .beginHandlingModelEvent = some target) : phase = .awaitingModel := by
  cases phase <;> first | rfl | cases h

@[simp] theorem mergeEffect_none (effect : EffectCertainty) : mergeEffect effect .none = effect := by
  cases effect <;> rfl

end Lemmas

end Falryn.Sessions
