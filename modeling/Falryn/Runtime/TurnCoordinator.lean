import Falryn.Sessions.TurnMachine

/-!
# The turn coordinator

The turns of a runtime in memory (`application/runtime/turn-coordinator.ts`).  A gate may turn a legal
completion into a failure: it is asked about the turn as it stands, and since a turn is asked about
at most once in one state, a gate with a memory of its own is still a function of the turn.
-/

namespace Falryn.Runtime

open Orchestration Sessions

inductive TurnCoordinatorError where
  | transition (error : TurnTransitionError)
  | turnNotFound (turnId : String)
  | turnAlreadyExists (turnId : String)
  deriving DecidableEq

/-- What `canComplete` answers. -/
structure CompletionVerdict where
  allowed : Bool
  effect : EffectCertainty

/-- The option `canComplete`. -/
abbrev CompletionGate := Option (TurnSnapshot → CompletionVerdict)

structure TurnCoordinator where
  snapshots : String → Option TurnSnapshot
  history : String → List TurnObservation

namespace TurnCoordinator

/-- `createTurnCoordinator`. -/
def empty : TurnCoordinator := ⟨fun _ => none, fun _ => []⟩

variable (c : TurnCoordinator)

def get (turnId : String) : Option TurnSnapshot := c.snapshots turnId

def start (turnId sessionId workspaceId traceId : String) (configurationGeneration : ℕ) :
    Except TurnCoordinatorError TurnCoordinator :=
  match c.snapshots turnId with
  | some _ => .error (.turnAlreadyExists turnId)
  | none =>
    .ok { snapshots := Function.update c.snapshots turnId
            (some (createTurnSnapshot turnId sessionId workspaceId traceId configurationGeneration))
          history := Function.update c.history turnId [] }

/-- The transition `apply` makes: a completion the gate does not allow becomes a failure. -/
def transition (gate : CompletionGate) (current : TurnSnapshot) (input : TurnTransition) :
    TransitionResult :=
  match applyTurnTransition current input with
  | .error error => .error error
  | .ok result =>
    match gate with
    | none => .ok result
    | some canComplete =>
      if input.command = .complete ∧ (canComplete current).allowed = false then
        applyTurnTransition current
          { input with command := .fail, effect := some (canComplete current).effect }
      else .ok result

def apply (gate : CompletionGate) (turnId : String) (input : TurnTransition) :
    Except TurnCoordinatorError TurnCoordinator :=
  match c.snapshots turnId with
  | none => .error (.turnNotFound turnId)
  | some current =>
    match transition gate current input with
    | .error error => .error (.transition error)
    | .ok (turn, observation) =>
      .ok { snapshots := Function.update c.snapshots turnId (some turn)
            history := Function.update c.history turnId (c.history turnId ++ [observation]) }

/-! ## What `apply` does -/

section Lemmas

variable {c : TurnCoordinator} (gate : CompletionGate) {turnId : String} {turn : TurnSnapshot}
  (input : TurnTransition) {outcome : TerminalOutcome} {c' : TurnCoordinator}

theorem transition_of_ne_complete {gate : CompletionGate} {input : TurnTransition} (h : input.command ≠ .complete) :
    transition gate turn input = applyTurnTransition turn input := by
  rw [transition]
  cases applyTurnTransition turn input with
  | error error => rfl
  | ok =>
    cases gate with
    | none => rfl
    | some => exact if_neg fun hc => h hc.1

theorem apply_eq {gate : CompletionGate} {input : TurnTransition} (h : c.get turnId = some turn) :
    c.apply gate turnId input = match transition gate turn input with
      | .error error => .error (.transition error)
      | .ok (turn', observation) =>
        .ok { snapshots := Function.update c.snapshots turnId (some turn')
              history := Function.update c.history turnId (c.history turnId ++ [observation]) } := by
  have h' : c.snapshots turnId = some turn := h
  rw [apply, h']

theorem get_update (snapshots : String → Option TurnSnapshot) (history : String → List TurnObservation)
    (turnId : String) (turn : TurnSnapshot) :
    (⟨Function.update snapshots turnId (some turn), history⟩ : TurnCoordinator).get turnId
      = some turn :=
  Function.update_self _ _ _

/-- **A turn that is over stays as it is**, recoveries apart. -/
theorem apply_terminal {gate : CompletionGate} {input : TurnTransition} (h : c.get turnId = some turn)
    (ht : turn.status = .terminal outcome) (hr : input.command ≠ .recover) :
    c.apply gate turnId input
      = .error (.transition (.alreadyTerminal input.command outcome)) := by
  rw [apply_eq h, transition, applyTurnTransition_terminal ht hr]

theorem apply_missing {gate : CompletionGate} {input : TurnTransition} (h : c.get turnId = none) :
    c.apply gate turnId input = .error (.turnNotFound turnId) := by
  have h' : c.snapshots turnId = none := h
  rw [apply, h']

/-- A turn that was acted on is there. -/
theorem apply_present {gate : CompletionGate} {input : TurnTransition}
    (h : c.apply gate turnId input = .ok c') : (c'.get turnId).isSome = true := by
  rw [apply] at h
  split at h
  · cases h
  · split at h
    · cases h
    · cases h
      rw [get_update]
      rfl

/-- An active turn can always be settled by anything but `complete`. -/
theorem apply_settles (h : c.get turnId = some turn) (ha : turn.status = .active)
    (hc : input.command ∈ terminalCommands) (hne : input.command ≠ .complete)
    (ho : outcomeFor input.command turn.phase (input.effect.getD turn.recordedEffect)
      = some outcome) :
    ∃ c' turn', c.apply gate turnId input = .ok c' ∧ c'.get turnId = some turn'
      ∧ turn'.status = .terminal outcome := by
  obtain ⟨turn', obs, happ, hst⟩ := applyTurnTransition_settles_ok input ha hc hne ho
  rw [apply_eq h, transition_of_ne_complete hne, happ]
  exact ⟨_, turn', rfl, get_update _ _ _ _, hst⟩

/-- A command that moves an active turn leaves it active. -/
theorem apply_moves (h : c.get turnId = some turn) (ha : turn.status = .active)
    (hc : input.command ∉ terminalCommands) (hr : input.command ≠ .recover) :
    (∃ error, c.apply gate turnId input = .error error
        ∧ phaseTarget turn.phase input.command = none)
      ∨ ∃ c' target, c.apply gate turnId input = .ok c'
        ∧ c'.get turnId = some (movedTurn turn input target)
        ∧ phaseTarget turn.phase input.command = some target := by
  have hne : input.command ≠ .complete := by
    intro hcomp
    rw [hcomp] at hc
    simp [terminalCommands] at hc
  rw [apply_eq h, transition_of_ne_complete hne]
  rcases applyTurnTransition_moves ha hc hr with ⟨error, happ, hno⟩ | ⟨obs, target, happ, hto⟩
  · rw [happ]
    exact .inl ⟨_, rfl, hno⟩
  · rw [happ]
    exact .inr ⟨_, target, rfl, get_update _ _ _ _, hto⟩

/-- **A turn that was moved** was active, in a phase that the command leads out of. -/
theorem apply_moves_ok {gate : CompletionGate} {input : TurnTransition}
    (hc : input.command ∉ terminalCommands) (hr : input.command ≠ .recover)
    (happ : c.apply gate turnId input = .ok c') :
    ∃ turn target, c.get turnId = some turn ∧ turn.status = .active
      ∧ phaseTarget turn.phase input.command = some target
      ∧ c'.get turnId = some (movedTurn turn input target) := by
  cases hget : c.get turnId with
  | none =>
    rw [apply_missing hget] at happ
    cases happ
  | some turn =>
    cases hst : turn.status with
    | terminal =>
      rw [apply_terminal hget hst hr] at happ
      cases happ
    | active =>
      rcases apply_moves gate input hget hst hc hr with ⟨error, happ', -⟩ | ⟨c'', target, happ', h, hto⟩
      · rw [happ'] at happ
        cases happ
      · rw [happ'] at happ
        cases happ
        exact ⟨turn, target, rfl, hst, hto, h⟩

/-- The effect of a turn that completes: the gate may make it a failure. -/
def completionEffect (gate : CompletionGate) (turn : TurnSnapshot) : EffectCertainty :=
  match gate with
  | none => .completed
  | some canComplete =>
    if (canComplete turn).allowed then .completed else (canComplete turn).effect

/-- **Completing a turn** works unless something is left to inspect. -/
theorem apply_complete (h : c.get turnId = some turn) (ha : turn.status = .active)
    (hp : turn.phase = .evaluatingCompletion) (hc : input.command = .complete) :
    (¬ turn.recordedEffect ≤ .completed ∧ ∃ error, c.apply gate turnId input = .error error)
      ∨ (turn.recordedEffect ≤ .completed ∧ ∃ c' turn' outcome, c.apply gate turnId input = .ok c'
        ∧ c'.get turnId = some turn' ∧ turn'.status = .terminal outcome
        ∧ effectOf outcome = completionEffect gate turn) := by
  have hmem : input.command ∈ terminalCommands := by simp [hc, terminalCommands]
  have hguard : (input.command = .complete ∧ (turn.phase ≠ .evaluatingCompletion
      ∨ turn.recordedEffect = .partial_ ∨ turn.recordedEffect = .uncertain))
      ↔ ¬ turn.recordedEffect ≤ .completed := by
    rw [hc, hp]
    cases turn.recordedEffect <;> simp [EffectCertainty.le_iff, EffectCertainty.severity]
  have hout : outcomeFor input.command turn.phase (input.effect.getD turn.recordedEffect)
      = some .completed := by
    rw [hc]
    rfl
  rw [apply_eq h]
  by_cases hle : turn.recordedEffect ≤ .completed
  · refine .inr ⟨hle, ?_⟩
    have hok : ∃ turn' obs, applyTurnTransition turn input = .ok (turn', obs)
        ∧ turn'.status = .terminal .completed := by
      rw [applyTurnTransition_settles ha hmem, settleTurn, hout]
      dsimp only
      rw [if_neg fun hg => hguard.1 hg hle]
      exact ⟨_, _, rfl, rfl⟩
    obtain ⟨turn', obs, happ, hst⟩ := hok
    rw [transition, happ]
    cases gate with
    | none => exact ⟨_, turn', .completed, rfl, get_update _ _ _ _, hst, rfl⟩
    | some canComplete =>
      dsimp only
      cases hallowed : (canComplete turn).allowed with
      | true =>
        rw [if_neg (by simp)]
        refine ⟨_, turn', .completed, rfl, get_update _ _ _ _, hst, ?_⟩
        simp [completionEffect, hallowed, effectOf]
      | false =>
        obtain ⟨turn'', obs', happ', hst'⟩ := applyTurnTransition_settles_ok
          { input with command := .fail, effect := some (canComplete turn).effect } ha
          (by simp [terminalCommands]) (by simp) rfl
        rw [if_pos ⟨hc, rfl⟩, happ']
        refine ⟨_, turn'', _, rfl, get_update _ _ _ _, hst', ?_⟩
        simp [completionEffect, hallowed, effectOf]
  · refine .inl ⟨hle, ?_⟩
    rw [transition, applyTurnTransition_settles ha hmem, settleTurn, hout]
    dsimp only
    rw [if_pos (hguard.2 hle)]
    exact ⟨_, rfl⟩

end Lemmas

end TurnCoordinator

end Falryn.Runtime
