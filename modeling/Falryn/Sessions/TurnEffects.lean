import Falryn.Lib.StateMachine
import Falryn.Sessions.TurnMachine

/-!
# What a turn reports of its effects

Effects reach a turn with its commands.  A command that moves the turn on merges them into what is
recorded; a settling command takes the supplied effect for the outcome *instead* of the recorded one,
`complete` and `recover` look at neither.  This file follows runs of `applyTurnTransition` together
with every effect that was supplied to an accepted command, and says for which runs the record and
the outcome are never less severe than what was supplied.
-/

namespace Falryn.Sessions

open Orchestration

/-! ## What a transition can do -/

section Transitions

variable {snapshot turn : TurnSnapshot} {input : TurnTransition} {obs : TurnObservation}
  {outcome : TerminalOutcome}

/-- A turn after a command that settled it. -/
def settledTurn (snapshot : TurnSnapshot) (input : TurnTransition) (outcome : TerminalOutcome) :
    TurnSnapshot :=
  { snapshot with
    status := .terminal outcome
    configurationGeneration := input.configurationGeneration
    observationOrder := snapshot.observationOrder + 1
    recordedEffect := match outcome with
      | .completed => .completed
      | _ => mergeEffect snapshot.recordedEffect (effectOf outcome) }

/-- A turn after its recovery. -/
def recoveredTurn (snapshot : TurnSnapshot) (generation : ℕ) : TurnSnapshot :=
  { snapshot with
    status := .active
    phase := .orienting
    configurationGeneration := generation
    runtimeGeneration := generation
    observationOrder := snapshot.observationOrder + 1 }

/-- A completion is refused where the phase or the record speaks against it. -/
def RefusesCompletion (snapshot : TurnSnapshot) : Prop :=
  snapshot.phase ≠ .evaluatingCompletion
    ∨ snapshot.recordedEffect = .partial_ ∨ snapshot.recordedEffect = .uncertain

instance : Decidable (RefusesCompletion snapshot) := by
  unfold RefusesCompletion
  infer_instance

/-- The ways in which a transition is accepted. -/
inductive Accepted (snapshot : TurnSnapshot) (input : TurnTransition) : TurnSnapshot → Prop
  | moved (target : TurnPhase) (active : snapshot.status = .active)
      (command : input.command ∉ terminalCommands) (not_recover : input.command ≠ .recover) :
      Accepted snapshot input (movedTurn snapshot input target)
  | settled (outcome : TerminalOutcome) (active : snapshot.status = .active)
      (found : outcomeFor input.command snapshot.phase
        (input.effect.getD snapshot.recordedEffect) = some outcome)
      (completes : input.command = .complete → ¬ RefusesCompletion snapshot) :
      Accepted snapshot input (settledTurn snapshot input outcome)
  | recovered (outcome : TerminalOutcome) (generation : ℕ)
      (terminal : snapshot.status = .terminal outcome) (command : input.command = .recover)
      (supplied : input.recoveryGeneration = some generation)
      (changed : generation ≠ snapshot.runtimeGeneration) :
      Accepted snapshot input (recoveredTurn snapshot generation)

theorem settleTurn_accepted (hactive : snapshot.status = .active)
    (h : settleTurn snapshot input = .ok (turn, obs)) : Accepted snapshot input turn := by
  unfold settleTurn at h
  split at h
  · cases h
  · rename_i outcome hfound
    split_ifs at h with hrefused
    cases h
    exact .settled outcome hactive hfound fun hcommand hbad => hrefused ⟨hcommand, hbad⟩

theorem recoverTurn_accepted (hcommand : input.command = .recover)
    (h : recoverTurn snapshot input = .ok (turn, obs)) : Accepted snapshot input turn := by
  unfold recoverTurn at h
  split at h
  · cases h
  · rename_i outcome hterminal
    split at h
    · cases h
    · rename_i generation hgeneration
      by_cases hsame : generation = snapshot.runtimeGeneration
      · rw [if_pos hsame] at h
        cases h
      · rw [if_neg hsame] at h
        cases h
        exact .recovered outcome generation hterminal hcommand hgeneration hsame

theorem applyTurnTransition_accepted (h : applyTurnTransition snapshot input = .ok (turn, obs)) :
    Accepted snapshot input turn := by
  by_cases hrecover : input.command = .recover
  · rw [applyTurnTransition, if_pos hrecover] at h
    exact recoverTurn_accepted hrecover h
  · cases hstatus : snapshot.status with
    | terminal outcome =>
      rw [applyTurnTransition_terminal hstatus hrecover] at h
      cases h
    | active =>
      by_cases hterminal : input.command ∈ terminalCommands
      · rw [applyTurnTransition_settles hstatus hterminal] at h
        exact settleTurn_accepted hstatus h
      · rcases applyTurnTransition_moves hstatus hterminal hrecover with
          ⟨error, herror, _⟩ | ⟨obs', target, hmoved, _⟩
        · rw [herror] at h
          cases h
        · rw [hmoved] at h
          cases h
          exact .moved target hstatus hterminal hrecover

theorem mergeEffect_eq_max (prior next : EffectCertainty) :
    mergeEffect prior next = max prior next := by
  unfold mergeEffect
  by_cases h : next.severity ≥ prior.severity
  · rw [if_pos h]
    exact (max_eq_right (EffectCertainty.le_iff.2 h)).symm
  · rw [if_neg h]
    exact (max_eq_left (le_of_not_ge fun hle => h (EffectCertainty.le_iff.1 hle))).symm

theorem le_completed_of_not_refused (h : ¬ RefusesCompletion snapshot) :
    snapshot.recordedEffect ≤ .completed := by
  rw [RefusesCompletion, not_or, not_or] at h
  obtain ⟨_, hpartial, huncertain⟩ := h
  cases heffect : snapshot.recordedEffect with
  | none => exact EffectCertainty.le_iff.2 (by decide)
  | completed => exact le_rfl
  | partial_ => exact absurd heffect hpartial
  | uncertain => exact absurd heffect huncertain

/-- Only a completion has the outcome `completed`. -/
theorem outcomeFor_completed {command : TurnCommand} {phase : TurnPhase} {effect : EffectCertainty} :
    outcomeFor command phase effect = some .completed ↔ command = .complete := by
  cases command <;> simp [outcomeFor]
  split_ifs <;> simp

theorem settledTurn_recordedEffect
    (h : outcome = .completed → snapshot.recordedEffect ≤ .completed) :
    (settledTurn snapshot input outcome).recordedEffect
      = max snapshot.recordedEffect (effectOf outcome) := by
  cases outcome with
  | completed => exact (max_eq_right (h rfl)).symm
  | failed effect | cancelled effect | timedOut effect | uncertain => exact mergeEffect_eq_max _ _

namespace Accepted

/-- **An accepted command counts once.** -/
theorem observationOrder (h : Accepted snapshot input turn) :
    turn.observationOrder = snapshot.observationOrder + 1 := by
  cases h <;> rfl

variable {outcome : TerminalOutcome}

/-- What a settling command leaves recorded. -/
theorem settled_recordedEffect (hfound : outcomeFor input.command snapshot.phase
      (input.effect.getD snapshot.recordedEffect) = some outcome)
    (hcompletes : input.command = .complete → ¬ RefusesCompletion snapshot) :
    (settledTurn snapshot input outcome).recordedEffect
      = max snapshot.recordedEffect (effectOf outcome) := by
  refine settledTurn_recordedEffect fun hcompleted => ?_
  rw [hcompleted, outcomeFor_completed] at hfound
  exact le_completed_of_not_refused (hcompletes hfound)

/-- **The recorded effect never becomes less severe.** -/
theorem recordedEffect_le (h : Accepted snapshot input turn) :
    snapshot.recordedEffect ≤ turn.recordedEffect := by
  cases h with
  | moved target =>
    show snapshot.recordedEffect ≤ mergeEffect _ _
    rw [mergeEffect_eq_max]
    exact le_max_left _ _
  | settled outcome _ hfound hcompletes =>
    rw [settled_recordedEffect hfound hcompletes]
    exact le_max_left _ _
  | recovered outcome generation => exact le_rfl

/-- **A turn that is over changes by a recovery only**, under another runtime generation. -/
theorem of_terminal (h : Accepted snapshot input turn)
    (hterminal : snapshot.status = .terminal outcome) :
    input.command = .recover ∧ turn.runtimeGeneration ≠ snapshot.runtimeGeneration := by
  cases h with
  | moved target hactive | settled outcome hactive => rw [hactive] at hterminal; cases hterminal
  | recovered outcome generation _ hcommand _ hchanged => exact ⟨hcommand, hchanged⟩

end Accepted

/-! ### Commands that are accepted -/

theorem settleTurn_complete (h : ¬ RefusesCompletion snapshot) (hcommand : input.command = .complete) :
    ∃ obs, settleTurn snapshot input = .ok (settledTurn snapshot input .completed, obs) := by
  unfold settleTurn
  rw [hcommand]
  dsimp only [outcomeFor]
  rw [if_neg fun hrefused => h hrefused.2]
  exact ⟨_, rfl⟩

theorem recoverTurn_recovers {generation : ℕ} (hterminal : snapshot.status = .terminal outcome)
    (hgeneration : input.recoveryGeneration = some generation)
    (hne : generation ≠ snapshot.runtimeGeneration) :
    ∃ obs, recoverTurn snapshot input = .ok (recoveredTurn snapshot generation, obs) := by
  unfold recoverTurn
  rw [hterminal, hgeneration]
  dsimp only
  rw [if_neg hne]
  exact ⟨_, rfl⟩

end Transitions

/-! ## Runs -/

/-- A run of a turn: where the turn is, the effects supplied to the commands it accepted, and how many
these were. -/
structure TurnRun where
  turn : TurnSnapshot
  supplied : List EffectCertainty
  accepted : ℕ

namespace TurnRun

/-- A run that starts with a created turn. -/
def start (turnId sessionId workspaceId traceId : String) (generation : ℕ) : TurnRun :=
  ⟨createTurnSnapshot turnId sessionId workspaceId traceId generation, [], 0⟩

/-- A command put to the turn; a rejected one leaves it as it is. -/
def step (run : TurnRun) (input : TurnTransition) : Option TurnRun :=
  match applyTurnTransition run.turn input with
  | .error _ => some run
  | .ok (turn, _) => some ⟨turn, run.supplied ++ input.effect.toList, run.accepted + 1⟩

variable {run run' : TurnRun} {input : TurnTransition} {outcome : TerminalOutcome}
  {error : TurnTransitionError}

theorem step_cases (h : run.step input = some run') :
    (∃ error, applyTurnTransition run.turn input = .error error ∧ run' = run)
      ∨ ∃ turn, Accepted run.turn input turn
        ∧ run' = ⟨turn, run.supplied ++ input.effect.toList, run.accepted + 1⟩ := by
  unfold step at h
  split at h
  · rename_i error herror
    cases h
    exact .inl ⟨error, herror, rfl⟩
  · rename_i turn obs hok
    cases h
    exact .inr ⟨turn, applyTurnTransition_accepted hok, rfl⟩

/-- What is recorded, and an outcome reached, are no less severe than what was supplied. -/
structure KeepsEffects (run : TurnRun) : Prop where
  recorded : ∀ effect ∈ run.supplied, effect ≤ run.turn.recordedEffect
  reported : ∀ outcome, run.turn.status = .terminal outcome →
    run.turn.recordedEffect ≤ effectOf outcome

/-- A command that would be accepted and that supplies an effect which the code drops, or takes for
the outcome in place of a more severe one on record. -/
def LosesEffect (turn : TurnSnapshot) (input : TurnTransition) (effect : EffectCertainty) : Prop :=
  match turn.status, input.command with
  | .active, .complete => ¬ RefusesCompletion turn ∧ .completed < effect
  | .active, .cancel => turn.phase ≠ .executingCapability ∧ effect < turn.recordedEffect
  | .active, .fail => effect < turn.recordedEffect
  | .active, .timeOut => effect < turn.recordedEffect
  | .terminal _, .recover =>
    (∃ generation, input.recoveryGeneration = some generation
      ∧ generation ≠ turn.runtimeGeneration) ∧ turn.recordedEffect < effect
  | _, _ => False

/-- No effect supplied with a command is lost. -/
def LosesNone (run : TurnRun) (input : TurnTransition) : Prop :=
  ∀ effect, input.effect = some effect → ¬ LosesEffect run.turn input effect

/-- A settlement other than a completion is not rejected. -/
theorem not_error_of_settles {turn : TurnSnapshot} (hactive : turn.status = .active)
    (hmem : input.command ∈ terminalCommands) (hne : input.command ≠ .complete)
    (hfound : outcomeFor input.command turn.phase (input.effect.getD turn.recordedEffect)
      = some outcome) : applyTurnTransition turn input ≠ .error error := by
  obtain ⟨turn', obs, hok, _⟩ := applyTurnTransition_settles_ok input hactive hmem hne hfound
  rw [hok]
  exact fun h => nomatch h

/-- A rejected command loses nothing. -/
theorem losesNone_of_error
    (h : applyTurnTransition run.turn input = .error error) : run.LosesNone input := by
  intro effect _ hloses
  unfold LosesEffect at hloses
  split at hloses
  · rename_i hactive hcommand
    obtain ⟨obs, hok⟩ := settleTurn_complete hloses.1 hcommand
    rw [applyTurnTransition_settles hactive (by rw [hcommand]; decide), hok] at h
    cases h
  · rename_i hactive hcommand
    exact not_error_of_settles hactive (by rw [hcommand]; decide) (by rw [hcommand]; decide)
      (by rw [hcommand, outcomeFor, if_neg hloses.1]) h
  · rename_i hactive hcommand
    exact not_error_of_settles hactive (by rw [hcommand]; decide) (by rw [hcommand]; decide)
      (by rw [hcommand, outcomeFor]) h
  · rename_i hactive hcommand
    exact not_error_of_settles hactive (by rw [hcommand]; decide) (by rw [hcommand]; decide)
      (by rw [hcommand, outcomeFor]) h
  · rename_i outcome hterminal hcommand
    obtain ⟨⟨generation, hgeneration, hne⟩, _⟩ := hloses
    obtain ⟨obs, hok⟩ := recoverTurn_recovers hterminal hgeneration hne
    rw [applyTurnTransition, if_pos hcommand, hok] at h
    cases h
  · exact hloses

/-- A command that moves an active turn on loses nothing: its effect is merged. -/
theorem losesNone_of_moves (hactive : run.turn.status = .active)
    (hcommand : input.command ∉ terminalCommands) : run.LosesNone input := by
  intro effect _ hloses
  unfold LosesEffect at hloses
  split at hloses
  · rename_i hcomplete
    exact hcommand (by rw [hcomplete]; decide)
  · rename_i hcancel
    exact hcommand (by rw [hcancel]; decide)
  · rename_i hfail
    exact hcommand (by rw [hfail]; decide)
  · rename_i htimeOut
    exact hcommand (by rw [htimeOut]; decide)
  · rename_i outcome hterminal _
    rw [hactive] at hterminal
    cases hterminal
  · exact hloses

/-- A settlement loses nothing exactly when its outcome is no less severe than the record and the
supplied effect. -/
theorem losesNone_settled (hactive : run.turn.status = .active)
    (hfound : outcomeFor input.command run.turn.phase
      (input.effect.getD run.turn.recordedEffect) = some outcome)
    (hcompletes : input.command = .complete → ¬ RefusesCompletion run.turn) :
    run.LosesNone input ↔
      run.turn.recordedEffect ≤ effectOf outcome
        ∧ ∀ effect, input.effect = some effect → effect ≤ effectOf outcome := by
  unfold LosesNone LosesEffect
  rw [hactive]
  cases hcommand : input.command <;> rw [hcommand] at hfound <;> simp only [outcomeFor] at hfound
  all_goals try cases hfound
  case complete =>
    have hnot := hcompletes hcommand
    simp only [hnot, not_false_eq_true, true_and, not_lt, effectOf]
    exact (and_iff_right (le_completed_of_not_refused hnot)).symm
  case fail => cases input.effect <;> simp [effectOf]
  case timeOut => cases input.effect <;> simp [effectOf]
  case cancel =>
    by_cases hphase : run.turn.phase = .executingCapability
    · rw [if_pos hphase] at hfound
      cases hfound
      simp [hphase, effectOf]
    · rw [if_neg hphase] at hfound
      cases hfound
      cases input.effect <;> simp [hphase, effectOf]
  case markUncertain => simp [effectOf]

/-- **One command** keeps the record and the outcome no less severe than what was supplied exactly
when it loses nothing. -/
theorem keepsEffects_step (hrun : run.KeepsEffects) (h : run.step input = some run') :
    run'.KeepsEffects ↔ run.LosesNone input := by
  rcases step_cases h with ⟨error, herror, rfl⟩ | ⟨turn, haccepted, rfl⟩
  · exact iff_of_true hrun (losesNone_of_error herror)
  · have hold : ∀ effect ∈ run.supplied, effect ≤ turn.recordedEffect := fun effect hmem =>
      (hrun.recorded effect hmem).trans haccepted.recordedEffect_le
    have hsupplied : (∀ effect ∈ run.supplied ++ input.effect.toList, effect ≤ turn.recordedEffect)
        ↔ ∀ effect, input.effect = some effect → effect ≤ turn.recordedEffect := by
      simp only [List.mem_append, Option.mem_toList]
      exact ⟨fun hall effect heffect => hall effect (.inr heffect), fun hnew effect hmem =>
        hmem.elim (hold effect) (hnew effect)⟩
    cases haccepted with
    | moved target hactive hcommand hrecover =>
      refine iff_of_true ⟨hsupplied.2 fun effect heffect => ?_, fun outcome hterminal => ?_⟩
        (losesNone_of_moves hactive hcommand)
      · show effect ≤ mergeEffect _ _
        rw [mergeEffect_eq_max, heffect]
        exact le_max_right _ _
      · rw [show (movedTurn run.turn input target).status = run.turn.status from rfl, hactive]
          at hterminal
        cases hterminal
    | settled outcome hactive hfound hcompletes =>
      rw [losesNone_settled hactive hfound hcompletes]
      have hrecorded := Accepted.settled_recordedEffect hfound hcompletes
      constructor
      · intro hkeeps
        have hle := hkeeps.reported outcome rfl
        refine ⟨?_, fun effect heffect => (hsupplied.1 hkeeps.recorded effect heffect).trans hle⟩
        rw [hrecorded] at hle
        exact (max_le_iff.1 hle).1
      · rintro ⟨hle, hnew⟩
        rw [max_eq_right hle] at hrecorded
        refine ⟨hsupplied.2 fun effect heffect => ?_, fun outcome' hterminal => ?_⟩
        · rw [hrecorded]
          exact hnew effect heffect
        · cases hterminal
          exact hrecorded.le
    | recovered outcome generation hterminal hcommand hgeneration hne =>
      have hloses : run.LosesNone input
          ↔ ∀ effect, input.effect = some effect → effect ≤ run.turn.recordedEffect := by
        unfold LosesNone LosesEffect
        rw [hterminal, hcommand]
        refine forall₂_congr fun effect _ => ?_
        rw [not_and, not_lt]
        exact ⟨fun hall => hall ⟨generation, hgeneration, hne⟩, fun hle _ => hle⟩
      rw [hloses]
      refine ⟨fun hkeeps => hsupplied.1 hkeeps.recorded, fun hnew =>
        ⟨hsupplied.2 hnew, fun outcome' hactive => ?_⟩⟩
      cases hactive

/-- Commands always go somewhere. -/
theorem step_isSome (run : TurnRun) (input : TurnTransition) :
    ∃ run', run.step input = some run' := by
  unfold step
  split
  · exact ⟨_, rfl⟩
  · exact ⟨_, rfl⟩

theorem run_isSome (inputs : List TurnTransition) (run : TurnRun) :
    ∃ run', StateMachine.run step run inputs = some run' := by
  induction inputs generalizing run with
  | nil => exact ⟨run, rfl⟩
  | cons input inputs ih =>
    obtain ⟨next, hnext⟩ := step_isSome run input
    obtain ⟨last, hlast⟩ := ih next
    exact ⟨last, StateMachine.run_cons.2 ⟨next, hnext, hlast⟩⟩

/-- The observation order counts the accepted commands. -/
theorem order_eq_accepted {inputs : List TurnTransition}
    (hstart : run.turn.observationOrder = run.accepted)
    (h : StateMachine.run step run inputs = some run') :
    run'.turn.observationOrder = run'.accepted := by
  refine StateMachine.run_invariant
    (I := fun r : TurnRun => r.turn.observationOrder = r.accepted) ?_ hstart h
  intro run input run' horder hstep
  rcases step_cases hstep with ⟨error, _, rfl⟩ | ⟨turn, haccepted, rfl⟩
  · exact horder
  · exact haccepted.observationOrder.trans (congrArg (· + 1) horder)

theorem keepsEffects_start (turnId sessionId workspaceId traceId : String) (generation : ℕ) :
    (start turnId sessionId workspaceId traceId generation).KeepsEffects :=
  ⟨fun _ h => (nomatch h), fun _ h => (nomatch h)⟩

end TurnRun

open TurnRun

/-- **What a turn reports of its effects**, over every run of commands from a created turn.  The
observation order is the number of accepted commands; a rejected command changes nothing; an accepted
one never makes the recorded effect less severe, and one put to a terminal turn is a recovery under
another runtime generation.  The record and every outcome are at least as severe as every effect
supplied to an accepted command, in every state of the run, exactly when no command loses an effect. -/
theorem turn_keeps_effects (turnId sessionId workspaceId traceId : String) (generation : ℕ)
    (inputs : List TurnTransition) :
    ∃ run, StateMachine.run step (start turnId sessionId workspaceId traceId generation) inputs
        = some run
      ∧ run.turn.observationOrder = run.accepted
      ∧ (∀ input,
          (∃ error, applyTurnTransition run.turn input = .error error ∧ run.step input = some run)
          ∨ ∃ turn obs, applyTurnTransition run.turn input = .ok (turn, obs)
            ∧ turn.observationOrder = run.turn.observationOrder + 1
            ∧ run.turn.recordedEffect ≤ turn.recordedEffect
            ∧ ∀ outcome, run.turn.status = .terminal outcome →
                input.command = .recover
                  ∧ turn.runtimeGeneration ≠ run.turn.runtimeGeneration)
      ∧ ((∀ k run', StateMachine.run step (start turnId sessionId workspaceId traceId generation)
            (inputs.take k) = some run' → run'.KeepsEffects)
          ↔ StateMachine.Along step LosesNone
              (start turnId sessionId workspaceId traceId generation) inputs)
      ∧ (StateMachine.Along step LosesNone
            (start turnId sessionId workspaceId traceId generation) inputs →
          ∀ k run' outcome, StateMachine.run step
              (start turnId sessionId workspaceId traceId generation) (inputs.take k) = some run' →
            run'.turn.status = .terminal outcome →
            ∀ effect ∈ run'.supplied, effect ≤ effectOf outcome) := by
  obtain ⟨run, hrun⟩ :=
    run_isSome inputs (start turnId sessionId workspaceId traceId generation)
  have hkeeps := StateMachine.run_take_iff_along (P := LosesNone) (I := KeepsEffects)
    (fun _ _ _ hrun hstep => keepsEffects_step hrun hstep)
    (keepsEffects_start turnId sessionId workspaceId traceId generation) hrun
  refine ⟨run, hrun, order_eq_accepted rfl hrun, fun input => ?_, hkeeps, ?_⟩
  · cases hresult : applyTurnTransition run.turn input with
    | error error => exact .inl ⟨error, rfl, by rw [step, hresult]⟩
    | ok result =>
      have haccepted := applyTurnTransition_accepted hresult
      exact .inr ⟨result.1, result.2, rfl, haccepted.observationOrder,
        haccepted.recordedEffect_le, fun outcome => haccepted.of_terminal⟩
  · intro hall k run' outcome hk hterminal effect hmem
    have hkept := hkeeps.2 hall k run' hk
    exact (hkept.recorded effect hmem).trans (hkept.reported outcome hterminal)

/-- An uncertain effect comes with the first command, and the failure after it claims that nothing
happened. -/
theorem failure_forgets_uncertain :
    ∃ run, StateMachine.run step (start "turn" "session" "workspace" "trace" 0)
        [{ command := .beginOrienting, configurationGeneration := 0, effect := some .uncertain },
          { command := .fail, configurationGeneration := 0, effect := some .none }] = some run
      ∧ run.turn.status = .terminal (.failed .none)
      ∧ EffectCertainty.uncertain ∈ run.supplied
      ∧ ¬ EffectCertainty.uncertain ≤ effectOf (.failed .none) :=
  ⟨_, rfl, rfl, by decide, by rw [EffectCertainty.le_iff]; decide⟩

end Falryn.Sessions
