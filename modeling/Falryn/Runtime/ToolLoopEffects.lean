import Falryn.Runtime.ToolCallLoop

/-!
# What the tool-call loop says its tools did

When the loop returns and the turn is over, the turn's outcome and the effect the loop reports should
cover what every tool of the run reported (`Covers`).  Some of the exits take their effect from a
fold over all results, and cover them whatever they are; others write a constant, or the effect of
the first record that ended the turn, and cover the results only if these are harmless enough
(`CoveredBy`).  `tools_never_understated` says that this is the whole difference.
-/

namespace Falryn.Runtime

open Orchestration Sessions Tools

/-- If the turn is over, its outcome and the effect of the loop's own outcome, if it has one, are at
least as severe as the effect of every record. -/
def ToolCallLoopOutcome.Covers (o : ToolCallLoopOutcome) : Prop :=
  ∀ turn outcome, o.turn = some turn → turn.outcome? = some outcome →
    ∀ e ∈ effectsOf o.results, e ≤ effectOf outcome
      ∧ ∀ effect, o.kind.effect? = some effect → e ≤ effect

/-- The turn the gate is asked about. -/
def evaluatingTurn (input : RunToolCallLoopInput) (turn : TurnSnapshot) : TurnSnapshot :=
  { turn with
    phase := .evaluatingCompletion
    configurationGeneration := input.configurationGeneration
    observationOrder := turn.observationOrder + 1 }

/-- What the effects of the results have to be for a settlement of an active turn to cover them. -/
def SettlementCovers (options : ToolCallLoopOptions) (input : RunToolCallLoopInput)
    (turn : TurnSnapshot) (effects : List EffectCertainty) : Settlement → Prop
  | .bindFailure (.queueBoundExceeded _ _) => True
  | .bindFailure _ => ∀ e ∈ effects, e = .none
  | .classified (.denied _) => ∀ e ∈ effects, e = .none
  | .classified (.malformed _) => ∀ e ∈ effects, e = .none
  | .classified (.unavailable _) => ∀ e ∈ effects, e = .none
  | .classified (.failed _ effect) => ∀ e ∈ effects, e ≤ effect
  | .classified (.partial_ _ effect) => ∀ e ∈ effects, e ≤ effect
  | .finish =>
    turn.phase = .handlingModelEvent ∨ turn.phase = .executingCapability →
      turn.recordedEffect ≤ .completed →
      ∀ e ∈ effects, e ≤ TurnCoordinator.completionEffect options.gate (evaluatingTurn input turn)
  | _ => True

namespace LoopState

/-- What the loop has decided to do next, if it is about to return. -/
def decided? (s : LoopState) : Option Settlement :=
  match s.point with
  | .reporting _ settlement => some settlement
  | .settling settlement => some settlement
  | _ => none

/-- The settlement a state has decided on covers its results: if somebody else has settled the turn,
their outcome does, and else the settlement itself. -/
def CoveredBy (options : ToolCallLoopOptions) (input : RunToolCallLoopInput) (s : LoopState) : Prop :=
  ∀ settlement turn, s.decided? = some settlement →
    s.coordinator.get input.turnId = some turn →
    match turn.status with
    | .terminal outcome => ∀ e ∈ effectsOf s.results, e ≤ effectOf outcome
    | .active => SettlementCovers options input turn (effectsOf s.results) settlement

end LoopState

/-! ## Settling -/

section Settling

variable {options : ToolCallLoopOptions} {input : RunToolCallLoopInput} {c : TurnCoordinator}
  {turn : TurnSnapshot} {results : List ToolInvocationRecord} {iterations : ℕ}

theorem le_fold_results {inFlightEffect e : EffectCertainty} (he : e ∈ effectsOf results) :
    e ≤ foldToolEffects (inFlightEffect :: effectsOf results) :=
  le_foldToolEffects (List.mem_cons_of_mem _ he)

variable {kind : LoopEnd} {outcome : TerminalOutcome}

/-- A turn that is not over covers anything. -/
theorem covers_of_not_terminal {turn? : Option TurnSnapshot}
    (h : ∀ turn, turn? = some turn → turn.status = .active) :
    (⟨kind, iterations, results, turn?⟩ : ToolCallLoopOutcome).Covers := by
  intro turn outcome ht ho
  rw [outcome?_eq_none.2 (h turn ht)] at ho
  cases ho

/-- What an outcome has to cover when the turn is over. -/
theorem covers_terminal_iff (h : turn.status = .terminal outcome) :
    (⟨kind, iterations, results, some turn⟩ : ToolCallLoopOutcome).Covers ↔
      ∀ e ∈ effectsOf results, e ≤ effectOf outcome
        ∧ ∀ effect, kind.effect? = some effect → e ≤ effect := by
  constructor
  · exact fun hc => hc turn outcome rfl (outcome?_eq_some.2 h)
  · intro hc turn' outcome' ht ho
    cases ht
    rw [outcome?_eq_some.2 h] at ho
    cases ho
    exact hc

theorem applyCommand_terminal {command : TurnCommand} {effect : Option EffectCertainty} (h : c.get input.turnId = some turn)
    (ht : turn.status = .terminal outcome) (hr : command ≠ .recover) :
    ∃ error, applyCommand options input c command effect = .error error :=
  ⟨_, TurnCoordinator.apply_terminal h ht hr⟩

/-- The turn fails with `effect`, which covers what is not worse. -/
theorem covers_settleBy_fail (h : c.get input.turnId = some turn) (ha : turn.status = .active)
    (effect : EffectCertainty)
    (hk : kind.effect? = none ∨ kind.effect? = some effect) :
    (⟨(settleBy options input c .fail (some effect) kind).2, iterations, results,
        (settleBy options input c .fail (some effect) kind).1.get input.turnId⟩ :
          ToolCallLoopOutcome).Covers ↔ ∀ e ∈ effectsOf results, e ≤ effect := by
  obtain ⟨c', turn', happ, hget, hst⟩ := TurnCoordinator.apply_settles options.gate
    ⟨.fail, input.configurationGeneration, none, some effect, none⟩ h ha
    (by simp [terminalCommands]) (by simp) rfl
  rw [settleBy, applyCommand, happ]
  dsimp only
  rw [hget, covers_terminal_iff hst]
  constructor
  · exact fun hall e he => (hall e he).1
  · refine fun hall e he => ⟨hall e he, fun _ heff => ?_⟩
    rcases hk with hk | hk
    · rw [hk] at heff
      cases heff
    · rw [hk] at heff
      cases heff
      exact hall e he

/-- Marking a turn uncertain covers everything. -/
theorem covers_settleBy_markUncertain (h : c.get input.turnId = some turn)
    (ha : turn.status = .active) (hk : kind.effect? = none) :
    (⟨(settleBy options input c .markUncertain none kind).2, iterations, results,
        (settleBy options input c .markUncertain none kind).1.get input.turnId⟩ :
          ToolCallLoopOutcome).Covers := by
  obtain ⟨c', turn', happ, hget, hst⟩ := TurnCoordinator.apply_settles options.gate
    ⟨.markUncertain, input.configurationGeneration, none, none, none⟩ h ha
    (by simp [terminalCommands]) (by simp) rfl
  rw [settleBy, applyCommand, happ]
  dsimp only
  rw [hget, covers_terminal_iff hst]
  intro e _
  refine ⟨EffectCertainty.le_uncertain e, fun _ heff => ?_⟩
  rw [hk] at heff
  cases heff

/-- **An abort covers everything**: its effect is the fold over all results, or the turn is
uncertain. -/
theorem covers_settleAbort (h : c.get input.turnId = some turn) (ha : turn.status = .active)
    (inFlightEffect : EffectCertainty) (abortAs : AbortAs) :
    (⟨(settleAbort options input c results inFlightEffect abortAs).2, iterations, results,
        (settleAbort options input c results inFlightEffect abortAs).1.get input.turnId⟩ :
          ToolCallLoopOutcome).Covers := by
  -- the outcome of the command covers the fold
  have hcommand : ∀ command, command = .timeOut ∨ command = .cancel → ∃ outcome,
      outcomeFor command turn.phase (foldToolEffects (inFlightEffect :: effectsOf results))
        = some outcome
      ∧ foldToolEffects (inFlightEffect :: effectsOf results) ≤ effectOf outcome := by
    rintro command (rfl | rfl)
    · exact ⟨_, rfl, le_refl _⟩
    · rw [outcomeFor]
      split
      · exact ⟨_, rfl, EffectCertainty.le_uncertain _⟩
      · exact ⟨_, rfl, le_refl _⟩
  have hmem : (if abortAs = .timeout then TurnCommand.timeOut else .cancel) = .timeOut
      ∨ (if abortAs = .timeout then TurnCommand.timeOut else .cancel) = .cancel := by
    split
    · exact .inl rfl
    · exact .inr rfl
  obtain ⟨outcome, hout, hle⟩ := hcommand _ hmem
  obtain ⟨c', turn', happ, hget, hst⟩ := TurnCoordinator.apply_settles options.gate
    ⟨if abortAs = .timeout then .timeOut else .cancel, input.configurationGeneration,
      none, some (foldToolEffects (inFlightEffect :: effectsOf results)), none⟩ h ha
    (by split <;> simp [terminalCommands]) (by dsimp only; split <;> simp) hout
  have hcovers : ∀ kind : LoopEnd, (∀ effect, kind.effect? = some effect →
      effect = foldToolEffects (inFlightEffect :: effectsOf results)) →
      (⟨kind, iterations, results, some turn'⟩ : ToolCallLoopOutcome).Covers := by
    intro kind hkind
    rw [covers_terminal_iff hst]
    intro e he
    refine ⟨(le_fold_results he).trans hle, fun effect heff => ?_⟩
    rw [hkind effect heff]
    exact le_fold_results he
  rw [settleAbort, applyCommand, happ]
  dsimp only
  split
  · rw [hget]
    exact hcovers _ (by simp [LoopEnd.effect?])
  · rw [hget]
    refine hcovers _ ?_
    split <;> simp [LoopEnd.effect?, eq_comm]

/-- **Completing a turn** covers its results if the effect it completes with does. -/
theorem covers_finishTurn (h : c.get input.turnId = some turn) (ha : turn.status = .active) :
    (⟨(finishTurn options input c results).2, iterations, results,
        (finishTurn options input c results).1.get input.turnId⟩ : ToolCallLoopOutcome).Covers ↔
      SettlementCovers options input turn (effectsOf results) .finish := by
  have hactive : ∀ c' kind, (∃ turn', c'.get input.turnId = some turn' ∧ turn'.status = .active) →
      (⟨kind, iterations, results, TurnCoordinator.get c' input.turnId⟩ :
        ToolCallLoopOutcome).Covers := by
    rintro c' kind ⟨turn', hget, hst⟩
    refine covers_of_not_terminal fun _ hx => ?_
    rw [hget] at hx
    cases hx
    exact hst
  rw [SettlementCovers]
  rcases TurnCoordinator.apply_moves options.gate
    ⟨.beginEvaluatingCompletion, input.configurationGeneration, none, none, none⟩ h ha
    (by simp [terminalCommands]) (by simp) with ⟨error, happ, hno⟩ | ⟨c', target, happ, hget, hto⟩
  · -- the turn cannot be completed from here, and stays active
    rw [phaseTarget_beginEvaluatingCompletion] at hno
    rw [finishTurn, applyCommand, happ]
    refine ⟨fun _ hphase => ?_, fun _ => hactive c _ ⟨turn, h, ha⟩⟩
    rw [if_pos hphase] at hno
    cases hno
  · rw [phaseTarget_beginEvaluatingCompletion] at hto
    split at hto
    · rename_i hphase
      cases hto
      have hmoved : movedTurn turn
          ⟨.beginEvaluatingCompletion, input.configurationGeneration, none, none, none⟩
          .evaluatingCompletion = evaluatingTurn input turn := by
        simp [movedTurn, evaluatingTurn]
      rw [hmoved] at hget
      rw [finishTurn, applyCommand, happ]
      dsimp only
      rw [settleBy, applyCommand]
      rcases TurnCoordinator.apply_complete options.gate
        ⟨.complete, input.configurationGeneration, none, none, none⟩ hget ha rfl rfl with
        ⟨hinspect, error, happ'⟩ | ⟨hle, c'', turn', outcome, happ', hget', hst, heff⟩
      · rw [happ']
        refine ⟨fun _ _ hle => absurd hle hinspect, fun _ => ?_⟩
        exact hactive c' _ ⟨_, hget, ha⟩
      · rw [happ']
        dsimp only
        rw [hget', covers_terminal_iff hst, heff]
        constructor
        · exact fun hall _ _ e he => (hall e he).1
        · refine fun hall e he => ⟨hall hphase hle e he, fun _ hk => ?_⟩
          cases hk
          exact le_foldToolEffects he
    · cases hto

end Settling

/-! ## Returning -/

namespace LoopState

variable {options : ToolCallLoopOptions} {input : RunToolCallLoopInput} {s t : LoopState}

/-- The outcome a settlement leaves. -/
def outcomeOf (options : ToolCallLoopOptions) (input : RunToolCallLoopInput) (s : LoopState)
    (settlement : Settlement) : ToolCallLoopOutcome :=
  { kind := (s.settled options input settlement).2
    iterations := s.iteration
    results := s.results
    turn := (s.settled options input settlement).1.get input.turnId }

/-- A settlement leaves a turn that is over, or that does not exist, alone. -/
theorem settled_of_not_active (options : ToolCallLoopOptions) (settlement : Settlement)
    (h : ∀ turn, s.coordinator.get input.turnId = some turn → turn.status ≠ .active) :
    (s.settled options input settlement).1 = s.coordinator
      ∧ ∀ effect, (s.settled options input settlement).2.effect? = some effect →
        ∀ e ∈ effectsOf s.results, e ≤ effect := by
  -- no command is accepted
  have hrefused : ∀ command effect, command ≠ .recover →
      ∃ error, applyCommand options input s.coordinator command effect = .error error := by
    intro command effect hr
    cases hget : s.coordinator.get input.turnId with
    | none => exact ⟨_, TurnCoordinator.apply_missing hget⟩
    | some turn =>
      cases hst : turn.status with
      | active => exact absurd hst (h turn hget)
      | terminal => exact applyCommand_terminal hget hst hr
  have hsettle : ∀ command effect kind, command ≠ .recover →
      ∃ error, settleBy options input s.coordinator command effect kind
        = (s.coordinator, .turnError error) := by
    intro command effect kind hr
    obtain ⟨error, herror⟩ := hrefused command effect hr
    exact ⟨error, by rw [settleBy, herror]⟩
  have hdone : ∀ result : TurnCoordinator × LoopEnd,
      (∃ error, result = (s.coordinator, .turnError error)) → result.1 = s.coordinator
        ∧ ∀ effect, result.2.effect? = some effect → ∀ e ∈ effectsOf s.results, e ≤ effect := by
    rintro result ⟨error, rfl⟩
    exact ⟨rfl, nofun⟩
  cases settlement with
  | turnError error => exact hdone _ ⟨error, rfl⟩
  | maxIterations => exact ⟨rfl, nofun⟩
  | bindFailure error =>
    cases error with
    | queueBoundExceeded => exact ⟨rfl, nofun⟩
    | _ => exact hdone _ (hsettle _ _ _ (by simp))
  | abort asked inFlightEffect =>
    refine hdone _ ?_
    rw [settled, settleAbort]
    obtain ⟨error, herror⟩ := hrefused
      (if input.abortAs asked = .timeout then .timeOut else .cancel)
      (some (foldToolEffects (inFlightEffect :: effectsOf s.results))) (by split <;> simp)
    exact ⟨error, by rw [herror]⟩
  | classified stop => cases stop <;> exact hdone _ (hsettle _ _ _ (by simp))
  | finish =>
    refine hdone _ ?_
    rw [settled, finishTurn]
    obtain ⟨error, herror⟩ := hrefused .beginEvaluatingCompletion none (by simp)
    exact ⟨error, by rw [herror]⟩
  | completed =>
    refine ⟨rfl, fun effect heff e he => ?_⟩
    cases heff
    exact le_foldToolEffects he

variable {settlement : Settlement} {turn : TurnSnapshot} {o : ToolCallLoopOutcome}

/-- **What a settlement covers** when somebody else has settled the turn. -/
theorem covers_outcomeOf_terminal
    {outcome : TerminalOutcome} (h : s.coordinator.get input.turnId = some turn)
    (ht : turn.status = .terminal outcome) :
    (s.outcomeOf options input settlement).Covers ↔
      ∀ e ∈ effectsOf s.results, e ≤ effectOf outcome := by
  obtain ⟨hcoord, heffect⟩ := settled_of_not_active options settlement fun _ h' => by
    rw [h] at h'
    cases h'
    simp [ht]
  rw [outcomeOf, hcoord, h, covers_terminal_iff ht]
  exact ⟨fun hall e he => (hall e he).1,
    fun hall e he => ⟨hall e he, fun effect heff => heffect effect heff e he⟩⟩

/-- **What a settlement covers** when the turn is its own to settle. -/
theorem covers_outcomeOf_active
    (h : s.coordinator.get input.turnId = some turn) (ha : turn.status = .active) :
    (s.outcomeOf options input settlement).Covers ↔
      SettlementCovers options input turn (effectsOf s.results) settlement := by
  have hkept : ∀ kind, (⟨kind, s.iteration, s.results, s.coordinator.get input.turnId⟩ :
      ToolCallLoopOutcome).Covers := by
    intro kind
    refine covers_of_not_terminal fun _ hx => ?_
    rw [h] at hx
    cases hx
    exact ha
  have hnone : ∀ kind, LoopEnd.effect? kind = none →
      ((⟨(settleBy options input s.coordinator .fail (some .none) kind).2, s.iteration, s.results,
        (settleBy options input s.coordinator .fail (some .none) kind).1.get input.turnId⟩ :
          ToolCallLoopOutcome).Covers ↔ ∀ e ∈ effectsOf s.results, e = .none) := by
    intro kind hk
    rw [covers_settleBy_fail h ha .none (.inl hk)]
    simp only [EffectCertainty.le_none_iff]
  cases settlement with
  | turnError error | maxIterations | completed => exact iff_of_true (hkept _) trivial
  | bindFailure error =>
    cases error with
    | queueBoundExceeded => exact iff_of_true (hkept _) trivial
    | _ => exact hnone _ rfl
  | abort asked inFlightEffect =>
    exact iff_of_true (covers_settleAbort h ha inFlightEffect (input.abortAs asked)) trivial
  | classified stop =>
    cases stop with
    | failed reason effect | partial_ reason effect =>
      exact covers_settleBy_fail h ha effect (.inr rfl)
    | uncertain =>
      exact iff_of_true (covers_settleBy_markUncertain h ha rfl) trivial
    | _ => exact hnone _ rfl
  | finish => exact covers_finishTurn h ha

theorem covers_iff_coveredBy (h : s.decided? = some settlement) :
    (s.outcomeOf options input settlement).Covers ↔ s.CoveredBy options input := by
  cases hget : s.coordinator.get input.turnId with
  | none =>
    refine iff_of_true ?_ ?_
    · obtain ⟨hcoord, -⟩ := settled_of_not_active options settlement fun turn' h' => by
        rw [hget] at h'
        cases h'
      refine covers_of_not_terminal fun turn ht => ?_
      rw [hcoord, hget] at ht
      cases ht
    · intro _ turn _ ht
      rw [hget] at ht
      cases ht
  | some turn =>
    have hiff : s.CoveredBy options input ↔ match turn.status with
        | .terminal outcome => ∀ e ∈ effectsOf s.results, e ≤ effectOf outcome
        | .active => SettlementCovers options input turn (effectsOf s.results) settlement := by
      constructor
      · exact fun hc => hc settlement turn h hget
      · intro hc settlement' turn' h' ht'
        rw [h] at h'
        rw [hget] at ht'
        cases h'
        cases ht'
        exact hc
    rw [hiff]
    cases hst : turn.status with
    | active => exact covers_outcomeOf_active hget hst
    | terminal outcome => exact covers_outcomeOf_terminal hget hst

/-! ## Only a settlement returns -/

/-- The run goes on. -/
def Goes (s : LoopState) : Prop := ∀ o, s.point ≠ .returned o

theorem goes_report (s : LoopState) (reason : String) (settlement : Settlement) :
    (s.report reason settlement).Goes := fun _ h => by cases h

theorem goes_settling (s : LoopState) (settlement : Settlement) :
    (s.settling settlement).Goes := fun _ h => by cases h

theorem goes_execute (s : LoopState) (batch : List BoundToolInvocation) :
    (s.execute options batch).Goes := by
  rw [execute]
  split <;> exact fun _ h => by cases h

theorem goes_bind (s : LoopState) : (s.bind options input).Goes := by
  rw [bind]
  split
  · exact goes_report _ _ _
  · dsimp only
    split
    · exact goes_report _ _ _
    · split
      · exact goes_report _ _ _
      · exact fun _ h => by cases h
      · exact goes_settling _ _
      · exact goes_execute _ _

theorem goes_top (s : LoopState) : (s.top options input).Goes := by
  rw [top]
  split
  · exact goes_report _ _ _
  · split
    · exact goes_report _ _ _
    · exact goes_bind _

theorem goes_cycle (s : LoopState) (fallback : Option FallbackResolution) :
    (s.cycle options input fallback).Goes := by
  rw [cycle]
  split
  · exact goes_settling _ _
  · exact fun _ h => by cases h

theorem goes_afterBatch (s : LoopState) (records : List ToolInvocationRecord) (aborted : Bool) :
    (s.afterBatch options input records aborted).Goes := by
  rw [afterBatch]
  split
  · exact goes_settling _ _
  · split
    · exact goes_cycle _ _
    · exact goes_settling _ _
    · exact goes_settling _ _
    · split
      · exact goes_cycle _ _
      · exact goes_settling _ _

theorem goes_proceed (s : LoopState) (proposals : List ToolProposal) :
    (s.proceed options input proposals).Goes := by
  rw [proceed]
  split
  · exact goes_settling _ _
  · split
    · exact goes_settling _ _
    · exact goes_top _

theorem goes_proceedFallback (s : LoopState) (fallback : Option FallbackResolution)
    (proposals : List ToolProposal) : (s.proceedFallback options input fallback proposals).Goes := by
  unfold proceedFallback
  split
  · dsimp only
    split
    · exact goes_settling _ _
    · split
      · exact goes_settling _ _
      · exact goes_proceed _ _
  · exact goes_proceed _ _

theorem goes_afterModel (s : LoopState) (fallback : Option FallbackResolution)
    (result : ContinueModelResult) : (s.afterModel options input fallback result).Goes := by
  unfold afterModel
  dsimp only
  split
  · exact goes_report _ _ _
  · split
    · exact goes_settling _ _
    · rw [stop]
      split
      · exact goes_settling _ _
      · split <;> exact goes_settling _ _
    · exact goes_proceedFallback _ _ _

theorem goes_start (coordinator : TurnCoordinator) (aborted : Bool) :
    (start options input coordinator aborted).Goes := by
  rw [start]
  split
  · exact goes_report _ _ _
  · exact goes_top _

/-- **A run returns by carrying out what it has decided.** -/
theorem step_returned {event : LoopEvent}
    (h : step options input s event = some t) (ho : t.point = .returned o) :
    ∃ settlement, s.decided? = some settlement ∧ o = s.outcomeOf options input settlement := by
  have hawaits : s.point.awaits = true → s.Goes := by
    intro ha o' hp
    rw [hp] at ha
    cases ha
  cases event with
  | abort =>
    simp only [step] at h
    split at h
    · cases h
      exact absurd ho (hawaits ‹_› o)
    · cases h
  | command =>
    simp only [step] at h
    split at h
    · split at h <;> cases h <;> exact absurd ho (hawaits ‹_› o)
    · cases h
  | reported =>
    simp only [step] at h
    split at h
    · rename_i settlement hp
      cases h
      cases ho
      exact ⟨settlement, by rw [decided?, hp], rfl⟩
    · cases h
  | settle =>
    simp only [step] at h
    split at h
    · rename_i settlement hp
      cases h
      cases ho
      exact ⟨settlement, by rw [decided?, hp], rfl⟩
    · cases h
  | take worker =>
    simp only [step] at h
    split at h
    · rw [take] at h
      split at h <;> obtain ⟨pool', -, rfl⟩ := Option.map_eq_some_iff.1 h <;> cases ho
    · cases h
  | ran worker =>
    simp only [step] at h
    split at h
    · obtain ⟨pool', -, rfl⟩ := Option.map_eq_some_iff.1 h
      cases ho
    · cases h
  | joined | ranBatch outcomes =>
    simp only [step] at h
    split at h
    · split at h
      · cases h
        exact absurd ho (goes_afterBatch _ _ _ o)
      · cases h
    · cases h
  | continued =>
    simp only [step] at h
    split at h
    · cases h
      exact absurd ho (goes_afterModel _ _ _ o)
    · cases h

/-- **The tool loop never understates what its tools did, as long as its last settlement covers
it.**  Every run that returns does so from a state in which it has decided how to settle.  The turn's
outcome and the loop's own effect cover every record of the run if and only if, in that state: an
outcome somebody else gave the turn does; or the turn is to be settled by an abort, as uncertain or
not at all; or it is to fail for a refused batch, a denied, malformed or unavailable call or a model
that failed, and no record has an effect; or it is to fail with the effect of the first record that
ended it, and no record has a worse one; or it is to complete, and no record has an effect worse than
the one it completes with. -/
theorem tools_never_understated (options : ToolCallLoopOptions) (input : RunToolCallLoopInput)
    (coordinator : TurnCoordinator) (aborted : Bool) (events : List LoopEvent) (s : LoopState)
    (o : ToolCallLoopOutcome) (h : Reaches options input coordinator aborted events s)
    (ho : s.point = .returned o) :
    ∃ earlier last t, events = earlier ++ [last] ∧ Reaches options input coordinator aborted earlier t
      ∧ (o.Covers ↔ t.CoveredBy options input) := by
  rcases List.eq_nil_or_concat events with rfl | ⟨earlier, last, rfl⟩
  · cases h
    exact absurd ho (goes_start coordinator aborted o)
  · rw [List.concat_eq_append] at h
    obtain ⟨t, ht, hlast⟩ := StateMachine.run_append.1 h
    obtain ⟨s', hstep, hs'⟩ := StateMachine.run_cons.1 hlast
    cases hs'
    obtain ⟨settlement, hdecided, rfl⟩ := step_returned hstep ho
    exact ⟨earlier, last, t, List.concat_eq_append .., ht, covers_iff_coveredBy hdecided⟩

/-! ### Two calls of one tool -/

/-- A tool that takes anything. -/
def writeTool (name : String) : ToolDescriptor :=
  { id := name
    version := 1
    name
    effect := some .mutation
    inputSchema := fun input => .ok input
    conflictKeysFor := none
    effectFor := none }

def plainOptions : ToolCallLoopOptions :=
  { gate := none
    catalog := fun name => some (writeTool name)
    executesBatches := false
    limits := {}
    fallbackPolicy := none
    disclosed := []
    definitions := [] }

def twoWrites (continuesModel : Bool) : RunToolCallLoopInput :=
  { turnId := "turn"
    configurationGeneration := 0
    proposals := [⟨"first", "write", .object []⟩, ⟨"second", "write", .object []⟩]
    abortAs := fun _ => .cancel
    invocationIdLineage := none
    continuesModel }

/-- A coordinator whose one turn handles what the model has said. -/
def handlingTurn : TurnCoordinator :=
  { snapshots := fun turnId => if turnId = "turn" then
      some { createTurnSnapshot "turn" "session" "workspace" "trace" 0 with
        phase := .handlingModelEvent }
      else none
    history := fun _ => [] }

/-- Two workers execute the two calls. -/
def executeBoth (first second : ToolStatus) : List LoopEvent :=
  [.take 0, .take 1, .ran 0 ⟨first, []⟩, .ran 1 ⟨second, []⟩, .take 0, .take 1, .joined]

/-- The outcome of a run that has returned. -/
def returned? (s : LoopState) : Option ToolCallLoopOutcome :=
  match s.point with
  | .returned o => some o
  | _ => none

theorem returned?_eq_some : s.returned? = some o ↔ s.point = .returned o := by
  rw [returned?]
  cases s.point <;> simp

/-- What one can see of a run that has returned. -/
def summary (s : LoopState) :
    Option (LoopEnd × Option TurnStatus × List EffectCertainty) :=
  s.returned?.map fun o => (o.kind, o.turn.map TurnSnapshot.status, effectsOf o.results)

theorem exists_of_summary (options : ToolCallLoopOptions) (input : RunToolCallLoopInput)
    (coordinator : TurnCoordinator) (aborted : Bool) (events : List LoopEvent) (kind : LoopEnd)
    (status : TurnStatus) (effects : List EffectCertainty)
    (h : (StateMachine.run (step options input) (start options input coordinator aborted)
      events).bind summary = some (kind, some status, effects)) :
    ∃ s o turn, Reaches options input coordinator aborted events s ∧ s.point = .returned o
      ∧ o.kind = kind ∧ o.turn = some turn ∧ turn.status = status ∧ effectsOf o.results = effects := by
  obtain ⟨s, hs, hsum⟩ := Option.bind_eq_some_iff.1 h
  obtain ⟨o, ho, hfields⟩ := Option.map_eq_some_iff.1 hsum
  obtain ⟨hkind, hrest⟩ := Prod.mk.inj hfields
  obtain ⟨hturn, heffects⟩ := Prod.mk.inj hrest
  obtain ⟨turn, hturn, hstatus⟩ := Option.map_eq_some_iff.1 hturn
  exact ⟨s, o, turn, hs, returned?_eq_some.1 ho, hkind, hturn, hstatus, heffects⟩

/-- Both calls complete, and so does the turn. -/
theorem completed_writes_are_covered : ∃ (s : LoopState) (o : ToolCallLoopOutcome) (t : LoopState),
    Reaches plainOptions (twoWrites false) handlingTurn false
        (executeBoth .completed .completed ++ [.settle]) s
      ∧ s.point = .returned o ∧ o.Covers ∧ t.CoveredBy plainOptions (twoWrites false) := by
  obtain ⟨s, o, turn, hs, ho, hkind, hturn, hstatus, heffects⟩ := exists_of_summary plainOptions
    (twoWrites false) handlingTurn false (executeBoth .completed .completed ++ [.settle])
    (.completed .completed) (.terminal .completed) [.completed, .completed] (by decide +kernel)
  have hcovers : o.Covers := by
    intro turn' outcome ht hout e he
    rw [heffects] at he
    rw [hturn] at ht
    cases ht
    rw [outcome?_eq_some.2 hstatus] at hout
    cases hout
    obtain rfl : e = .completed := by simpa using he
    refine ⟨le_refl _, fun _ heff => ?_⟩
    rw [hkind] at heff
    cases heff
    exact le_refl _
  obtain ⟨_, _, t, _, _, hiff⟩ := tools_never_understated _ _ _ _ _ s o hs ho
  exact ⟨s, o, t, hs, ho, hcovers, hiff.1 hcovers⟩

/-- The first call completes, the second is denied, and the turn has failed without effect. -/
theorem denied_write_hides_completed_one :
    ∃ (s : LoopState) (o : ToolCallLoopOutcome) (turn : TurnSnapshot),
    Reaches plainOptions (twoWrites false) handlingTurn false
        (executeBoth .completed (.denied "no") ++ [.settle]) s
      ∧ s.point = .returned o ∧ o.kind = .denied "no" ∧ o.turn = some turn
      ∧ turn.status = .terminal (.failed .none)
      ∧ effectsOf o.results = [.completed, .none] ∧ ¬ o.Covers := by
  obtain ⟨s, o, turn, hs, ho, hkind, hturn, hstatus, heffects⟩ := exists_of_summary plainOptions
    (twoWrites false) handlingTurn false (executeBoth .completed (.denied "no") ++ [.settle])
    (.denied "no") (.terminal (.failed .none)) [.completed, .none] (by decide +kernel)
  refine ⟨s, o, turn, hs, ho, hkind, hturn, hstatus, heffects, fun hcovers => ?_⟩
  have h := (hcovers turn (.failed .none) hturn (outcome?_eq_some.2 hstatus) .completed
    (by rw [heffects]; simp)).1
  exact absurd h (by decide)

end LoopState

end Falryn.Runtime
