import Falryn.Foundation.Result
import Falryn.Runtime.AttemptBounds

/-!
# What the journal says of a turn

With a journal whose store accepts everything, the stream should tell of every attempt that it
started and how it ended, and of a turn that is over how it ended, last (`WholeStory`).  It does if
every fact is really stored and no exit forgets the turn (`Faithful`): a persist under an aborted
signal stores nothing and is no error, and some exits return without a word on a turn that is over.
-/

namespace Falryn.Runtime

open Orchestration Sessions Providers

/-! ## Facts in a stream -/

/-- The fact says how an attempt ended. -/
def TurnLifecycleFact.endsAttempt (modelAttemptId : String) : TurnLifecycleFact → Bool
  | modelAttemptCompleted id _ => id = modelAttemptId
  | _ => false

/-- The fact says how a turn ended. -/
def TurnLifecycleFact.endsTurn (turnId : String) : TurnLifecycleFact → Bool
  | turnCompleted id _ => id = turnId
  | _ => false

/-- The stream does not hold a fact of this identity. -/
def Fresh (stream : List TurnLifecycleFact) (fact : TurnLifecycleFact) : Prop :=
  factIdentity fact ∉ stream.map factIdentity

instance (stream : List TurnLifecycleFact) (fact : TurnLifecycleFact) :
    Decidable (Fresh stream fact) :=
  inferInstanceAs (Decidable (factIdentity fact ∉ stream.map factIdentity))

/-- The stream holds one start of the attempt. -/
def StartedOnce (stream : List TurnLifecycleFact) (modelAttemptId : String) : Prop :=
  stream.count (.modelAttemptStarted modelAttemptId) = 1

/-- **The story of an attempt**: one start, and after it one end, with the outcome of the attempt. -/
structure Told (stream : List TurnLifecycleFact) (attempt : AttemptRecord) : Prop where
  startedOnce : StartedOnce stream attempt.identity.modelAttemptId
  endedOnce : stream.countP (·.endsAttempt attempt.identity.modelAttemptId) = 1
  inOrder : [.modelAttemptStarted attempt.identity.modelAttemptId,
    .modelAttemptCompleted attempt.identity.modelAttemptId
      (outcomeForAttemptRecord attempt.classification)].Sublist stream

variable {stream : List TurnLifecycleFact} {fact : TurnLifecycleFact} {modelAttemptId : String}
  {attempt : AttemptRecord}

theorem Fresh.ne {other : TurnLifecycleFact} (h : Fresh stream fact) (hmem : other ∈ stream) :
    factIdentity fact ≠ factIdentity other :=
  fun heq => h (heq ▸ List.mem_map_of_mem hmem)

theorem StartedOnce.mem (h : StartedOnce stream modelAttemptId) :
    .modelAttemptStarted modelAttemptId ∈ stream :=
  List.count_pos_iff.1 (by rw [h]; exact Nat.one_pos)

theorem StartedOnce.append (h : StartedOnce stream modelAttemptId) (hfresh : Fresh stream fact) :
    StartedOnce (stream ++ [fact]) modelAttemptId := by
  rw [StartedOnce, List.count_append, h, List.count_eq_zero_of_not_mem]
  intro hmem
  exact hfresh.ne h.mem (congrArg factIdentity (List.mem_singleton.1 hmem).symm)

theorem startedOnce_append (h : Fresh stream (.modelAttemptStarted modelAttemptId)) :
    StartedOnce (stream ++ [.modelAttemptStarted modelAttemptId]) modelAttemptId := by
  rw [StartedOnce, List.count_append, List.count_singleton_self, List.count_eq_zero_of_not_mem]
  exact fun hmem => h.ne hmem rfl

theorem factIdentity_of_endsAttempt (h : fact.endsAttempt modelAttemptId = true) :
    factIdentity fact = "attempt:" ++ modelAttemptId ++ ":completed" := by
  cases fact with
  | modelAttemptCompleted id =>
    obtain rfl : id = modelAttemptId := by simpa [TurnLifecycleFact.endsAttempt] using h
    rfl
  | _ => cases h

/-- A further fact changes nothing of a story that was told. -/
theorem Told.append (h : Told stream attempt) (hfresh : Fresh stream fact) :
    Told (stream ++ [fact]) attempt := by
  refine ⟨h.startedOnce.append hfresh, ?_, h.inOrder.trans (List.sublist_append_left _ _)⟩
  rw [List.countP_append, h.endedOnce, List.countP_singleton, if_neg]
  intro hends
  obtain ⟨other, hmem, hother⟩ := List.countP_pos_iff.1 (h.endedOnce ▸ Nat.one_pos)
  refine hfresh.ne hmem ?_
  rw [factIdentity_of_endsAttempt hends, factIdentity_of_endsAttempt hother]

/-- **The end of an attempt** completes its story. -/
theorem told_append (h : StartedOnce stream attempt.identity.modelAttemptId)
    (hfresh : Fresh stream (.modelAttemptCompleted attempt.identity.modelAttemptId
      (outcomeForAttemptRecord attempt.classification))) :
    Told (stream ++ [.modelAttemptCompleted attempt.identity.modelAttemptId
      (outcomeForAttemptRecord attempt.classification)]) attempt := by
  refine ⟨h.append hfresh, ?_, ?_⟩
  · rw [List.countP_append, List.countP_singleton, List.countP_eq_zero.2]
    · simp [TurnLifecycleFact.endsAttempt]
    · intro other hmem hends
      refine hfresh.ne hmem ?_
      rw [factIdentity_of_endsAttempt hends]
      rfl
  · exact (List.singleton_sublist.2 h.mem).append (List.Sublist.refl _)

/-- **What the journal does** at an append: nothing, or one fact more that was not there. -/
theorem persistFact_stream (journal aborted : Bool) (answer : StoreAnswer)
    (stream : List TurnLifecycleFact) (fact : TurnLifecycleFact) :
    (persistFact journal aborted answer stream fact).2 = stream
      ∨ Fresh stream fact
        ∧ (persistFact journal aborted answer stream fact).2 = stream ++ [fact] := by
  unfold persistFact
  split
  · exact .inl rfl
  · split
    · exact .inl rfl
    · split
      · exact .inl rfl
      · cases answer with
        | refuses => exact .inl rfl
        | accepts =>
          dsimp only
          split
          · exact .inl rfl
          · rename_i hfresh
            exact .inr ⟨hfresh, rfl⟩

/-- A fact that may be stored is, unless its identity is no identifier. -/
theorem persistFact_fresh (hfresh : Fresh stream fact) :
    persistFact true false .accepts stream fact
      = if isIdentifier (factIdentity fact) then (.persisted, stream ++ [fact])
        else (.threw, stream) := by
  unfold persistFact
  cases isIdentifier (factIdentity fact) with
  | false => rfl
  | true => exact if_neg hfresh

namespace PolicyState

/-! ## The property -/

/-- The run is over. -/
def isOver (s : PolicyState) : Prop := s.point = .threw ∨ ∃ o, s.point = .returned o

/-- The outcome of the turn, if it is over. -/
def ended? (input : RunTurnAttemptPolicyInput) (s : PolicyState) : Option TerminalOutcome :=
  (s.coordinator.get input.turnId).bind TurnSnapshot.outcome?

/-- The stream ends with the end of the turn, which it tells once. -/
def EndsWith (input : RunTurnAttemptPolicyInput) (stream : List TurnLifecycleFact)
    (outcome : TerminalOutcome) : Prop :=
  ∃ earlier, stream = earlier ++ [.turnCompleted input.turnId outcome]
    ∧ ∀ fact ∈ earlier, fact.endsTurn input.turnId = false

/-- **The journal tells every attempt's whole story.** -/
structure WholeStory (input : RunTurnAttemptPolicyInput) (s : PolicyState) : Prop where
  recorded : ∀ call ∈ s.calls, .modelAttemptStarted call.identity.modelAttemptId ∈ s.stream
  made : s.isOver → s.calls.map RunnerCall.identity = s.attempts.map AttemptRecord.identity
  told : s.isOver → ∀ attempt ∈ s.attempts, Told s.stream attempt
  completed : (∃ o, s.point = .returned o) →
    ∀ outcome, s.ended? input = some outcome → EndsWith input s.stream outcome

/-! ## The condition -/

/-- A turn that is over can be recovered. -/
def Recoverable (input : RunTurnAttemptPolicyInput) (s : PolicyState) : Prop :=
  s.aborted = false → ∀ turn ∈ s.coordinator.get input.turnId, turn.outcome?.isSome = true →
    turn.runtimeGeneration ≠ s.generation + 1

/-- What has to hold for a fact to be stored. -/
def Stores (s : PolicyState) : TurnLifecycleFact → Prop
  | .turnStarted _ => True
  | .modelAttemptStarted id => s.aborted = false ∧ Fresh s.stream (.modelAttemptStarted id)
  | .modelAttemptCompleted id outcome => s.receiptExpired = false
    ∧ isIdentifier (factIdentity (.modelAttemptCompleted id outcome)) = true
    ∧ Fresh s.stream (.modelAttemptCompleted id outcome)
  | .turnCompleted id outcome => s.aborted = false ∧ Fresh s.stream (.turnCompleted id outcome)

/-- What an append has to find. -/
def AppendsWell (s : PolicyState) : PolicyPoint → Prop
  | .storing fact _ _ _ => s.Stores fact
  | _ => True

/-- What a return from the journal has to find. -/
def ResumesWell (input : RunTurnAttemptPolicyInput) (s : PolicyState) : PolicyPoint → Prop
  | .stored _ _ .enter => s.Recoverable input
  | .stored _ _ (.act .fallback _ _) => s.Recoverable input
  | .stored _ _ (.act (.exhausted _ _) _ _) => s.ended? input = none
  | _ => True

/-- What a step has to find for the journal to tell the whole story: a store that accepts, a signal
that is not aborted where a fact of an attempt or the end of the turn is appended and no such fact in
the stream, no more time than a receipt has, an id that leaves room for the fact's identity, and a turn
that is not over where the run returns because nothing is left to try or the turn cannot be
recovered. -/
def Faithful (input : RunTurnAttemptPolicyInput) (s : PolicyState) : PolicyEvent → Prop
  | .append answer => answer = .accepts ∧ s.AppendsWell s.point
  | .resume => s.ResumesWell input s.point
  | .waited => s.Recoverable input
  | _ => True

instance (input : RunTurnAttemptPolicyInput) (s : PolicyState) : Decidable (s.Recoverable input) :=
  inferInstanceAs (Decidable (s.aborted = false → ∀ turn ∈ s.coordinator.get input.turnId,
    turn.outcome?.isSome = true → turn.runtimeGeneration ≠ s.generation + 1))

instance Stores.decidable (s : PolicyState) :
    (fact : TurnLifecycleFact) → Decidable (s.Stores fact)
  | .turnStarted _ => .isTrue trivial
  | .modelAttemptStarted id => inferInstanceAs (Decidable (s.aborted = false
      ∧ Fresh s.stream (.modelAttemptStarted id)))
  | .modelAttemptCompleted id outcome => inferInstanceAs (Decidable (s.receiptExpired = false
      ∧ isIdentifier (factIdentity (.modelAttemptCompleted id outcome)) = true
      ∧ Fresh s.stream (.modelAttemptCompleted id outcome)))
  | .turnCompleted id outcome => inferInstanceAs (Decidable (s.aborted = false
      ∧ Fresh s.stream (.turnCompleted id outcome)))

instance AppendsWell.decidable (s : PolicyState) :
    (point : PolicyPoint) → Decidable (s.AppendsWell point)
  | .storing fact _ _ _ => inferInstanceAs (Decidable (s.Stores fact))
  | .stored _ _ _ => .isTrue trivial
  | .running _ => .isTrue trivial
  | .waiting => .isTrue trivial
  | .returned _ => .isTrue trivial
  | .threw => .isTrue trivial

instance ResumesWell.decidable (input : RunTurnAttemptPolicyInput) (s : PolicyState) :
    (point : PolicyPoint) → Decidable (s.ResumesWell input point)
  | .stored _ _ .enter => inferInstanceAs (Decidable (s.Recoverable input))
  | .stored _ _ (.act .fallback _ _) => inferInstanceAs (Decidable (s.Recoverable input))
  | .stored _ _ (.act (.exhausted _ _) _ _) =>
    inferInstanceAs (Decidable (s.ended? input = none))
  | .stored _ _ (.act (.retrySame _ _) _ _) => .isTrue trivial
  | .stored _ _ (.act (.settle _) _ _) => .isTrue trivial
  | .stored _ _ (.attempt _) => .isTrue trivial
  | .stored _ _ (.finish _) => .isTrue trivial
  | .storing _ _ _ _ => .isTrue trivial
  | .running _ => .isTrue trivial
  | .waiting => .isTrue trivial
  | .returned _ => .isTrue trivial
  | .threw => .isTrue trivial

instance Faithful.decidable (input : RunTurnAttemptPolicyInput) (s : PolicyState) :
    (event : PolicyEvent) → Decidable (Faithful input s event)
  | .append answer => inferInstanceAs (Decidable (answer = .accepts ∧ s.AppendsWell s.point))
  | .resume => inferInstanceAs (Decidable (s.ResumesWell input s.point))
  | .waited => inferInstanceAs (Decidable (s.Recoverable input))
  | .abort => .isTrue trivial
  | .tick _ => .isTrue trivial
  | .expire => .isTrue trivial
  | .command _ => .isTrue trivial
  | .ran _ _ => .isTrue trivial

/-! ## The turn stays -/

section Present

variable {options : TurnAttemptPolicyOptions} {input : RunTurnAttemptPolicyInput}
  {c c' : TurnCoordinator}

variable {generation : ℕ}

theorem applyAt_present {command : TurnCommand} {effect : Option EffectCertainty}
    (h : applyAt options input c generation command effect = .ok c') :
    (c'.get input.turnId).isSome = true :=
  TurnCoordinator.apply_present h

theorem advance_present (h : advanceToAssemblingContext options input c generation = .ok c') :
    (c'.get input.turnId).isSome = true := by
  rw [advanceToAssemblingContext] at h
  split at h
  · cases h
  · rename_i hget
    split at h
    · obtain ⟨c₁, -, h⟩ := except_bind_ok.1 h
      exact applyAt_present h
    · exact applyAt_present h
    · cases h
      rw [hget]
      rfl

theorem getD_present {result : Except TurnCoordinatorError TurnCoordinator}
    (hc : (c.get input.turnId).isSome = true)
    (h : ∀ c', result = .ok c' → (c'.get input.turnId).isSome = true) :
    ((result.toOption.getD c).get input.turnId).isSome = true := by
  cases result with
  | error error => exact hc
  | ok c' => exact h c' rfl

theorem walkTo_present (hc : (c.get input.turnId).isSome = true) :
    ((walkTo options input c generation).get input.turnId).isSome = true := by
  rw [walkTo]
  generalize walk = steps
  induction steps generalizing c with
  | nil => exact hc
  | cons _ steps ih =>
    rw [List.foldl_cons]
    refine ih ?_
    split
    · exact getD_present hc fun _ h => applyAt_present h
    · exact hc

theorem ensureTerminal_present {classification : SettlingClassification}
    (hc : (c.get input.turnId).isSome = true) :
    ((ensureTerminal options input c generation classification).get input.turnId).isSome = true := by
  rw [ensureTerminal]
  split
  · dsimp only
    refine getD_present (walkTo_present hc) fun _ h => ?_
    split at h <;> exact applyAt_present h
  · exact hc

/-- **A turn that is over and not yet in the next generation** can be recovered. -/
theorem recoverForNextAttempt_ok (options : TurnAttemptPolicyOptions) {turn : TurnSnapshot} {outcome : TerminalOutcome}
    {nextGeneration : ℕ} (hget : c.get input.turnId = some turn)
    (hst : turn.status = .terminal outcome) (hne : turn.runtimeGeneration ≠ nextGeneration) :
    ∃ c', recoverForNextAttempt options input c nextGeneration = .ok c'
      ∧ (c'.get input.turnId).isSome = true := by
  obtain ⟨turn', observation, hrecover, hactive, hphase⟩ : ∃ turn' observation,
      applyTurnTransition turn
        { command := .recover
          configurationGeneration := nextGeneration
          recoveryGeneration := some nextGeneration } = .ok (turn', observation)
      ∧ turn'.status = .active ∧ turn'.phase = .orienting := by
    rw [applyTurnTransition, if_pos rfl, recoverTurn, hst]
    dsimp only
    rw [if_neg (Ne.symm hne)]
    exact ⟨_, _, rfl, rfl, rfl⟩
  obtain ⟨c₁, happly, hget₁⟩ : ∃ c₁, c.apply options.gate input.turnId
        { command := .recover
          configurationGeneration := nextGeneration
          recoveryGeneration := some nextGeneration } = .ok c₁
      ∧ c₁.get input.turnId = some turn' := by
    rw [TurnCoordinator.apply_eq hget, TurnCoordinator.transition_of_ne_complete (by simp), hrecover]
    exact ⟨_, rfl, TurnCoordinator.get_update _ _ _ _⟩
  have hadvance : ∃ c', advanceToAssemblingContext options input c₁ nextGeneration = .ok c' := by
    rw [advanceToAssemblingContext, hget₁]
    dsimp only
    rw [hactive, hphase]
    rcases TurnCoordinator.apply_moves options.gate
      ⟨.beginAssemblingContext, nextGeneration, none, none, none⟩ hget₁ hactive
      (by simp [terminalCommands]) (by simp) with ⟨error, -, hno⟩ | ⟨c', target, happ, -, -⟩
    · rw [hphase] at hno
      cases hno
    · exact ⟨c', happ⟩
  obtain ⟨c', hc'⟩ := hadvance
  refine ⟨c', ?_, advance_present hc'⟩
  rw [recoverForNextAttempt, happly]
  exact hc'

end Present

/-! ## The invariant -/

/-- What holds of the journal wherever a run stands: the calls that were `made` have their starts, and
the stories of `told` are complete. -/
structure Kept (input : RunTurnAttemptPolicyInput) (s : PolicyState) (made : List AttemptIdentity)
    (told : List AttemptRecord) : Prop where
  present : (s.coordinator.get input.turnId).isSome = true
  recorded : ∀ call ∈ s.calls, .modelAttemptStarted call.identity.modelAttemptId ∈ s.stream
  made : s.calls.map RunnerCall.identity = made
  told : ∀ attempt ∈ told, Told s.stream attempt

/-- The books are kept, with nothing under way. -/
def Settled (input : RunTurnAttemptPolicyInput) (s : PolicyState) : Prop :=
  Kept input s (s.attempts.map AttemptRecord.identity) s.attempts

/-- What is under way where a run stands. -/
def UnderWay (input : RunTurnAttemptPolicyInput) (s : PolicyState) : PolicyPoint → Prop
  | .storing fact _ receipt .enter =>
    s.Settled input ∧ fact = .turnStarted input.turnId ∧ receipt = false
  | .stored _ _ .enter => s.Settled input
  | .storing fact _ receipt (.attempt identity) =>
    s.Settled input ∧ fact = .modelAttemptStarted identity.modelAttemptId ∧ receipt = false
  | .stored result _ (.attempt identity) => s.Settled input
    ∧ (result = .threw ∨ result = .persisted ∧ StartedOnce s.stream identity.modelAttemptId)
  | .running identity => Kept input s (s.attempts.map AttemptRecord.identity ++ [identity]) s.attempts
    ∧ StartedOnce s.stream identity.modelAttemptId
  | .storing fact _ receipt (.act action fallbackProbe _) => ∃ earlier record,
    s.attempts = earlier ++ [record]
      ∧ Kept input s (s.attempts.map AttemptRecord.identity) earlier
      ∧ StartedOnce s.stream record.identity.modelAttemptId
      ∧ fact = .modelAttemptCompleted record.identity.modelAttemptId
        (outcomeForAttemptRecord record.classification)
      ∧ receipt = true
      ∧ (action = .fallback → ∃ next, fallbackProbe = .selected next)
  | .stored result _ (.act action fallbackProbe _) => s.Settled input ∧ result = .persisted
    ∧ (action = .fallback → ∃ next, fallbackProbe = .selected next)
  | .storing fact _ receipt (.finish _) => s.Settled input ∧ receipt = false
    ∧ ∃ outcome, fact = .turnCompleted input.turnId outcome ∧ s.ended? input = some outcome
  | .stored result _ (.finish _) => s.Settled input
    ∧ (result = .threw ∨ ∃ outcome, s.ended? input = some outcome
      ∧ EndsWith input s.stream outcome)
  | .waiting => s.Settled input
  | .returned _ => s.Settled input
    ∧ ∀ outcome, s.ended? input = some outcome → EndsWith input s.stream outcome
  | .threw => s.Settled input

/-- The invariant of a faithful run. -/
def Story (input : RunTurnAttemptPolicyInput) (s : PolicyState) : Prop := s.UnderWay input s.point

variable {options : TurnAttemptPolicyOptions} {input : RunTurnAttemptPolicyInput}
  {s t : PolicyState} {made : List AttemptIdentity} {told : List AttemptRecord}
  {identity : AttemptIdentity} {point : PolicyPoint}

theorem Settled.wholeStory (h : s.Settled input)
    (hcompleted : (∃ o, s.point = .returned o) →
      ∀ outcome, s.ended? input = some outcome → EndsWith input s.stream outcome) :
    s.WholeStory input :=
  ⟨h.recorded, fun _ => h.made, fun _ => h.told, hcompleted⟩

/-- What the invariant says of a run. -/
theorem Story.wholeStory (h : s.Story input) : s.WholeStory input := by
  have hgoes : ∀ {made told}, Kept input s made told → ¬ s.isOver → s.WholeStory input :=
    fun hkept hno => ⟨hkept.recorded, fun ho => absurd ho hno, fun ho => absurd ho hno,
      fun ⟨o, ho⟩ => absurd (.inr ⟨o, ho⟩) hno⟩
  rw [Story] at h
  cases hp : s.point with
  | returned outcome =>
    rw [hp] at h
    exact h.1.wholeStory fun _ => h.2
  | threw =>
    rw [hp] at h
    refine Settled.wholeStory h ?_
    rintro ⟨o, ho⟩
    rw [hp] at ho
    cases ho
  | waiting =>
    rw [hp] at h
    exact hgoes h (by simp [isOver, hp])
  | running identity =>
    rw [hp] at h
    exact hgoes h.1 (by simp [isOver, hp])
  | storing _ _ _ next =>
    rw [hp] at h
    cases next with
    | enter | attempt identity | finish outcome => exact hgoes h.1 (by simp [isOver, hp])
    | act action fallbackProbe turn =>
      obtain ⟨earlier, record, -, hkept, -⟩ := h
      exact hgoes hkept (by simp [isOver, hp])
  | stored _ _ next =>
    rw [hp] at h
    cases next with
    | enter => exact hgoes h (by simp [isOver, hp])
    | attempt identity | act action fallbackProbe turn | finish outcome =>
      exact hgoes h.1 (by simp [isOver, hp])

/-! ## Closing -/

/-- **A run that settles** tells how the turn ended, if it did. -/
theorem Settled.conclude (h : s.Settled input) (outcome : TurnAttemptPolicyOutcome) :
    (s.conclude input outcome).Story input := by
  rw [PolicyState.conclude]
  split
  · rename_i hnone
    refine ⟨{ h with }, fun ended hended => ?_⟩
    change (s.coordinator.get input.turnId).bind TurnSnapshot.outcome? = some ended at hended
    rw [hnone] at hended
    cases hended
  · rename_i ended hended
    exact ⟨{ h with }, rfl, ended, rfl, hended⟩

theorem Settled.settle (h : s.Settled input) (classification : SettlingClassification)
    (turn : Option TurnSnapshot) : (s.settle options input classification turn).Story input := by
  have hpresent : ((s.settleFromClassification options input classification turn).1.get
      input.turnId).isSome = true := by
    rw [settleFromClassification]
    split
    · exact h.present
    · exact ensureTerminal_present h.present
  rw [PolicyState.settle]
  split
  · exact { h with }
  · generalize s.settleFromClassification options input classification turn = settled at hpresent
    exact Settled.conclude (s := { s with coordinator := settled.1 }) { h with present := hpresent } _

/-- A run that returns while the turn goes on has nothing more to tell. -/
theorem Settled.return_ (h : s.Settled input) (hnone : s.ended? input = none) (kind : PolicyEnd) :
    (s.return_ input kind).Story input := by
  refine ⟨{ h with }, fun outcome hended => ?_⟩
  change s.ended? input = some outcome at hended
  rw [hnone] at hended
  cases hended

/-! ## Attempts -/

theorem Settled.call (h : s.Settled input)
    (hstarted : StartedOnce s.stream identity.modelAttemptId) (abortedBefore : Bool) :
    (s.call identity abortedBefore).Story input := by
  refine ⟨⟨h.present, fun call hc => ?_, ?_, h.told⟩, hstarted⟩
  · rcases List.mem_append.1 hc with hc | hc
    · exact h.recorded call hc
    · rw [List.mem_singleton.1 hc]
      exact hstarted.mem
  · rw [PolicyState.call, List.map_append, h.made]
    rfl

theorem Settled.begin_ (h : s.Settled input) : (s.begin_ options input).Story input := by
  rw [PolicyState.begin_]
  split
  · exact { h with }
  · dsimp only
    split
    · rename_i hnone
      have hpresent := h.present
      rw [hnone] at hpresent
      cases hpresent
    · exact ⟨{ h with }, rfl, rfl⟩

theorem Settled.top (h : s.Settled input) (hrecoverable : s.Recoverable input) :
    (s.top options input).Story input := by
  rw [PolicyState.top]
  split
  · exact h.settle _ _
  · rename_i hab
    split
    · exact h.begin_
    · rename_i hended
      obtain ⟨turn, hget, houtcome⟩ := Option.bind_eq_some_iff.1 hended
      obtain ⟨coordinator, hrecover, hpresent⟩ := recoverForNextAttempt_ok options hget
        (outcome?_eq_some.1 houtcome)
        (hrecoverable (Bool.not_eq_true _ ▸ hab) turn hget (by rw [houtcome]; rfl))
      rw [hrecover]
      exact Settled.begin_ (s := { s with
        coordinator
        generation := s.generation + 1
        recoveries := s.recoveries + 1 }) { h with present := hpresent }

theorem Settled.act {action : AttemptAction} {fallbackProbe : RoutingOutcome}
    (h : s.Settled input) (hprobe : action = .fallback → ∃ next, fallbackProbe = .selected next)
    (hrecoverable : action = .fallback → s.Recoverable input)
    (hactive : ∀ reason classification, action = .exhausted reason classification →
      s.ended? input = none) (turn : Option TurnSnapshot) :
    (s.act options input action fallbackProbe turn).Story input := by
  unfold PolicyState.act
  split
  · exact h.settle _ _
  · exact { h with }
  · obtain ⟨receipt, rfl⟩ := hprobe rfl
    exact Settled.top (s := { s with
      receipt
      visited := receipt.route :: s.visited
      attemptsOnCurrentRoute := 0 }) { h with } (hrecoverable rfl)
  · exact h.return_ (hactive _ _ rfl) _

theorem Kept.afterAttempt
    (h : Kept input s (s.attempts.map AttemptRecord.identity ++ [identity]) s.attempts)
    (hstarted : StartedOnce s.stream identity.modelAttemptId) (fact : AttemptFact)
    (turn : Option TurnSnapshot) :
    (s.afterAttempt options input identity fact turn).Story input := by
  rw [PolicyState.afterAttempt]
  dsimp only
  split
  · rename_i hnone
    have hpresent := h.present
    rw [hnone] at hpresent
    cases hpresent
  · refine ⟨s.attempts, _, rfl, ⟨h.present, h.recorded, ?_, h.told⟩, hstarted, rfl, rfl, ?_⟩
    · rw [store, List.map_append]
      exact h.made
    · exact fun haction => (actionFor_fallback haction).2

/-! ## Runs -/

/-- The journal keeps what it has. -/
theorem Kept.persist (h : Kept input s made told)
    (hstream : stream = s.stream ∨ Fresh s.stream fact ∧ stream = s.stream ++ [fact])
    (point : PolicyPoint) : Kept input { s with stream, point } made told := by
  rcases hstream with rfl | ⟨hfresh, rfl⟩
  · exact { h with }
  · exact ⟨h.present, fun call hc => List.mem_append_left _ (h.recorded call hc), h.made,
      fun attempt ha => (h.told attempt ha).append hfresh⟩

/-- **An append of a faithful run** stores its fact. -/
theorem Story.append {answer : StoreAnswer} (h : s.Story input)
    (hjournal : options.journal = true) (hlifecycle : options.persistTurnLifecycle = true)
    (hfaithful : Faithful input s (.append answer))
    (hstep : s.step options input (.append answer) = some t) : t.Story input := by
  obtain ⟨rfl, hstores⟩ := hfaithful
  simp only [PolicyState.step] at hstep
  split at hstep
  · rename_i fact lifecycle _ next hp
    cases hstep
    have hthere : journalFor options lifecycle = true := by
      rw [journalFor, hjournal, hlifecycle]
      cases lifecycle <;> rfl
    rw [hp] at hstores
    rw [Story, hp] at h
    rw [hthere]
    cases next with
    | enter => exact h.1.persist (persistFact_stream _ _ _ _ _) _
    | attempt identity =>
      obtain ⟨hsettled, rfl, rfl⟩ := h
      obtain ⟨hab, hfresh⟩ := hstores
      refine ⟨hsettled.persist (persistFact_stream _ _ _ _ _) _, ?_⟩
      dsimp only
      rw [hab, if_neg Bool.false_ne_true, persistFact_fresh hfresh]
      split
      · exact .inr ⟨rfl, startedOnce_append hfresh⟩
      · exact .inl rfl
    | act action fallbackProbe turn =>
      obtain ⟨earlier, record, hattempts, hkept, hstarted, rfl, rfl, hprobe⟩ := h
      obtain ⟨hexpired, hidentifier, hfresh⟩ := hstores
      have hpersist : persistFact true s.receiptExpired .accepts s.stream
          (.modelAttemptCompleted record.identity.modelAttemptId
            (outcomeForAttemptRecord record.classification))
          = (.persisted, s.stream ++ [.modelAttemptCompleted record.identity.modelAttemptId
            (outcomeForAttemptRecord record.classification)]) := by
        rw [hexpired, persistFact_fresh hfresh, if_pos hidentifier]
      rw [if_pos rfl, hpersist]
      have hkept' := hkept.persist (.inr ⟨hfresh, rfl⟩)
        (.stored .persisted s.aborted (.act action fallbackProbe turn))
      refine ⟨{ hkept' with told := fun attempt ha => ?_ }, rfl, hprobe⟩
      dsimp only at ha
      rw [hattempts] at ha
      rcases List.mem_append.1 ha with ha | ha
      · exact hkept'.told attempt ha
      · rw [List.mem_singleton.1 ha]
        exact told_append hstarted hfresh
    | finish =>
      obtain ⟨hsettled, rfl, ended, rfl, hended⟩ := h
      obtain ⟨hab, hfresh⟩ := hstores
      refine ⟨hsettled.persist (persistFact_stream _ _ _ _ _) _, ?_⟩
      dsimp only
      rw [hab, if_neg Bool.false_ne_true, persistFact_fresh hfresh]
      split
      · refine .inr ⟨ended, hended, s.stream, rfl, fun fact hmem => ?_⟩
        -- a second end of the turn would have the same identity
        cases fact with
        | turnCompleted =>
          refine decide_eq_false fun hid => ?_
          subst hid
          exact hfresh.ne hmem rfl
        | _ => rfl
      · exact .inl rfl
  · cases hstep

/-- The books do not mention the clock or the signals, and the turn only where it is over. -/
theorem UnderWay.congr {coordinator : TurnCoordinator} {aborted receiptExpired : Bool} {now : ℤ} (h : s.UnderWay input point)
    (hpresent : (coordinator.get input.turnId).isSome = true)
    (hended : ∀ outcome, s.ended? input = some outcome → coordinator = s.coordinator)
    (hgoes : point.awaits = true) :
    UnderWay input { s with coordinator, aborted, receiptExpired, now } point := by
  have hended' : ∀ outcome, s.ended? input = some outcome →
      ended? input { s with coordinator, aborted, receiptExpired, now } = some outcome := by
    intro outcome ho
    change (coordinator.get input.turnId).bind _ = _
    rw [hended outcome ho]
    exact ho
  cases point with
  | storing _ _ _ next =>
    cases next with
    | enter | attempt identity => exact ⟨{ h.1 with present := hpresent }, h.2⟩
    | act action fallbackProbe turn =>
      obtain ⟨earlier, record, hattempts, hkept, hrest⟩ := h
      exact ⟨earlier, record, hattempts, { hkept with present := hpresent }, hrest⟩
    | finish outcome =>
      obtain ⟨hsettled, hreceipt, ended, hfact, ho⟩ := h
      exact ⟨{ hsettled with present := hpresent }, hreceipt, ended, hfact, hended' ended ho⟩
  | stored _ _ next =>
    cases next with
    | enter => exact { h with present := hpresent }
    | attempt identity | act action fallbackProbe turn =>
      exact ⟨{ h.1 with present := hpresent }, h.2⟩
    | finish outcome =>
      refine ⟨{ h.1 with present := hpresent }, h.2.imp_right ?_⟩
      rintro ⟨ended, ho, hends⟩
      exact ⟨ended, hended' ended ho, hends⟩
  | running identity => exact ⟨{ h.1 with present := hpresent }, h.2⟩
  | waiting => exact { h with present := hpresent }
  | returned outcome => cases hgoes
  | threw => cases hgoes

/-- Every point says that the turn is there. -/
theorem UnderWay.present (h : s.UnderWay input point) :
    (s.coordinator.get input.turnId).isSome = true := by
  cases point with
  | storing _ _ _ next =>
    cases next with
    | act =>
      obtain ⟨earlier, record, -, hkept, -⟩ := h
      exact hkept.present
    | _ => exact h.1.present
  | stored _ _ next =>
    cases next with
    | enter => exact Kept.present h
    | _ => exact h.1.present
  | running | returned outcome => exact h.1.present
  | waiting | threw => exact Kept.present h

/-- **What follows a fact that was stored** keeps the story. -/
theorem Story.resume (h : s.Story input) (hfaithful : Faithful input s .resume)
    (hstep : s.step options input .resume = some t) : t.Story input := by
  simp only [PolicyState.step] at hstep
  split at hstep
  · rename_i next hp
    cases hstep
    rw [Story, hp] at h
    rw [Faithful, hp] at hfaithful
    unfold PolicyState.continue_
    cases next with
    | enter =>
      split
      · exact { h with }
      · exact Settled.top h hfaithful
    | attempt =>
      obtain ⟨hsettled, rfl | ⟨rfl, hstarted⟩⟩ := h
      · rw [if_pos rfl]
        exact { hsettled with }
      · rw [if_neg (by simp)]
        exact hsettled.call hstarted _
    | act =>
      obtain ⟨hsettled, rfl, hprobe⟩ := h
      rw [if_neg (by simp)]
      refine hsettled.act hprobe (fun haction => ?_) (fun _ _ haction => ?_) _
      · rw [haction] at hfaithful
        exact hfaithful
      · rw [haction] at hfaithful
        exact hfaithful
    | finish outcome =>
      obtain ⟨hsettled, hends⟩ := h
      split
      · exact { hsettled with }
      · rename_i hnot
        obtain ⟨ended, hended, hends⟩ := hends.resolve_left hnot
        refine ⟨{ hsettled with }, fun outcome ho => ?_⟩
        change s.ended? input = some outcome at ho
        rw [hended] at ho
        cases ho
        exact hends
  · cases hstep

/-- **One step of a faithful run** keeps the story. -/
theorem Story.step {event : PolicyEvent} (h : s.Story input)
    (hjournal : options.journal = true) (hlifecycle : options.persistTurnLifecycle = true)
    (hfaithful : Faithful input s event) (hstep : s.step options input event = some t) :
    t.Story input := by
  cases event with
  | abort | tick now =>
    simp only [PolicyState.step] at hstep
    split at hstep
    · rename_i hgoes
      cases hstep
      exact UnderWay.congr h (UnderWay.present h) (fun _ _ => rfl) hgoes
    · cases hstep
  | expire =>
    simp only [PolicyState.step] at hstep
    split at hstep
    · rename_i hp
      cases hstep
      exact UnderWay.congr h (UnderWay.present h) (fun _ _ => rfl) (by rw [hp]; rfl)
    · cases hstep
  | command =>
    simp only [PolicyState.step] at hstep
    split at hstep
    · rename_i hgoes
      split at hstep
      · rename_i happ
        cases hstep
        refine UnderWay.congr h (TurnCoordinator.apply_present happ) (fun _ ho => ?_) hgoes.1
        -- nobody else acts on a turn that is over
        obtain ⟨turn, hget, houtcome⟩ := Option.bind_eq_some_iff.1 ho
        rw [TurnCoordinator.apply_terminal hget (outcome?_eq_some.1 houtcome) hgoes.2] at happ
        cases happ
      · cases hstep
        exact h
    · cases hstep
  | append => exact h.append hjournal hlifecycle hfaithful hstep
  | resume => exact h.resume hfaithful hstep
  | ran fact turn =>
    simp only [PolicyState.step] at hstep
    split at hstep
    · rename_i hp
      cases hstep
      rw [Story, hp] at h
      exact h.1.afterAttempt h.2 fact turn
    · cases hstep
  | waited =>
    simp only [PolicyState.step] at hstep
    split at hstep
    · rename_i hp
      cases hstep
      rw [Story, hp] at h
      split
      · exact Settled.settle h _ _
      · exact Settled.top h hfaithful
    · cases hstep

/-- A run starts with a turn that is there, and on a route unless the turn goes on. -/
def StartFaithful (options : TurnAttemptPolicyOptions) (input : RunTurnAttemptPolicyInput)
    (coordinator : TurnCoordinator) (now : ℤ) : Prop :=
  ∀ turn ∈ coordinator.get input.turnId, turn.outcome?.isSome = true →
    ∃ receipt, resolveModelRoute (routeInput options input now []) = .selected receipt

/-- A run that has returned takes no further step. -/
theorem run_of_returned {o : TurnAttemptPolicyOutcome} (ho : s.point = .returned o)
    {events : List PolicyEvent} (h : StateMachine.run (step options input) s events = some t) :
    t = s := by
  cases events with
  | nil =>
    cases h
    rfl
  | cons event events =>
    obtain ⟨s', hstep, -⟩ := StateMachine.run_cons.1 h
    exfalso
    cases event <;> simp [PolicyState.step, ho, PolicyPoint.awaits] at hstep

/-- A run that returns at once has told everything, as the turn goes on. -/
theorem wholeStory_of_returned (hcalls : s.calls = []) (hattempts : s.attempts = [])
    (hended : s.ended? input = none) : s.WholeStory input := by
  refine ⟨fun _ hc => ?_, fun _ => ?_, fun _ _ ha => ?_, fun _ _ hout => ?_⟩
  · rw [hcalls] at hc
    cases hc
  · rw [hcalls, hattempts]
    rfl
  · rw [hattempts] at ha
    cases ha
  · rw [hended] at hout
    cases hout

theorem advance_error {c : TurnCoordinator} {generation : ℕ} {error : TurnCoordinatorError}
    (h : advanceToAssemblingContext options input c generation = .error error) :
    (c.get input.turnId).bind TurnSnapshot.outcome? = none := by
  rw [advanceToAssemblingContext] at h
  split at h
  · rename_i hget
    rw [hget]
    rfl
  · rename_i hget
    rw [hget, Option.bind_some]
    split at h
    · rename_i hst _
      exact outcome?_eq_none.2 hst
    · rename_i hst _
      exact outcome?_eq_none.2 hst
    · cases h

/-- **The start of a run** has told everything, or the turn is there and the run goes on. -/
theorem story_start (coordinator : TurnCoordinator) (aborted : Bool) (now : ℤ)
    (stream : List TurnLifecycleFact) (hstart : StartFaithful options input coordinator now) :
    (∃ o, (start options input coordinator aborted now stream).point = .returned o
        ∧ (start options input coordinator aborted now stream).WholeStory input)
      ∨ (start options input coordinator aborted now stream).Story input := by
  rw [start]
  dsimp only
  split
  · rename_i receipt _
    split
    · rename_i herror
      exact .inl ⟨_, rfl, wholeStory_of_returned rfl rfl (advance_error herror)⟩
    · rename_i hc
      refine .inr ⟨⟨advance_present hc, fun _ hcall => ?_, rfl, fun _ ha => ?_⟩, rfl, rfl⟩
      · cases hcall
      · cases ha
  · rename_i hno
    refine .inl ⟨_, rfl, wholeStory_of_returned rfl rfl ?_⟩
    change (coordinator.get input.turnId).bind TurnSnapshot.outcome? = none
    rw [Option.bind_eq_none_iff]
    intro turn hget
    by_contra hover
    obtain ⟨receipt, hselected⟩ := hstart turn hget (Option.isSome_iff_ne_none.2 hover)
    exact hno receipt hselected

/-- The stream and the turn's outcome of a run that has returned. -/
def record (input : RunTurnAttemptPolicyInput) (s : PolicyState) :
    Option (List TurnLifecycleFact × Option TerminalOutcome) :=
  match s.point with
  | .returned _ => some (s.stream, s.ended? input)
  | _ => none

theorem exists_of_record (events : List PolicyEvent) {ended : Option TerminalOutcome}
    (h : (StateMachine.run (step (twoRouteOptions true) (budgeted none))
      (start (twoRouteOptions true) (budgeted none) freshTurn false 0 []) events).bind
        (record (budgeted none)) = some (stream, ended)) :
    ∃ s, Reaches (twoRouteOptions true) (budgeted none) freshTurn false 0 [] events s
      ∧ (∃ o, s.point = .returned o) ∧ s.stream = stream ∧ s.ended? (budgeted none) = ended := by
  obtain ⟨s, hs, hrecord⟩ := Option.bind_eq_some_iff.1 h
  rw [record] at hrecord
  split at hrecord
  · rename_i o ho
    obtain ⟨hstream, hended⟩ := Prod.mk.inj (Option.some.inj hrecord)
    exact ⟨s, hs, ⟨o, ho⟩, hstream, hended⟩
  · cases hrecord

/-- The first attempt completes. -/
def completesFirst : List PolicyEvent :=
  [.append .accepts, .resume, .append .accepts, .resume, .ran (.completed "stop" true false) none,
    .append .accepts, .resume, .append .accepts, .resume]

end PolicyState

end Falryn.Runtime
