import Falryn.Runtime.TurnAttemptPolicy

/-!
# How often a turn is attempted

The calls of the runner go through the routes of the policy in order: `Counted` says so of the calls
that were made, and `Bounds` adds what is due in each stage of the loop.  Whether a call is made in
time is another matter.  The budget is looked at when a retry is weighed and nowhere else, and an
abort at the top of the loop and not after the journal was asked to record the start; `Orderly` is
what the clock, the signal and the routes have to do for every call to be in time.
-/

namespace Falryn.Runtime

open Orchestration Sessions Providers

namespace RunnerCall

/-- The route of a call. -/
def route (call : RunnerCall) : ProviderModelIdentity := call.receipt.route

/-- Two calls, the second later: on one route, or on a route that comes later in the list. -/
def Follows (first second : RunnerCall) : Prop :=
  first.route = second.route ∧ first.receipt.fallbackPosition = second.receipt.fallbackPosition
    ∨ first.route ≠ second.route
      ∧ first.receipt.fallbackPosition < second.receipt.fallbackPosition

end RunnerCall

namespace PolicyState

/-! ## The properties -/

/-- The calls that were made on a route. -/
def callsOn (s : PolicyState) (route : ProviderModelIdentity) : ℕ :=
  s.calls.countP fun call => call.route = route

/-- **The attempts of a run are bounded**: on each route, over the routes, in all, and by what each of
them has done. -/
structure AttemptsBounded (options : TurnAttemptPolicyOptions) (input : RunTurnAttemptPolicyInput)
    (m : ℕ) (s : PolicyState) : Prop where
  perRoute : ∀ route, s.callsOn route ≤ m
  consecutive : ∀ before first between last after,
    s.calls = before ++ first :: (between ++ last :: after) → first.route = last.route →
    ∀ call ∈ between, call.route = first.route
  increasing : s.calls.Pairwise RunnerCall.Follows
  total : ∀ last, s.calls.getLast? = some last →
    s.calls.length ≤ m * (1 + fallbackCount options.policy last.receipt.role
      (fastOptionForIntent input.intent))
  followed : ∀ before attempt after, s.attempts = before ++ attempt :: after →
    before.length + 1 < s.calls.length → attempt.fact.Repeatable
  generations : s.generation = input.configurationGeneration + s.recoveries
    ∧ ∀ call ∈ s.calls, call.configurationGeneration
      = input.configurationGeneration + call.recoveries

/-- The budget is not exhausted. -/
def InTime (input : RunTurnAttemptPolicyInput) (elapsedMs : ℤ) : Prop :=
  ∀ budget ∈ input.elapsedBudgetMs, (elapsedMs : ℚ) < budget

instance (input : RunTurnAttemptPolicyInput) (elapsedMs : ℤ) : Decidable (InTime input elapsedMs) :=
  inferInstanceAs (Decidable (∀ budget ∈ input.elapsedBudgetMs, (elapsedMs : ℚ) < budget))

/-- **No call is made too late**: after the budget was exhausted, or after an abort that came before
the start of the attempt was recorded. -/
def CallsInTime (input : RunTurnAttemptPolicyInput) (s : PolicyState) : Prop :=
  ∀ call ∈ s.calls, InTime input call.elapsedMs ∧ call.abortedBefore = false

/-! ## Stages -/

/-- What a run is about to do. -/
inductive Stage where
  /-- It makes an attempt, unless something stops it. -/
  | opening
  | running
  /-- It does what was decided. -/
  | acting (action : AttemptAction) (fallbackProbe : RoutingOutcome)
  | closed

end PolicyState

def PolicyNext.stage : PolicyNext → PolicyState.Stage
  | enter => .opening
  | attempt _ => .opening
  | act action fallbackProbe _ => .acting action fallbackProbe
  | finish _ => .closed

def PolicyPoint.stage : PolicyPoint → PolicyState.Stage
  | storing _ _ _ next => next.stage
  | stored _ _ next => next.stage
  | running _ => .running
  | waiting => .opening
  | returned _ => .closed
  | threw => .closed

namespace PolicyState

/-! ## The invariant -/

/-- The books of a run, with `current` calls on the route it is on. -/
structure Counted (options : TurnAttemptPolicyOptions) (input : RunTurnAttemptPolicyInput) (m : ℕ)
    (s : PolicyState) (current : ℕ) : Prop where
  visited : ∀ call ∈ s.calls, call.route ∈ s.visited
  here : s.receipt.route ∈ s.visited
  below : ∀ call ∈ s.calls, call.route = s.receipt.route
      ∧ call.receipt.fallbackPosition = s.receipt.fallbackPosition
    ∨ call.route ≠ s.receipt.route
      ∧ call.receipt.fallbackPosition < s.receipt.fallbackPosition
  within : s.receipt.fallbackPosition ≤ fallbackCount options.policy s.receipt.role
    (fastOptionForIntent input.intent)
  increasing : s.calls.Pairwise RunnerCall.Follows
  onRoute : s.callsOn s.receipt.route = current
  elsewhere : ∀ route, route ≠ s.receipt.route → s.callsOn route ≤ m
  length : s.calls.length ≤ m * s.receipt.fallbackPosition + current
  total : ∀ last, s.calls.getLast? = some last →
    s.calls.length ≤ m * (1 + fallbackCount options.policy last.receipt.role
      (fastOptionForIntent input.intent))
  generation : s.generation = input.configurationGeneration + s.recoveries
  generations : ∀ call ∈ s.calls,
    call.configurationGeneration = input.configurationGeneration + call.recoveries

/-- All attempts so far may be followed by another one. -/
def AllRepeatable (attempts : List AttemptRecord) : Prop := ∀ a ∈ attempts, a.fact.Repeatable

/-- A route comes later than all that were visited. -/
def Later (options : TurnAttemptPolicyOptions) (input : RunTurnAttemptPolicyInput)
    (s : PolicyState) (receipt : RoutingReceipt) : Prop :=
  s.receipt.fallbackPosition < receipt.fallbackPosition ∧ receipt.route ∉ s.visited
    ∧ receipt.fallbackPosition ≤ fallbackCount options.policy receipt.role
      (fastOptionForIntent input.intent)

/-- What is due in a stage. -/
def Due (options : TurnAttemptPolicyOptions) (input : RunTurnAttemptPolicyInput) (m : ℕ)
    (s : PolicyState) (current : ℕ) : Stage → Prop
  | .opening => AllRepeatable s.attempts ∧ s.attempts.length = s.calls.length
    ∧ current = s.attemptsOnCurrentRoute ∧ current < m
  | .running => AllRepeatable s.attempts ∧ s.attempts.length + 1 = s.calls.length
    ∧ current = s.attemptsOnCurrentRoute + 1 ∧ current ≤ m
  | .acting (.retrySame _ _) _ => AllRepeatable s.attempts ∧ s.attempts.length = s.calls.length
    ∧ current = s.attemptsOnCurrentRoute ∧ current < m
  | .acting .fallback fallbackProbe => AllRepeatable s.attempts
    ∧ s.attempts.length = s.calls.length ∧ current ≤ m
    ∧ ∀ receipt, fallbackProbe = .selected receipt → s.Later options input receipt
  | _ => AllRepeatable s.attempts.dropLast ∧ s.attempts.length = s.calls.length ∧ current ≤ m

/-- The invariant of every run. -/
def Bounds (options : TurnAttemptPolicyOptions) (input : RunTurnAttemptPolicyInput) (m : ℕ)
    (s : PolicyState) : Prop :=
  ∃ current, Counted options input m s current ∧ s.Due options input m current s.point.stage

variable {options : TurnAttemptPolicyOptions} {input : RunTurnAttemptPolicyInput} {m : ℕ}
  {s t : PolicyState} {current : ℕ} {stage : Stage} {action : AttemptAction}
  {fallbackProbe : RoutingOutcome}

theorem AllRepeatable.dropLast {attempts : List AttemptRecord} (h : AllRepeatable attempts) :
    AllRepeatable attempts.dropLast :=
  fun a ha => h a (List.mem_of_mem_dropLast ha)

/-- What every stage says. -/
theorem Due.weaken (h : s.Due options input m current stage) :
    AllRepeatable s.attempts.dropLast ∧ current ≤ m
      ∧ (s.attempts.length = s.calls.length
        ∨ AllRepeatable s.attempts ∧ s.attempts.length + 1 = s.calls.length) := by
  unfold Due at h
  split at h
  · exact ⟨h.1.dropLast, h.2.2.2.le, .inl h.2.1⟩
  · exact ⟨h.1.dropLast, h.2.2.2, .inr ⟨h.1, h.2.1⟩⟩
  · exact ⟨h.1.dropLast, h.2.2.2.le, .inl h.2.1⟩
  · exact ⟨h.1.dropLast, h.2.2.1, .inl h.2.1⟩
  · exact ⟨h.1, h.2.2, .inl h.2.1⟩

/-- Of three calls in order, the one in the middle is on the route of the others. -/
theorem route_between {before between after : List RunnerCall} {first last call : RunnerCall}
    (h : (before ++ first :: (between ++ last :: after)).Pairwise RunnerCall.Follows)
    (heq : first.route = last.route) (hmem : call ∈ between) : call.route = first.route := by
  have h₁ := (List.pairwise_append.1 h).2.1
  rw [List.pairwise_cons] at h₁
  have hfirst : RunnerCall.Follows first call := h₁.1 call (List.mem_append_left _ hmem)
  have hlast : RunnerCall.Follows call last :=
    (List.pairwise_append.1 h₁.2).2.2 call hmem last List.mem_cons_self
  have hends : RunnerCall.Follows first last :=
    h₁.1 last (List.mem_append_right _ List.mem_cons_self)
  rcases hfirst with hfirst | hfirst
  · exact hfirst.1.symm
  · exfalso
    have hposition : first.receipt.fallbackPosition = last.receipt.fallbackPosition := by
      rcases hends with hends | hends
      · exact hends.2
      · exact absurd heq hends.1
    rcases hlast with hlast | hlast
    · omega
    · omega

/-- **What the invariant says of a run.** -/
theorem Bounds.attemptsBounded (h : s.Bounds options input m) :
    s.AttemptsBounded options input m := by
  obtain ⟨current, hcounted, hdue⟩ := h
  obtain ⟨hdrop, hcurrent, hlength⟩ := hdue.weaken
  refine ⟨fun route => ?_, fun before _ _ _ after hsplit heq _ hmem => ?_,
    hcounted.increasing, hcounted.total, fun before attempt after hsplit _ => ?_,
    hcounted.generation, hcounted.generations⟩
  · by_cases hroute : route = s.receipt.route
    · rw [hroute, hcounted.onRoute]
      exact hcurrent
    · exact hcounted.elsewhere route hroute
  · have hpairs := hcounted.increasing
    rw [hsplit] at hpairs
    exact route_between hpairs heq hmem
  · rcases hlength with hlength | ⟨hall, -⟩
    · -- the attempt is not the last one
      refine hdrop attempt ?_
      have hne : after ≠ [] := by
        rintro rfl
        rw [hsplit, List.length_append, List.length_singleton] at hlength
        omega
      rw [hsplit, List.dropLast_append_of_ne_nil (List.cons_ne_nil _ _),
        List.dropLast_cons_of_ne_nil hne]
      exact List.mem_append_right _ List.mem_cons_self
    · refine hall attempt ?_
      rw [hsplit]
      exact List.mem_append_right _ List.mem_cons_self

/-! ## Closing -/

/-- **Settling** moves the turn and closes the run. -/
theorem settle_eq (options : TurnAttemptPolicyOptions) (input : RunTurnAttemptPolicyInput)
    (s : PolicyState) (classification : SettlingClassification) (turn : Option TurnSnapshot) :
    ∃ coordinator point receiptExpired, s.settle options input classification turn
        = { s with coordinator, point, receiptExpired }
      ∧ point.stage = .closed := by
  rw [settle]
  split
  · exact ⟨s.coordinator, .threw, s.receiptExpired, rfl, rfl⟩
  · generalize s.settleFromClassification options input classification turn = settled
    rw [conclude]
    split
    · exact ⟨settled.1, _, s.receiptExpired, rfl, rfl⟩
    · exact ⟨settled.1, _, false, rfl, rfl⟩

theorem Counted.settle (h : Counted options input m s current)
    (hdue : s.Due options input m current .closed) (classification : SettlingClassification)
    (turn : Option TurnSnapshot) :
    (s.settle options input classification turn).Bounds options input m := by
  obtain ⟨coordinator, point, receiptExpired, heq, hstage⟩ :=
    settle_eq options input s classification turn
  rw [heq]
  refine ⟨current, { h with }, ?_⟩
  dsimp only
  rw [hstage]
  exact hdue

theorem Due.closed (h : s.Due options input m current stage)
    (hlength : s.attempts.length = s.calls.length) : s.Due options input m current .closed :=
  ⟨h.weaken.1, hlength, h.weaken.2.1⟩

/-! ## Calling the runner -/

theorem callsOn_call (identity : AttemptIdentity) (abortedBefore : Bool)
    (route : ProviderModelIdentity) :
    (s.call identity abortedBefore).callsOn route
      = s.callsOn route + if s.receipt.route = route then 1 else 0 := by
  rw [callsOn, callsOn, call, List.countP_append]
  by_cases hroute : s.receipt.route = route
  · simp [RunnerCall.route, hroute]
  · simp [RunnerCall.route, hroute]

/-- **A call of the runner** is one more on the current route. -/
theorem Counted.call (h : Counted options input m s current)
    (hdue : s.Due options input m current .opening) (identity : AttemptIdentity)
    (abortedBefore : Bool) : (s.call identity abortedBefore).Bounds options input m := by
  obtain ⟨hall, hlength, hcurrent, hlt⟩ := hdue
  have hlengths : (s.call identity abortedBefore).calls.length = s.calls.length + 1 := by
    rw [PolicyState.call, List.length_append, List.length_singleton]
  have hmem : ∀ {P : RunnerCall → Prop}, (∀ call ∈ s.calls, P call) →
      P ⟨identity, s.receipt, s.generation, s.recoveries, s.now - s.startedAt, abortedBefore⟩ →
      ∀ call ∈ (s.call identity abortedBefore).calls, P call := by
    intro P hold hnew call hc
    rcases List.mem_append.1 hc with hc | hc
    · exact hold call hc
    · rw [List.mem_singleton.1 hc]
      exact hnew
  refine ⟨current + 1, ⟨hmem h.visited h.here, h.here, hmem h.below (.inl ⟨rfl, rfl⟩), h.within, ?_,
    ?_, fun route hne => ?_, ?_, fun last hlast => ?_, h.generation, hmem h.generations h.generation⟩,
    hall, ?_, by rw [hcurrent]; rfl, hlt⟩
  · rw [PolicyState.call, List.pairwise_append]
    refine ⟨h.increasing, List.pairwise_singleton _ _, fun call hc _ hc' => ?_⟩
    rw [List.mem_singleton.1 hc']
    exact h.below call hc
  · rw [callsOn_call]
    change s.callsOn s.receipt.route + _ = _
    rw [h.onRoute]
    simp [PolicyState.call]
  · have hne' : s.receipt.route ≠ route := Ne.symm hne
    rw [callsOn_call, if_neg hne', Nat.add_zero]
    exact h.elsewhere route hne
  · rw [hlengths]
    exact Nat.succ_le_succ h.length
  · rw [hlengths]
    have hrole : last.receipt.role = s.receipt.role := by
      rw [PolicyState.call, List.getLast?_concat] at hlast
      rw [← Option.some.inj hlast]
    have hposition := Nat.mul_le_mul_left m h.within
    have hcount := h.length
    rw [hrole]
    rw [Nat.mul_add, Nat.mul_one]
    omega
  · rw [hlengths, PolicyState.call, hlength]

/-- **The start of an attempt** calls the runner or asks the journal first. -/
theorem Counted.begin_ (h : Counted options input m s current)
    (hdue : s.Due options input m current .opening) :
    (s.begin_ options input).Bounds options input m := by
  rw [PolicyState.begin_]
  split
  · exact ⟨current, { h with }, hdue.closed hdue.2.1⟩
  · dsimp only
    split
    · exact h.call hdue _ _
    · exact ⟨current, { h with }, hdue⟩

/-- **The top of the loop** recovers the turn if it is over. -/
theorem Counted.top (h : Counted options input m s current)
    (hdue : s.Due options input m current .opening) :
    (s.top options input).Bounds options input m := by
  rw [PolicyState.top]
  split
  · exact h.settle (hdue.closed hdue.2.1) _ _
  · split
    · exact h.begin_ hdue
    · split
      · exact ⟨current, { h with }, hdue.closed hdue.2.1⟩
      · rename_i coordinator _
        refine Counted.begin_ (s := { s with
          coordinator
          generation := s.generation + 1
          recoveries := s.recoveries + 1 }) { h with generation := ?_ } hdue
        dsimp only
        rw [h.generation, Nat.add_assoc]

/-! ## Deciding -/

/-- **What was decided is done.** -/
theorem Counted.act (h : Counted options input m s current) (hm : 0 < m)
    (hdue : s.Due options input m current (.acting action fallbackProbe))
    (turn : Option TurnSnapshot) :
    (s.act options input action fallbackProbe turn).Bounds options input m := by
  unfold PolicyState.act
  split
  · exact h.settle hdue _ _
  · exact ⟨current, { h with }, hdue⟩
  · obtain ⟨hall, hlength, hcurrent, hlater⟩ := hdue
    split
    · rename_i receipt
      obtain ⟨hposition, hnew, hwithin⟩ := hlater receipt rfl
      have hne : ∀ call ∈ s.calls, call.route ≠ receipt.route :=
        fun call hc heq => hnew (heq ▸ h.visited call hc)
      have hnone : s.callsOn receipt.route = 0 := by
        rw [callsOn, List.countP_eq_zero]
        intro call hc
        simpa using hne call hc
      suffices hcounted : Counted options input m { s with
          receipt
          visited := receipt.route :: s.visited
          attemptsOnCurrentRoute := 0 } 0 from hcounted.top ⟨hall, hlength, rfl, hm⟩
      refine ⟨fun call hc => List.mem_cons_of_mem _ (h.visited call hc), List.mem_cons_self,
        fun call hc => .inr ⟨hne call hc, ?_⟩, hwithin, h.increasing, hnone, fun route _ => ?_, ?_,
        h.total, h.generation, h.generations⟩
      · rcases h.below call hc with ⟨-, heq⟩ | ⟨-, hlt⟩
        · exact heq ▸ hposition
        · exact hlt.trans hposition
      · by_cases hroute : route = s.receipt.route
        · change s.callsOn route ≤ m
          rw [hroute, h.onRoute]
          exact hcurrent
        · exact h.elsewhere route hroute
      · -- the routes before this one have made at most `m` calls each
        have hmul : m * (s.receipt.fallbackPosition + 1) ≤ m * receipt.fallbackPosition :=
          Nat.mul_le_mul_left m hposition
        have hcount := h.length
        rw [Nat.mul_add, Nat.mul_one] at hmul
        dsimp only
        omega
    · exact ⟨current, { h with }, hall.dropLast, hlength, hcurrent⟩
  · exact ⟨current, { h with }, hdue⟩

variable {fact : AttemptFact} {next : PolicyNext} {event : PolicyEvent}

/-- A route that is retried has attempts left, and time. -/
theorem actionFor_retrySame {attempt : ℕ} {delayMs : ℤ}
    (h : s.actionFor options input fact = .retrySame attempt delayMs) :
    fact.Repeatable ∧ (s.measured fact).attemptsOnCurrentRoute = s.attemptsOnCurrentRoute + 1
      ∧ ((s.attemptsOnCurrentRoute + 1 : ℕ) : ℚ) < options.retryPolicy.maxAttempts
      ∧ InTime input (max s.elapsedMs (s.now - s.startedAt)) := by
  obtain ⟨⟨effect, message, hclass⟩, hdecision⟩ := decideAttemptAction_retrySame h
  have hmade : (s.measured fact).attemptsOnCurrentRoute = s.attemptsOnCurrentRoute + 1 := by
    rw [measured, hclass]
  rw [hclass] at hdecision
  obtain ⟨hlt, htime⟩ := evaluateRetry_retry (Option.some.inj hdecision)
  refine ⟨classifyAttempt_repeatable ?_, hmade, ?_, htime⟩
  · rw [hclass]
    intro classification hne
    cases hne
  · rw [← hmade]
    exact hlt

/-- A route that is fallen back to comes later than those before. -/
theorem actionFor_fallback (h : s.actionFor options input fact = .fallback) :
    fact.Repeatable ∧ ∃ receipt, s.fallbackProbe options input = .selected receipt := by
  obtain ⟨hclass, havailable⟩ := decideAttemptAction_fallback h
  refine ⟨classifyAttempt_repeatable hclass, ?_⟩
  cases hprobe : s.fallbackProbe options input with
  | selected receipt => exact ⟨receipt, rfl⟩
  | _ =>
    rw [hprobe] at havailable
    cases havailable

theorem fallbackProbe_later {receipt : RoutingReceipt}
    (h : s.fallbackProbe options input = .selected receipt) : s.Later options input receipt := by
  obtain ⟨hposition, hwithin, -, hnew⟩ := resolveNextFallback_selected h
  exact ⟨hposition, hnew, hwithin⟩

/-- **An attempt that has ended** leaves what its action needs. -/
theorem Counted.afterAttempt (h : Counted options input m s current) (hm : 0 < m)
    (hmax : options.retryPolicy.maxAttempts = m) (hdue : s.Due options input m current .running)
    (identity : AttemptIdentity) (fact : AttemptFact) (turn : Option TurnSnapshot) :
    (s.afterAttempt options input identity fact turn).Bounds options input m := by
  obtain ⟨hall, hlength, hcurrent, hle⟩ := hdue
  set record : AttemptRecord :=
    { identity, receipt := s.receipt, fact, classification := classifyAttempt fact
      action := s.actionFor options input fact } with hrecord
  have hmore : fact.Repeatable → AllRepeatable (s.attempts ++ [record]) := by
    intro hfact a ha
    rcases List.mem_append.1 ha with ha | ha
    · exact hall a ha
    · rw [List.mem_singleton.1 ha]
      exact hfact
  have hlengths : (s.attempts ++ [record]).length = s.calls.length := by
    rw [List.length_append, List.length_singleton, hlength]
  have hother : AllRepeatable (s.attempts ++ [record]).dropLast := by
    rw [List.dropLast_concat]
    exact hall
  have hcounted : Counted options input m
      { s.measured fact with attempts := s.attempts ++ [record] } current := { h with }
  have hacting : ({ s.measured fact with attempts := s.attempts ++ [record] } : PolicyState).Due
      options input m current
      (.acting (s.actionFor options input fact) (s.fallbackProbe options input)) := by
    cases haction : s.actionFor options input fact with
    | retrySame =>
      obtain ⟨hfact, hmade, hlt, -⟩ := actionFor_retrySame haction
      refine ⟨hmore hfact, hlengths, hcurrent.trans hmade.symm, ?_⟩
      rw [hmax, Nat.cast_lt] at hlt
      exact hcurrent ▸ hlt
    | fallback =>
      obtain ⟨hfact, -⟩ := actionFor_fallback haction
      exact ⟨hmore hfact, hlengths, hle, fun receipt hprobe => fallbackProbe_later hprobe⟩
    | settle classification | exhausted reason classification => exact ⟨hother, hlengths, hle⟩
  rw [PolicyState.afterAttempt]
  dsimp only
  rw [← hrecord]
  split
  · exact hcounted.act hm hacting _
  · exact ⟨current, { hcounted with }, hacting⟩

/-! ## Runs -/

theorem Counted.continue_ {result : PersistResult} {abortedBefore : Bool}
    (h : Counted options input m s current) (hm : 0 < m)
    (hdue : s.Due options input m current next.stage)
    (hlength : s.attempts.length = s.calls.length) :
    (s.continue_ options input result abortedBefore next).Bounds options input m := by
  unfold PolicyState.continue_
  split
  · exact ⟨current, { h with }, hdue.closed hlength⟩
  · split
    · exact h.top hdue
    · split
      · exact h.settle (hdue.closed hlength) _ _
      · exact h.call hdue _ _
    · exact h.act hm hdue _
    · exact ⟨current, { h with }, hdue⟩

theorem Due.length_next (h : s.Due options input m current next.stage) :
    s.attempts.length = s.calls.length := by
  cases next with
  | enter => exact h.2.1
  | attempt => exact h.2.1
  | act action => cases action <;> exact h.2.1
  | finish => exact h.2.1

/-- **One step** keeps the books. -/
theorem Bounds.step (h : s.Bounds options input m) (hm : 0 < m)
    (hmax : options.retryPolicy.maxAttempts = m)
    (hstep : s.step options input event = some t) : t.Bounds options input m := by
  obtain ⟨current, hcounted, hdue⟩ := h
  cases event with
  | abort | tick now | expire =>
    simp only [PolicyState.step] at hstep
    split at hstep
    · cases hstep
      exact ⟨current, { hcounted with }, hdue⟩
    · cases hstep
  | command =>
    simp only [PolicyState.step] at hstep
    split at hstep
    · split at hstep
      · cases hstep
        exact ⟨current, { hcounted with }, hdue⟩
      · cases hstep
        exact ⟨current, hcounted, hdue⟩
    · cases hstep
  | append =>
    simp only [PolicyState.step] at hstep
    split at hstep
    · rename_i hp
      cases hstep
      rw [hp] at hdue
      exact ⟨current, { hcounted with }, hdue⟩
    · cases hstep
  | resume =>
    simp only [PolicyState.step] at hstep
    split at hstep
    · rename_i hp
      cases hstep
      rw [hp] at hdue
      exact hcounted.continue_ hm hdue hdue.length_next
    · cases hstep
  | ran =>
    simp only [PolicyState.step] at hstep
    split at hstep
    · rename_i hp
      cases hstep
      rw [hp] at hdue
      exact hcounted.afterAttempt hm hmax hdue _ _ _
    · cases hstep
  | waited =>
    simp only [PolicyState.step] at hstep
    split at hstep
    · rename_i hp
      cases hstep
      rw [hp] at hdue
      split
      · exact hcounted.settle (hdue.closed hdue.2.1) _ _
      · exact hcounted.top hdue
    · cases hstep

/-- No call was made yet. -/
theorem counted_nil (m : ℕ) (hcalls : s.calls = []) (hhere : s.receipt.route ∈ s.visited)
    (hwithin : s.receipt.fallbackPosition ≤ fallbackCount options.policy s.receipt.role
      (fastOptionForIntent input.intent))
    (hgeneration : s.generation = input.configurationGeneration + s.recoveries) :
    Counted options input m s 0 := by
  have hno : ∀ {P : RunnerCall → Prop}, ∀ call ∈ s.calls, P call := by
    intro P call hc
    rw [hcalls] at hc
    cases hc
  refine ⟨hno, hhere, hno, hwithin, ?_, ?_, fun route _ => ?_, ?_, fun _ _ => ?_, hgeneration, hno⟩
  · rw [hcalls]
    exact .nil
  · rw [callsOn, hcalls]
    rfl
  · rw [callsOn, hcalls]
    exact Nat.zero_le _
  · rw [hcalls]
    exact Nat.zero_le _
  · rw [hcalls]
    exact Nat.zero_le _

theorem bounds_start (options : TurnAttemptPolicyOptions) (input : RunTurnAttemptPolicyInput)
    (coordinator : TurnCoordinator) (aborted : Bool) (now : ℤ) (stream : List TurnLifecycleFact)
    (hm : 0 < m) : (start options input coordinator aborted now stream).Bounds options input m := by
  have hempty : AllRepeatable [] := fun a ha => by cases ha
  rw [start]
  dsimp only
  split
  · rename_i hroute
    have hwithin := resolveModelRoute_selected hroute
    split
    · exact ⟨0, counted_nil m rfl List.mem_cons_self hwithin rfl, hempty, rfl, Nat.zero_le _⟩
    · exact ⟨0, counted_nil m rfl List.mem_cons_self hwithin rfl, hempty, rfl, rfl, hm⟩
  · exact ⟨0, counted_nil m rfl List.mem_cons_self (Nat.zero_le _) rfl, hempty, rfl,
      Nat.zero_le _⟩

/-! ## Calls in time -/

/-- A call may follow without another decision. -/
def Stage.leads : Stage → Bool
  | .opening => true
  | .acting (.retrySame _ _) _ => true
  | .acting .fallback _ => true
  | _ => false

/-- What the world has to do for every call to be in time: the budget is not exhausted while a fact is
stored or a delay is waited out on the way to a call; the signal is not aborted before the journal has
recorded the start of an attempt; and an attempt that ends with the budget exhausted settles, or no
route is left. -/
def Orderly (options : TurnAttemptPolicyOptions) (input : RunTurnAttemptPolicyInput)
    (s : PolicyState) : PolicyEvent → Prop
  | .tick now => s.point.stage.leads = true → InTime input (now - s.startedAt)
  | .append _ => (s.point matches .storing _ _ _ (.attempt _)) = true → s.aborted = false
  | .ran fact _ => InTime input (s.now - s.startedAt)
    ∨ (classifyAttempt fact matches .settling _) = true
    ∨ (s.fallbackProbe options input matches .selected _) = false
  | _ => True

instance Orderly.decidable (options : TurnAttemptPolicyOptions) (input : RunTurnAttemptPolicyInput)
    (s : PolicyState) : (event : PolicyEvent) → Decidable (Orderly options input s event)
  | .tick now => inferInstanceAs (Decidable (s.point.stage.leads = true →
      InTime input (now - s.startedAt)))
  | .append _ => inferInstanceAs (Decidable ((s.point matches .storing _ _ _ (.attempt _)) = true →
      s.aborted = false))
  | .ran fact _ => inferInstanceAs (Decidable (InTime input (s.now - s.startedAt)
      ∨ (classifyAttempt fact matches .settling _) = true
      ∨ (s.fallbackProbe options input matches .selected _) = false))
  | .abort => .isTrue trivial
  | .expire => .isTrue trivial
  | .command _ => .isTrue trivial
  | .resume => .isTrue trivial
  | .waited => .isTrue trivial

/-- The invariant of an orderly run. -/
structure Prompt (input : RunTurnAttemptPolicyInput) (s : PolicyState) : Prop where
  calls : s.CallsInTime input
  leads : s.point.stage.leads = true → InTime input (s.now - s.startedAt)
  recorded : ∀ result abortedBefore identity,
    s.point = .stored result abortedBefore (.attempt identity) → abortedBefore = false

theorem CallsInTime.prompt (h : s.CallsInTime input) (hclosed : s.point.stage = .closed) :
    s.Prompt input := by
  refine ⟨h, fun hleads => ?_, fun _ _ _ hp => ?_⟩
  · rw [hclosed] at hleads
    cases hleads
  · rw [hp] at hclosed
    cases hclosed

theorem CallsInTime.settle (h : s.CallsInTime input) (classification : SettlingClassification)
    (turn : Option TurnSnapshot) : (s.settle options input classification turn).Prompt input := by
  obtain ⟨coordinator, point, receiptExpired, heq, hstage⟩ :=
    settle_eq options input s classification turn
  rw [heq]
  exact CallsInTime.prompt h hstage

theorem CallsInTime.call (h : s.CallsInTime input) (htime : InTime input (s.now - s.startedAt))
    (identity : AttemptIdentity) : (s.call identity false).Prompt input := by
  refine ⟨fun call hc => ?_, fun hleads => (by cases hleads), nofun⟩
  rcases List.mem_append.1 hc with hc | hc
  · exact h call hc
  · rw [List.mem_singleton.1 hc]
    exact ⟨htime, rfl⟩

theorem CallsInTime.begin_ (h : s.CallsInTime input) (htime : InTime input (s.now - s.startedAt)) :
    (s.begin_ options input).Prompt input := by
  rw [PolicyState.begin_]
  split
  · exact CallsInTime.prompt h rfl
  · dsimp only
    split
    · exact h.call htime _
    · exact ⟨h, fun _ => htime, nofun⟩

theorem CallsInTime.top (h : s.CallsInTime input) (htime : InTime input (s.now - s.startedAt)) :
    (s.top options input).Prompt input := by
  rw [PolicyState.top]
  split
  · exact h.settle _ _
  · split
    · exact h.begin_ htime
    · split
      · exact CallsInTime.prompt h rfl
      · rename_i coordinator _
        exact CallsInTime.begin_ (s := { s with
          coordinator
          generation := s.generation + 1
          recoveries := s.recoveries + 1 }) h htime

theorem CallsInTime.act (h : s.CallsInTime input)
    (htime : (Stage.acting action fallbackProbe).leads = true → InTime input (s.now - s.startedAt))
    (turn : Option TurnSnapshot) :
    (s.act options input action fallbackProbe turn).Prompt input := by
  unfold PolicyState.act
  split
  · exact h.settle _ _
  · exact ⟨h, fun _ => htime rfl, nofun⟩
  · split
    · rename_i receipt
      exact CallsInTime.top (s := { s with
        receipt
        visited := receipt.route :: s.visited
        attemptsOnCurrentRoute := 0 }) h (htime rfl)
    · exact CallsInTime.prompt h rfl
  · exact CallsInTime.prompt h rfl

/-- **An attempt that ends too late** is not followed by another in an orderly run. -/
theorem inTime_of_actionFor {turn : Option TurnSnapshot}
    (horderly : Orderly options input s (.ran fact turn))
    (hleads : (Stage.acting (s.actionFor options input fact)
      (s.fallbackProbe options input)).leads = true) : InTime input (s.now - s.startedAt) := by
  cases haction : s.actionFor options input fact with
  | retrySame =>
    obtain ⟨-, -, -, htime⟩ := actionFor_retrySame haction
    intro budget hbudget
    refine lt_of_le_of_lt ?_ (htime budget hbudget)
    exact_mod_cast le_max_right _ _
  | fallback =>
    obtain ⟨hclass, -⟩ := decideAttemptAction_fallback haction
    obtain ⟨-, receipt, hprobe⟩ := actionFor_fallback haction
    rcases horderly with htime | hsettling | hnone
    · exact htime
    · cases hfact : classifyAttempt fact with
      | settling classification => exact absurd hfact (hclass classification)
      | _ =>
        rw [hfact] at hsettling
        cases hsettling
    · rw [hprobe] at hnone
      cases hnone
  | settle classification | exhausted reason classification =>
    rw [haction] at hleads
    cases hleads

/-- **One step of an orderly run** makes no call too late. -/
theorem Prompt.step (h : s.Prompt input)
    (horderly : Orderly options input s event) (hstep : s.step options input event = some t) :
    t.Prompt input := by
  cases event with
  | abort | expire =>
    simp only [PolicyState.step] at hstep
    split at hstep
    · cases hstep
      exact ⟨h.calls, h.leads, h.recorded⟩
    · cases hstep
  | tick now =>
    simp only [PolicyState.step] at hstep
    split at hstep
    · cases hstep
      exact ⟨h.calls, horderly, h.recorded⟩
    · cases hstep
  | command =>
    simp only [PolicyState.step] at hstep
    split at hstep
    · split at hstep
      · cases hstep
        exact ⟨h.calls, h.leads, h.recorded⟩
      · cases hstep
        exact h
    · cases hstep
  | append =>
    simp only [PolicyState.step] at hstep
    split at hstep
    · rename_i fact _ _ next hp
      cases hstep
      refine ⟨h.calls, fun hleads => h.leads ?_, fun result abortedBefore _ hstored => ?_⟩
      · rw [hp]
        exact hleads
      · cases hstored
        exact horderly (by rw [hp])
    · cases hstep
  | resume =>
    simp only [PolicyState.step] at hstep
    split at hstep
    · rename_i result abortedBefore next hp
      cases hstep
      have hleads := h.leads
      rw [hp] at hleads
      unfold PolicyState.continue_
      split
      · exact CallsInTime.prompt h.calls rfl
      · split
        · exact h.calls.top (hleads rfl)
        · split
          · exact h.calls.settle _ _
          · obtain rfl := h.recorded _ _ _ hp
            exact h.calls.call (hleads rfl) _
        · exact h.calls.act hleads _
        · exact CallsInTime.prompt h.calls rfl
    · cases hstep
  | ran fact =>
    simp only [PolicyState.step] at hstep
    split at hstep
    · cases hstep
      have htime : (Stage.acting (s.actionFor options input fact)
          (s.fallbackProbe options input)).leads = true → InTime input (s.now - s.startedAt) :=
        inTime_of_actionFor horderly
      rw [PolicyState.afterAttempt]
      dsimp only
      split
      · refine CallsInTime.act ?_ ?_ _
        · exact h.calls
        · exact htime
      · exact ⟨h.calls, htime, nofun⟩
    · cases hstep
  | waited =>
    simp only [PolicyState.step] at hstep
    split at hstep
    · rename_i hp
      cases hstep
      have hleads := h.leads
      rw [hp] at hleads
      split
      · exact h.calls.settle _ _
      · exact h.calls.top (hleads rfl)
    · cases hstep

theorem prompt_start (options : TurnAttemptPolicyOptions) (input : RunTurnAttemptPolicyInput)
    (coordinator : TurnCoordinator) (aborted : Bool) (now : ℤ) (stream : List TurnLifecycleFact)
    (hbudget : InTime input 0) :
    (start options input coordinator aborted now stream).Prompt input := by
  rw [start]
  dsimp only
  split
  · split
    · exact CallsInTime.prompt (fun _ hc => by cases hc) rfl
    · refine ⟨fun _ hc => (by cases hc), fun _ => ?_, fun _ _ _ hp => by cases hp⟩
      change InTime input (now - now)
      rw [Int.sub_self]
      exact hbudget
  · exact CallsInTime.prompt (fun call hc => by cases hc) rfl

/-- **Model attempts are bounded, never revisit a route and never follow an effect.**  If the policy
allows a positive whole number of attempts and the budget, if there is one, is positive, then in every
orderly run each route gets at most that number of calls, one after the other; the routes come in the
order of the list; an attempt is followed by another one only if its fact is repeatable; the generation
of the turn is that of the input and one more for each recovery; and no call is made after the budget
was exhausted or after an abort that came before its start was recorded. -/
theorem attempts_are_bounded (options : TurnAttemptPolicyOptions)
    (input : RunTurnAttemptPolicyInput) (coordinator : TurnCoordinator) (aborted : Bool) (now : ℤ)
    (stream : List TurnLifecycleFact) (events : List PolicyEvent) (s : PolicyState) (m : ℕ)
    (hmax : options.retryPolicy.maxAttempts = m) (hm : 0 < m) (hbudget : InTime input 0)
    (h : Reaches options input coordinator aborted now stream events s)
    (horderly : StateMachine.Along (step options input) (Orderly options input)
      (start options input coordinator aborted now stream) events) :
    s.AttemptsBounded options input m ∧ s.CallsInTime input := by
  have hbounds : s.Bounds options input m :=
    StateMachine.run_invariant (fun _ _ _ hs hstep => hs.step hm hmax hstep)
      (bounds_start options input coordinator aborted now stream hm) h
  have hprompt : s.Prompt input :=
    StateMachine.run_along_preserves (fun _ _ _ hs hp hstep => hs.step hp hstep)
      (prompt_start options input coordinator aborted now stream hbudget) horderly h
  exact ⟨hbounds.attemptsBounded, hprompt.calls⟩

/-! ### Two routes -/

/-- A model that can do everything an intent asks for. -/
def ableModel (modelId : String) : ModelCapability :=
  { modelId
    inputModalities := [.text]
    outputModalities := [.text]
    tools := .supported
    structuredOutput := .supported
    streaming := .supported
    reasoning := .supported
    reasoningControls := []
    contextTokens := none
    outputTokens := none
    unavailable := false }

def mainModel : ProviderModelIdentity := ⟨"profile", "provider", "main"⟩

def spareModel : ProviderModelIdentity := ⟨"profile", "provider", "spare"⟩

/-- A policy whose default role has one fallback. -/
def twoRoutes : ModelPolicy :=
  { default_ := ⟨mainModel, .providerDefault, [spareModel]⟩
    fastDefault := none
    fastOptions := fun _ => none
    fastMemoryEvaluated := false
    subagents := none
    workflows := none
    plan := none
    vision := none
    advisor := none
    intents := fun _ => .default_ }

def twoRouteOptions (journal : Bool) : TurnAttemptPolicyOptions :=
  { gate := none
    policy := twoRoutes
    catalogs :=
      [{ providerId := "provider"
         profileId := "profile"
         adapterKind := .deterministic
         requestInputModalities := [.text]
         expiresAt := none
         models := [ableModel "main", ableModel "spare"] }]
    retryPolicy := ⟨3, true⟩
    backoff := ⟨100, 30000, 1 / 4⟩
    jitter := fun _ => 0
    allocateAttemptId := none
    journal
    persistTurnLifecycle := true }

def budgeted (elapsedBudgetMs : Option ℚ) : RunTurnAttemptPolicyInput :=
  { turnId := "turn"
    configurationGeneration := 0
    intent := none
    role := none
    explicit := none
    required := none
    elapsedBudgetMs }

/-- A coordinator with one turn that was just created. -/
def freshTurn : TurnCoordinator :=
  { snapshots := fun turnId => if turnId = "turn" then
      some (createTurnSnapshot "turn" "session" "workspace" "trace" 0) else none
    history := fun _ => [] }

/-- An attempt fails at a given time, and nothing was done. -/
def failsAt (time : ℤ) (retryable : Bool) : List PolicyEvent :=
  [.append .accepts, .resume, .tick time,
    .ran (.failed .transport retryable .none false false "no answer") none]

/-- The run falls back and makes its second attempt. -/
def fallsBackAt (time : ℤ) : List PolicyEvent :=
  [.append .accepts, .resume] ++ failsAt time false
    ++ [.append .accepts, .resume, .append .accepts, .resume]

theorem exists_of_calls (input : RunTurnAttemptPolicyInput) (events : List PolicyEvent)
    {elapsed : List ℤ}
    (h : (StateMachine.run (step (twoRouteOptions false) input)
      (start (twoRouteOptions false) input freshTurn false 0 []) events).map
        (fun s => s.calls.map RunnerCall.elapsedMs) = some elapsed) :
    ∃ s, Reaches (twoRouteOptions false) input freshTurn false 0 [] events s
      ∧ s.calls.map RunnerCall.elapsedMs = elapsed := by
  obtain ⟨s, hs, hcalls⟩ := Option.map_eq_some_iff.1 h
  exact ⟨s, hs, hcalls⟩

/-- The first attempt takes half the budget, and the second one is in time. -/
theorem early_fallback_is_in_time : ∃ s,
    Reaches (twoRouteOptions false) (budgeted (some 100)) freshTurn false 0 [] (fallsBackAt 50) s
      ∧ s.calls.map RunnerCall.elapsedMs = [0, 50]
      ∧ s.AttemptsBounded (twoRouteOptions false) (budgeted (some 100)) 3
      ∧ s.CallsInTime (budgeted (some 100)) := by
  obtain ⟨s, hs, hcalls⟩ := exists_of_calls (budgeted (some 100)) (fallsBackAt 50)
    (show _ = some [0, 50] by decide +kernel)
  exact ⟨s, hs, hcalls, attempts_are_bounded _ _ _ _ _ _ _ s 3 rfl (by decide) (by decide +kernel) hs
    (by decide +kernel)⟩

/-- The first attempt takes more than the budget, and the second one is made all the same. -/
theorem late_fallback_is_made : ∃ s,
    Reaches (twoRouteOptions false) (budgeted (some 100)) freshTurn false 0 [] (fallsBackAt 150) s
      ∧ s.calls.map RunnerCall.elapsedMs = [0, 150] ∧ ¬ s.CallsInTime (budgeted (some 100)) := by
  obtain ⟨s, hs, hcalls⟩ := exists_of_calls (budgeted (some 100)) (fallsBackAt 150)
    (show _ = some [0, 150] by decide +kernel)
  refine ⟨s, hs, hcalls, fun hintime => ?_⟩
  have hmem : (150 : ℤ) ∈ s.calls.map RunnerCall.elapsedMs := by
    rw [hcalls]
    simp
  obtain ⟨call, hc, helapsed⟩ := List.mem_map.1 hmem
  have hlt := (hintime call hc).1 100 rfl
  rw [helapsed] at hlt
  norm_num at hlt

end PolicyState

end Falryn.Runtime
