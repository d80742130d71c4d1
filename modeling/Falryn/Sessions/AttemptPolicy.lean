import Falryn.Orchestration.Outcome

/-!
# Attempts

What one attempt on a model was (`domain/sessions/attempt-policy.ts`), and whether another one
follows (`domain/sessions/retry.ts`).  Classifying says what a fact allows; deciding weighs that
against the budgets and the routes that are left.
-/

namespace Falryn.Sessions

open Orchestration

/-! ## Facts -/

inductive AttemptFailureCategory where
  | transport
  | rateLimit
  | authentication
  | authorization
  | invalidRequest
  | unsupported
  | malformed
  | server
  | adapter
  | safety
  | other
  deriving DecidableEq

inductive RefusalSource where
  | model
  | policy
  | providerSafety
  deriving DecidableEq

inductive AttemptFact where
  | completed (finishReason : String) (observedContent emittedToolProposal : Bool)
  | failed (category : AttemptFailureCategory) (retryable : Bool) (effect : EffectCertainty)
      (observedContent emittedToolProposal : Bool) (message : String)
  | partial_ (reason : String) (effect : EffectCertainty)
      (observedContent emittedToolProposal : Bool)
  | cancelled (effect : EffectCertainty)
  | timedOut (effect : EffectCertainty) (retryable : Bool)
  | refusal (source : RefusalSource) (reason : String) (effect : EffectCertainty)
  | routingRefused (code detail : String)

/-- `REFUSAL_FINISH_REASONS`. -/
def refusalFinishReasons : List String := ["refusal", "content_filter", "safety"]

/-! ## Classification -/

/-- The classifications that end a run. -/
inductive SettlingClassification where
  | completed
  | refusal (source : RefusalSource) (reason : String) (effect : EffectCertainty)
  | partial_ (reason : String) (effect : EffectCertainty)
  | cancelled (effect : EffectCertainty)
  | timedOut (effect : EffectCertainty)
  | uncertain
  | failed (effect : EffectCertainty) (message : String)
  deriving DecidableEq

def SettlingClassification.isRefusal : SettlingClassification → Bool
  | refusal _ _ _ => true
  | _ => false

inductive AttemptClassification where
  | settling (classification : SettlingClassification)
  | mayRetrySame (effect : EffectCertainty) (message : String)
  | mayFallback (effect : EffectCertainty) (message : String)

def classifyAttempt : AttemptFact → AttemptClassification
  | .completed finishReason observedContent emittedToolProposal =>
    if finishReason ∈ refusalFinishReasons then
      .settling (.refusal .model finishReason (if observedContent then .partial_ else .none))
    else if finishReason = "length" then
      .settling (.partial_ "finish-reason-length"
        (if observedContent || emittedToolProposal then .partial_ else .none))
    else .settling .completed
  | .refusal source reason effect => .settling (.refusal source reason effect)
  | .routingRefused code _ => .settling (.refusal .policy code .none)
  | .partial_ reason effect _ _ => .settling (.partial_ reason effect)
  | .cancelled effect => .settling (.cancelled effect)
  | .timedOut effect retryable =>
    if effect = .uncertain then .settling .uncertain
    else if retryable ∧ effect = .none then
      .mayRetrySame effect "attempt timed out before observed output"
    else .settling (.timedOut effect)
  | .failed category retryable effect _ emittedToolProposal message =>
    if category = .safety then .settling (.refusal .providerSafety message effect)
    else if effect = .uncertain then .settling .uncertain
    -- a tool proposal may have influenced the model loop
    else if emittedToolProposal then
      .settling (.failed (if effect = .none then .partial_ else effect) message)
    else if effect = .partial_ then .settling (.partial_ message .partial_)
    else if retryable ∧ effect = .none then .mayRetrySame .none message
    else if effect = .none then .mayFallback .none message
    else .settling (.failed effect message)

/-- What a fact has to be for another attempt to follow: nothing was done, nothing was proposed, and
the provider neither refused nor answered. -/
def AttemptFact.Repeatable : AttemptFact → Prop
  | .failed category _ effect _ emittedToolProposal _ =>
    category ≠ .safety ∧ effect = .none ∧ emittedToolProposal = false
  | .timedOut effect _ => effect = .none
  | _ => False

/-- **Only a repeatable fact** may be retried or fall back. -/
theorem classifyAttempt_repeatable {fact : AttemptFact}
    (h : ∀ classification, classifyAttempt fact ≠ .settling classification) : fact.Repeatable := by
  cases fact with
  | completed _ observedContent emittedToolProposal =>
    simp only [classifyAttempt] at h
    split at h
    · exact absurd rfl (h _)
    · split at h <;> exact absurd rfl (h _)
  | failed _ retryable effect observedContent emittedToolProposal =>
    simp only [classifyAttempt] at h
    split at h
    · exact absurd rfl (h _)
    · rename_i hcategory
      split at h
      · exact absurd rfl (h _)
      · split at h
        · exact absurd rfl (h _)
        · rename_i hproposal
          have hnone : effect = .none := by
            by_contra hne
            split at h
            · exact absurd rfl (h _)
            · rw [if_neg fun hboth => hne hboth.2] at h
              exact absurd rfl (h _)
          exact ⟨hcategory, hnone, Bool.not_eq_true _ ▸ hproposal⟩
  | timedOut effect retryable =>
    simp only [classifyAttempt] at h
    split at h
    · exact absurd rfl (h _)
    · split at h
      · rename_i hboth
        exact hboth.2
      · exact absurd rfl (h _)
  | partial_ reason effect observedContent emittedToolProposal | cancelled effect
  | refusal _ reason effect | routingRefused code detail => exact absurd rfl (h _)

/-! ## Retrying -/

structure RetryPolicy where
  maxAttempts : ℚ
  retryable : Bool

structure RetryBackoff where
  baseDelayMs : ℚ
  maxDelayMs : ℚ
  jitterRatio : ℚ

inductive RetryRefusal where
  | notRetryable
  | effectNotObserved
  | notIdempotent
  | attemptsExhausted
  | elapsedBudgetExhausted
  | cancelled

inductive RetryDecision where
  | retry (attempt : ℕ) (delayMs : ℤ)
  | doNotRetry (reason : RetryRefusal)

/-- `RetryRequest`; of the error, its `retryable` and its `effect`. -/
structure RetryRequest where
  errorRetryable : Bool
  errorEffect : EffectCertainty
  policy : RetryPolicy
  attemptsMade : ℕ
  elapsedMs : ℤ
  elapsedBudgetMs : Option ℚ
  idempotent : Bool
  cancelled : Bool
  backoff : RetryBackoff
  jitter : ℚ

def backoffDelayMs (attempt : ℕ) (backoff : RetryBackoff) (jitter : ℚ) : ℤ :=
  let exponential := backoff.baseDelayMs * 2 ^ (attempt - 1)
  let capped := min exponential backoff.maxDelayMs
  let spread := ⌊capped * backoff.jitterRatio * min (max jitter 0) 1⌋
  max 0 (⌊capped⌋ + spread)

def evaluateRetry (request : RetryRequest) : RetryDecision :=
  if request.cancelled then .doNotRetry .cancelled
  else if request.errorRetryable = false ∨ request.policy.retryable = false then
    .doNotRetry .notRetryable
  else if request.errorEffect = .uncertain ∨ request.errorEffect = .partial_ then
    .doNotRetry .effectNotObserved
  else if request.idempotent = false ∧ request.errorEffect ≠ .none then .doNotRetry .notIdempotent
  else if request.attemptsMade ≥ request.policy.maxAttempts then .doNotRetry .attemptsExhausted
  else if request.elapsedBudgetMs.any fun budget => (request.elapsedMs : ℚ) ≥ budget then
    .doNotRetry .elapsedBudgetExhausted
  else
    .retry (request.attemptsMade + 1)
      (backoffDelayMs request.attemptsMade request.backoff request.jitter)

variable {attempt : ℕ} {delayMs : ℤ}

/-- **A retry** is within the attempts and within the time. -/
theorem evaluateRetry_retry {request : RetryRequest}
    (h : evaluateRetry request = .retry attempt delayMs) :
    (request.attemptsMade : ℚ) < request.policy.maxAttempts
      ∧ ∀ budget, request.elapsedBudgetMs = some budget → (request.elapsedMs : ℚ) < budget := by
  unfold evaluateRetry at h
  split at h
  · cases h
  · split at h
    · cases h
    · split at h
      · cases h
      · split at h
        · cases h
        · split at h
          · cases h
          · rename_i hattempts
            split at h
            · cases h
            · rename_i helapsed
              refine ⟨not_le.1 hattempts, fun budget hbudget => ?_⟩
              rw [hbudget] at helapsed
              simpa using helapsed

/-! ## Deciding -/

/-- `AttemptAction`.  The reason of an exhaustion is one of retrying, or that no route is left. -/
inductive AttemptAction where
  | retrySame (attempt : ℕ) (delayMs : ℤ)
  | fallback
  | settle (classification : SettlingClassification)
  | exhausted (reason : Option RetryRefusal) (classification : AttemptClassification)

def decideAttemptAction (classification : AttemptClassification)
    (retryDecision : Option RetryDecision) (fallbackAvailable : Bool) : AttemptAction :=
  match classification with
  | .settling settling => .settle settling
  | .mayRetrySame _ _ =>
    match retryDecision with
    | some (.retry attempt delayMs) => .retrySame attempt delayMs
    | some (.doNotRetry reason) =>
      if fallbackAvailable then .fallback else .exhausted (some reason) classification
    | none =>
      if fallbackAvailable then .fallback
      else .exhausted (some .attemptsExhausted) classification
  | .mayFallback _ _ =>
    if fallbackAvailable then .fallback else .exhausted none classification

variable {classification : AttemptClassification} {retryDecision : Option RetryDecision}
  {fallbackAvailable : Bool}

theorem decideAttemptAction_retrySame
    (h : decideAttemptAction classification retryDecision fallbackAvailable
      = .retrySame attempt delayMs) :
    (∃ effect message, classification = .mayRetrySame effect message)
      ∧ retryDecision = some (.retry attempt delayMs) := by
  unfold decideAttemptAction at h
  split at h
  · cases h
  · split at h
    · cases h
      exact ⟨⟨_, _, rfl⟩, rfl⟩
    · split at h <;> cases h
    · split at h <;> cases h
  · split at h <;> cases h

theorem decideAttemptAction_fallback
    (h : decideAttemptAction classification retryDecision fallbackAvailable = .fallback) :
    (∀ settling, classification ≠ .settling settling) ∧ fallbackAvailable = true := by
  cases fallbackAvailable with
  | false =>
    unfold decideAttemptAction at h
    split at h
    · cases h
    · split at h <;> cases h
    · cases h
  | true =>
    refine ⟨?_, rfl⟩
    rintro settling rfl
    cases h

/-- `terminalOutcomeForClassification`, with a completion's own outcome. -/
def terminalOutcomeForClassification : SettlingClassification → TerminalOutcome
  | .completed => .completed
  | .refusal _ _ effect => .failed effect
  | .partial_ _ effect => .failed effect
  | .failed effect _ => .failed effect
  | .cancelled effect => .cancelled effect
  | .timedOut effect => .timedOut effect
  | .uncertain => .uncertain

end Falryn.Sessions
