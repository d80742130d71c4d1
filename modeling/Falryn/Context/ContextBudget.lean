import Falryn.Orchestration.BudgetLedger
import Falryn.Sessions.HistoryRecords

/-!
# Context budgets

`applyContextBudget` of `domain/context/context-budget.ts`: which candidates go into a context.  The gate,
each stage under pressure and the greedy fill go through the charges in order and keep or omit each, so
all of them are a `sieve`.  Sizes are natural numbers; a sum that a number would round is far above every
limit it is compared with.
-/

namespace Falryn.Context

open Orchestration (isSafeInteger)
open Sessions.History (ArtifactSensitivity)

/-! ## Data -/

/-- `EVIDENCE_SOURCE_KINDS`. -/
inductive EvidenceSourceKind where
  | instruction | conversation | file | symbol | diagnostic | search | tool | memory | artifact | plan
  | attachment | process
  deriving DecidableEq

def EvidenceSourceKind.ofText : String → Option EvidenceSourceKind
  | "instruction" => some instruction
  | "conversation" => some conversation
  | "file" => some file
  | "symbol" => some symbol
  | "diagnostic" => some diagnostic
  | "search" => some search
  | "tool" => some tool
  | "memory" => some memory
  | "artifact" => some artifact
  | "plan" => some plan
  | "attachment" => some attachment
  | "process" => some process
  | _ => none

/-- `EVIDENCE_FIDELITIES`. -/
inductive EvidenceFidelity where
  | exactSource | boundedExcerpt | deterministicTransform | extractiveSummary | lossySynthesis
  deriving DecidableEq

/-- What a budget reads of an `EvidenceCandidate`; the bytes are those of its payload. -/
structure EvidenceCandidate where
  id : String
  sourceKind : EvidenceSourceKind
  origin : String
  byteLength : ℕ
  estimatedTokens : ℕ
  sensitivity : ArtifactSensitivity
  fidelity : EvidenceFidelity
  expansion : Option String

inductive ContextBudgetDestination where
  | onDevice | model | support

inductive ContextPressureKind where
  | token | byte | item | latency | sensitivity
  deriving DecidableEq

inductive ContextPressureAction where
  | removeDuplication | narrowExcerpts | deferRetrievable | preferDeterministic

inductive ContextBudgetOmissionReason where
  | secret | destinationIneligible | itemLimit | duplicate | deferredRetrievable | lossyProjection
  | sourceClassLimit | budgetExceeded | latencyLimit
  deriving DecidableEq

inductive InsufficientContextRecovery where
  | narrowerTask | differentModel | artifactExpansion | additionalRetrieval

inductive ContextBudgetErrorCode where
  | malformed | unsupported | oversized | reservationExceedsTotal

structure ContextBudgetError where
  code : ContextBudgetErrorCode
  field : Option String

/-- What a budget limits. -/
inductive Measure where
  | items | tokens | bytes | latency

structure ContextSourceClassLimit where
  maxItems : Option ℕ
  maxTokens : Option ℕ
  maxBytes : Option ℕ

def ContextSourceClassLimit.bound (limit : ContextSourceClassLimit) : Measure → Option ℕ
  | .items => limit.maxItems
  | .tokens => limit.maxTokens
  | .bytes => limit.maxBytes
  | .latency => none

structure ContextBudgetProfile where
  maxTotalTokens : ℕ
  maxTotalBytes : ℕ
  maxItems : ℕ
  maxLatencyMs : ℕ
  maxItemTokens : ℕ
  maxItemBytes : ℕ
  reservedOutputTokens : ℕ
  reservedToolFramingTokens : ℕ
  destination : ContextBudgetDestination
  sourceClass : EvidenceSourceKind → Option ContextSourceClassLimit

/-- What is `null` and what is left out are both `none`. -/
structure ContextSourceClassLimitInput where
  maxItems : Option ℚ
  maxTokens : Option ℚ
  maxBytes : Option ℚ

structure ContextBudgetProfileInput where
  maxTotalTokens : Option ℚ
  maxTotalBytes : Option ℚ
  maxItems : Option ℚ
  maxLatencyMs : Option ℚ
  maxItemTokens : Option ℚ
  maxItemBytes : Option ℚ
  reservedOutputTokens : Option ℚ
  reservedToolFramingTokens : Option ℚ
  destination : Option String
  sourceClass : List (String × ContextSourceClassLimitInput)

structure ContextBudgetCharge where
  candidate : EvidenceCandidate
  latencyMs : Option ℚ
  required : Option Bool

structure ContextBudgetOmission where
  id : String
  reason : ContextBudgetOmissionReason

structure ContextBudgetPlan where
  profile : ContextBudgetProfile
  /-- `remainingItems`, `remainingTokens`, `remainingBytes` and `remainingLatencyMs`. -/
  remaining : Measure → ℤ
  included : List EvidenceCandidate
  omitted : List ContextBudgetOmission
  pressure : List ContextPressureKind
  appliedActions : List ContextPressureAction
  insufficient : Option (List InsufficientContextRecovery)

structure ResolvedCharge where
  candidate : EvidenceCandidate
  latencyMs : ℕ
  required : Bool

/-! ## Parsing -/

def parseBound (value : Option ℚ) (field : String) (fallback maximum minimum : ℕ) :
    Except ContextBudgetError ℕ :=
  match value with
  | none => .ok fallback
  | some n =>
    if isSafeInteger n = false ∨ n < minimum then .error ⟨.malformed, some field⟩
    else if n > maximum then .error ⟨.oversized, some field⟩
    else .ok n.num.toNat

def parseOptionalBound (value : Option ℚ) (field : String) (maximum : ℕ) :
    Except ContextBudgetError (Option ℕ) :=
  match value with
  | none => .ok none
  | some n => some <$> parseBound (some n) field 0 maximum 0

def parseSourceClass (entries : List (String × ContextSourceClassLimitInput)) :
    Except ContextBudgetError (EvidenceSourceKind → Option ContextSourceClassLimit) :=
  entries.foldlM (fun resolved entry =>
    match EvidenceSourceKind.ofText entry.1 with
    | none => .error ⟨.unsupported, some "sourceClass"⟩
    | some kind => do
      let maxItems ← parseOptionalBound entry.2.maxItems "sourceClass.maxItems" 64
      let maxTokens ← parseOptionalBound entry.2.maxTokens "sourceClass.maxTokens" 128000
      let maxBytes ← parseOptionalBound entry.2.maxBytes "sourceClass.maxBytes" 1048576
      return Function.update resolved kind (some ⟨maxItems, maxTokens, maxBytes⟩)) fun _ => none

/-- The destination of a profile, "model" when it names none. -/
def parseDestination : Option String → Except ContextBudgetError ContextBudgetDestination
  | none => .ok .model
  | some "local" => .ok .onDevice
  | some "model" => .ok .model
  | some "support" => .ok .support
  | some _ => .error ⟨.unsupported, some "destination"⟩

def parseContextBudgetProfile (input : ContextBudgetProfileInput) :
    Except ContextBudgetError ContextBudgetProfile := do
  let maxTotalTokens ← parseBound input.maxTotalTokens "maxTotalTokens" 32768 128000 1
  let maxTotalBytes ← parseBound input.maxTotalBytes "maxTotalBytes" (256 * 1024) 1048576 1
  let maxItems ← parseBound input.maxItems "maxItems" 32 64 1
  let maxLatencyMs ← parseBound input.maxLatencyMs "maxLatencyMs" 10000 60000 0
  let maxItemTokens ← parseBound input.maxItemTokens "maxItemTokens" 8192 32768 1
  let maxItemBytes ← parseBound input.maxItemBytes "maxItemBytes" (64 * 1024) (64 * 1024) 1
  let reservedOutputTokens ←
    parseBound input.reservedOutputTokens "reservedOutputTokens" 4096 128000 0
  let reservedToolFramingTokens ←
    parseBound input.reservedToolFramingTokens "reservedToolFramingTokens" 2048 128000 0
  let destination ← parseDestination input.destination
  let sourceClass ← parseSourceClass input.sourceClass
  refuseIf (reservedOutputTokens + reservedToolFramingTokens > maxTotalTokens)
    ⟨.reservationExceedsTotal, some "reservedOutputTokens"⟩
  return {
    maxTotalTokens, maxTotalBytes, maxItems, maxLatencyMs
    maxItemTokens := min maxItemTokens maxTotalTokens
    maxItemBytes := min maxItemBytes maxTotalBytes
    reservedOutputTokens, reservedToolFramingTokens, destination, sourceClass }

/-- A charge with its defaults. -/
def ContextBudgetCharge.resolve (charge : ContextBudgetCharge) : ResolvedCharge :=
  ⟨charge.candidate, (charge.latencyMs.getD 0).num.toNat, charge.required = some true⟩

/-- The first loop of `applyContextBudget`, with the ids seen so far. -/
def resolveCharges : List String → List ContextBudgetCharge →
    Except ContextBudgetError (List ResolvedCharge)
  | _, [] => .ok []
  | seen, charge :: charges => do
    refuseIf (charge.candidate.id ∈ seen) ⟨.malformed, some "charges"⟩
    refuseIf (isSafeInteger (charge.latencyMs.getD 0) = false ∨ charge.latencyMs.getD 0 < 0)
      ⟨.malformed, some "latencyMs"⟩
    let resolved ← resolveCharges (charge.candidate.id :: seen) charges
    return charge.resolve :: resolved

/-! ## The budget -/

def destinationEligible (sensitivity : ArtifactSensitivity) : ContextBudgetDestination → Bool
  | .onDevice => sensitivity ≠ .restricted
  | .model => sensitivity = .unrestricted || sensitivity = .userContent
  | .support => sensitivity = .unrestricted

def isLossyProjection (candidate : EvidenceCandidate) : Bool :=
  candidate.fidelity = .extractiveSummary || candidate.fidelity = .lossySynthesis

/-- The limits of a whole plan; the reserved tokens are not available. -/
def ContextBudgetProfile.limit (profile : ContextBudgetProfile) : Measure → ℤ
  | .items => profile.maxItems
  | .tokens => profile.maxTotalTokens - profile.reservedOutputTokens - profile.reservedToolFramingTokens
  | .bytes => profile.maxTotalBytes
  | .latency => profile.maxLatencyMs

/-- What a charge adds to a plan. -/
def ResolvedCharge.amount (charge : ResolvedCharge) : Measure → ℕ
  | .items => 1
  | .tokens => charge.candidate.estimatedTokens
  | .bytes => charge.candidate.byteLength
  | .latency => charge.latencyMs

/-- What charges add together. -/
def totalOf (charges : List ResolvedCharge) (measure : Measure) : ℕ :=
  (charges.map (·.amount measure)).sum

/-- Each charge in turn is omitted for a reason or kept. -/
def sieve {σ : Type} (judge : σ → ResolvedCharge → Option ContextBudgetOmissionReason × σ) :
    σ → List ResolvedCharge → List ResolvedCharge × List ContextBudgetOmission × σ
  | s, [] => ([], [], s)
  | s, charge :: charges =>
    let rest := sieve judge (judge s charge).2 charges
    match (judge s charge).1 with
    | some reason => (rest.1, ⟨charge.candidate.id, reason⟩ :: rest.2.1, rest.2.2)
    | none => (charge :: rest.1, rest.2)

def exceedsItemCap (charge : ResolvedCharge) (profile : ContextBudgetProfile) : Bool :=
  charge.candidate.estimatedTokens > profile.maxItemTokens
    || charge.candidate.byteLength > profile.maxItemBytes

/-- Why a charge does not pass the gate. -/
def gateReason (profile : ContextBudgetProfile) (charge : ResolvedCharge) :
    Option ContextBudgetOmissionReason :=
  if charge.candidate.sensitivity = .restricted then some .secret
  else if destinationEligible charge.candidate.sensitivity profile.destination = false then
    some .destinationIneligible
  else if exceedsItemCap charge profile then some .itemLimit
  else none

def demandExceeds (charges : List ResolvedCharge) (profile : ContextBudgetProfile) : Bool :=
  [.items, .tokens, .bytes, .latency].any fun measure => totalOf charges measure > profile.limit measure

/-- `dropWhere`: what is required is never dropped. -/
def dropWhere {σ : Type} (charges : List ResolvedCharge) (reason : ContextBudgetOmissionReason)
    (shouldDrop : σ → ResolvedCharge → Bool × σ) (start : σ) :
    List ResolvedCharge × List ContextBudgetOmission :=
  let sifted := sieve (fun s charge =>
    (if (shouldDrop s charge).1 && !charge.required then some reason else none,
      (shouldDrop s charge).2)) start charges
  (sifted.1, sifted.2.1)

def applyPressure (charges : List ResolvedCharge) (profile : ContextBudgetProfile) :
    List ResolvedCharge × List ContextBudgetOmission × List ContextPressureAction :=
  if demandExceeds charges profile = false then (charges, [], [])
  else
    let duplicates := dropWhere charges .duplicate (fun seenOrigins charge =>
      if charge.candidate.origin ∈ seenOrigins then (true, seenOrigins)
      else (false, charge.candidate.origin :: seenOrigins)) []
    if demandExceeds duplicates.1 profile = false then
      (duplicates.1, duplicates.2, [.removeDuplication])
    else
      let deferred := dropWhere duplicates.1 .deferredRetrievable
        (fun _ charge => (charge.candidate.expansion.isSome, ())) ()
      if demandExceeds deferred.1 profile = false then
        (deferred.1, duplicates.2 ++ deferred.2, [.removeDuplication, .deferRetrievable])
      else
        let deterministic := dropWhere deferred.1 .lossyProjection
          (fun _ charge => (isLossyProjection charge.candidate, ())) ()
        (deterministic.1, duplicates.2 ++ deferred.2 ++ deterministic.2,
          [.removeDuplication, .deferRetrievable, .preferDeterministic])

/-- What the included charges use, in all and of each kind. -/
structure Usage where
  total : Measure → ℕ
  byKind : EvidenceSourceKind → Measure → ℕ

/-- `addUsage`, with the totals beside it. -/
def Usage.add (used : Usage) (charge : ResolvedCharge) : Usage where
  total measure := used.total measure + charge.amount measure
  byKind kind measure :=
    used.byKind kind measure + if charge.candidate.sourceKind = kind then charge.amount measure else 0

/-- A number is above a bound that may be missing. -/
def above (n : ℕ) (bound : Option ℕ) : Bool := bound.any fun maximum => n > maximum

def fits (charge : ResolvedCharge) (profile : ContextBudgetProfile) (used : Usage) :
    Option ContextBudgetOmissionReason :=
  let exceeds (measure : Measure) : Prop :=
    (used.total measure + charge.amount measure : ℕ) > profile.limit measure
  if exceeds .items ∨ exceeds .tokens ∨ exceeds .bytes then some .budgetExceeded
  else if exceeds .latency then some .latencyLimit
  else if (profile.sourceClass charge.candidate.sourceKind).any fun limit =>
      [.items, .tokens, .bytes].any fun measure =>
        above (used.byKind charge.candidate.sourceKind measure + charge.amount measure)
          (limit.bound measure) then
    some .sourceClassLimit
  else none

/-- The greedy fill, in order. -/
def fill (profile : ContextBudgetProfile) (charges : List ResolvedCharge) :
    List ResolvedCharge × List ContextBudgetOmission × Usage :=
  sieve (fun used charge =>
      match fits charge profile used with
      | some reason => (some reason, used)
      | none => (none, used.add charge))
    ⟨0, 0⟩ charges

def recoveriesFor (omitted : List ContextBudgetOmission) : List InsufficientContextRecovery :=
  let added (reasons : List ContextBudgetOmissionReason) : Bool :=
    omitted.any fun entry => entry.reason ∈ reasons
  [.narrowerTask]
    ++ (if added [.budgetExceeded, .itemLimit, .sourceClassLimit, .latencyLimit] then [.differentModel]
      else [])
    ++ if added [.deferredRetrievable] then [.artifactExpansion, .additionalRetrieval] else []

/-- `pressureForReason`, and what `uniquePressure` has in its place. -/
def pressureOf (profile : ContextBudgetProfile) (used : Usage) :
    ContextBudgetOmissionReason → List ContextPressureKind
  | .secret | .destinationIneligible => [.sensitivity]
  | .itemLimit => [.token, .byte]
  | .budgetExceeded =>
    (if used.total .tokens ≥ profile.limit .tokens then [.token] else [])
      ++ (if used.total .bytes ≥ profile.limit .bytes then [.byte] else []) ++ [.item]
  | .duplicate | .deferredRetrievable | .lossyProjection | .sourceClassLimit => [.item]
  | .latencyLimit => [.latency]

def uniquePressure (profile : ContextBudgetProfile) (used : Usage)
    (omitted : List ContextBudgetOmission) : List ContextPressureKind :=
  let kinds := omitted.flatMap fun entry => pressureOf profile used entry.reason
  [.token, .byte, .item, .latency, .sensitivity].filter fun kind => kind ∈ kinds

/-- The charges that pass the gate, and those that do not. -/
def gate (profile : ContextBudgetProfile) (resolved : List ResolvedCharge) :
    List ResolvedCharge × List ContextBudgetOmission × Unit :=
  sieve (fun _ charge => (gateReason profile charge, ())) () resolved

/-- What the gated charges come to: those kept under pressure, and those omitted. -/
def workingOf (profile : ContextBudgetProfile) (gated : List ResolvedCharge) :
    List ResolvedCharge × List ContextBudgetOmission × List ContextPressureAction :=
  if demandExceeds gated profile then applyPressure gated profile else (gated, [], [])

/-- `applyContextBudget` from the gate on. -/
def planOf (profile : ContextBudgetProfile) (resolved : List ResolvedCharge) : ContextBudgetPlan :=
  let gated := gate profile resolved
  let working := workingOf profile gated.1
  let filled := fill profile working.1
  let omitted := gated.2.1 ++ working.2.1 ++ filled.2.1
  let requiredMissed := resolved.any fun charge =>
    charge.required && decide (charge.candidate.id ∈ omitted.map ContextBudgetOmission.id)
  let eligibleRequired := resolved.filter fun charge =>
    charge.required && decide (charge.candidate.sensitivity ≠ .restricted)
      && destinationEligible charge.candidate.sensitivity profile.destination
  { profile
    remaining measure := profile.limit measure - filled.2.2.total measure
    included := filled.1.map ResolvedCharge.candidate
    omitted
    pressure := uniquePressure profile filled.2.2 omitted
    appliedActions := working.2.2
    insufficient :=
      if requiredMissed || decide (eligibleRequired.length > 0 ∧ filled.1.length = 0) then
        some (recoveriesFor omitted)
      else none }

def applyContextBudget (charges : List ContextBudgetCharge) (input : ContextBudgetProfileInput) :
    Except ContextBudgetError ContextBudgetPlan := do
  refuseIf (charges.length > 64) ⟨.oversized, some "charges"⟩
  let profile ← parseContextBudgetProfile input
  let resolved ← resolveCharges [] charges
  return planOf profile resolved

/-! ## What a sieve does -/

/-- Every charge is kept, in its place, or omitted. -/
structure Sifts (charges kept : List ResolvedCharge) (omitted : List ContextBudgetOmission) : Prop where
  sublist : kept.Sublist charges
  perm : ((kept.map fun charge => charge.candidate.id) ++ omitted.map ContextBudgetOmission.id).Perm
    (charges.map fun charge => charge.candidate.id)

theorem Sifts.refl (charges : List ResolvedCharge) : Sifts charges charges [] :=
  ⟨.refl _, by rw [List.map_nil, List.append_nil]⟩

theorem Sifts.trans {charges kept kept' : List ResolvedCharge}
    {omitted omitted' : List ContextBudgetOmission} (h : Sifts charges kept omitted)
    (h' : Sifts kept kept' omitted') : Sifts charges kept' (omitted ++ omitted') := by
  refine ⟨h'.sublist.trans h.sublist, ?_⟩
  rw [List.map_append]
  exact (List.perm_append_comm.append_left _).trans
    ((List.append_assoc .. ▸ h'.perm.append_right _).trans h.perm)

theorem sifts_sieve {σ : Type} (judge : σ → ResolvedCharge → Option ContextBudgetOmissionReason × σ)
    (charges : List ResolvedCharge) : ∀ s, Sifts charges (sieve judge s charges).1 (sieve judge s charges).2.1 := by
  induction charges with
  | nil => exact fun _ => .refl []
  | cons charge charges ih =>
    intro s
    obtain ⟨hsub, hperm⟩ := ih (judge s charge).2
    rw [sieve]
    rcases (judge s charge).1 with _ | reason
    · exact ⟨hsub.cons_cons _, hperm.cons _⟩
    · exact ⟨hsub.cons _, List.perm_middle.trans (hperm.cons _)⟩

theorem sifts_workingOf (profile : ContextBudgetProfile) (gated : List ResolvedCharge) :
    Sifts gated (workingOf profile gated).1 (workingOf profile gated).2.1 := by
  have hdrop : ∀ {σ : Type} charges reason (shouldDrop : σ → ResolvedCharge → Bool × σ) start,
      Sifts charges (dropWhere charges reason shouldDrop start).1
        (dropWhere charges reason shouldDrop start).2 := fun _ _ _ _ => sifts_sieve _ _ _
  unfold workingOf applyPressure
  dsimp only
  split_ifs
  · exact .refl _
  · exact hdrop _ _ _ _
  · exact (hdrop _ _ _ _).trans (hdrop _ _ _ _)
  · exact ((hdrop _ _ _ _).trans (hdrop _ _ _ _)).trans (hdrop _ _ _ _)
  · exact .refl _

/-- The gate keeps what it has nothing against. -/
theorem gate_eq (profile : ContextBudgetProfile) (resolved : List ResolvedCharge) :
    (gate profile resolved).1 = resolved.filter fun charge => gateReason profile charge = none := by
  induction resolved with
  | nil => rfl
  | cons charge resolved ih =>
    rw [gate, sieve, List.filter_cons]
    rcases h : gateReason profile charge with _ | reason
    · exact congrArg (charge :: ·) ih
    · exact ih

/-! ## What is used -/

/-- What is used stays within the limits. -/
structure Usage.Within (profile : ContextBudgetProfile) (used : Usage) : Prop where
  total : ∀ measure, used.total measure ≤ profile.limit measure
  byKind : ∀ kind limit, profile.sourceClass kind = some limit → ∀ measure,
    above (used.byKind kind measure) (limit.bound measure) = false

variable {profile : ContextBudgetProfile} {charges : List ContextBudgetCharge}

/-- What fits keeps within the limits. -/
theorem Usage.Within.add {used : Usage} {charge : ResolvedCharge}
    (h : used.Within profile) (hfits : fits charge profile used = none) :
    (used.add charge).Within profile := by
  unfold fits at hfits
  dsimp only at hfits
  split_ifs at hfits with htotal hlatency hclass
  obtain ⟨hitems, htokens, hbytes⟩ := not_or.1 htotal |>.imp_right not_or.1
  refine ⟨fun measure => ?_, fun kind limit hlimit measure => ?_⟩
  · rcases measure <;> apply not_lt.1
    exacts [hitems, htokens, hbytes, hlatency]
  · by_cases hkind : charge.candidate.sourceKind = kind
    · subst hkind
      rw [hlimit, Option.any_some, Bool.not_eq_true, List.any_eq_false] at hclass
      rw [Usage.add]
      dsimp only
      rw [if_pos rfl]
      rcases measure
      case latency => rfl
      all_goals exact Bool.eq_false_iff.2 (hclass _ (by simp))
    · rw [Usage.add]
      dsimp only
      rw [if_neg hkind]
      exact h.byKind kind limit hlimit measure

/-- What charges add to what is used. -/
structure Usage.Adds (used used' : Usage) (charges : List ResolvedCharge) : Prop where
  total : ∀ measure, used'.total measure = used.total measure + totalOf charges measure
  byKind : ∀ kind measure, used'.byKind kind measure = used.byKind kind measure
    + totalOf (charges.filter fun charge => charge.candidate.sourceKind = kind) measure

theorem Usage.Adds.cons {used used' : Usage} {charge : ResolvedCharge} {charges : List ResolvedCharge}
    (h : (used.add charge).Adds used' charges) : used.Adds used' (charge :: charges) := by
  refine ⟨fun measure => ?_, fun kind measure => ?_⟩
  · exact (h.total measure).trans (Nat.add_assoc ..)
  · rw [h.byKind, Usage.add, List.filter_cons]
    dsimp only
    by_cases hkind : charge.candidate.sourceKind = kind
    · rw [if_pos hkind, if_pos (decide_eq_true hkind)]
      exact Nat.add_assoc ..
    · rw [if_neg hkind, if_neg (by simpa using hkind), Nat.add_zero]

/-- **The fill** keeps within the limits and counts what it includes. -/
theorem fill_spec (profile : ContextBudgetProfile) (charges : List ResolvedCharge) : ∀ used : Usage,
    used.Within profile →
    let filled := sieve (fun used charge =>
      match fits charge profile used with
      | some reason => (some reason, used)
      | none => (none, used.add charge)) used charges
    filled.2.2.Within profile ∧ used.Adds filled.2.2 filled.1 := by
  induction charges with
  | nil => exact fun used h => ⟨h, fun _ => rfl, fun _ _ => rfl⟩
  | cons charge charges ih =>
    intro used h
    rw [sieve]
    rcases hfits : fits charge profile used with _ | reason
    · obtain ⟨hwithin, hadds⟩ := ih (used.add charge) (h.add hfits)
      exact ⟨hwithin, hadds.cons⟩
    · exact ih used h

/-! ## What is accepted -/

theorem resolveCharges_ok : ∀ {seen : List String}
    {resolved : List ResolvedCharge}, resolveCharges seen charges = .ok resolved →
    resolved = charges.map ContextBudgetCharge.resolve
      ∧ (charges.map fun charge => charge.candidate.id).Nodup
      ∧ ∀ charge ∈ charges, charge.candidate.id ∉ seen := by
  induction charges with
  | nil =>
    intro seen resolved h
    cases h
    exact ⟨rfl, .nil, fun _ h => (nomatch h)⟩
  | cons charge charges ih =>
    intro seen resolved h
    obtain ⟨_, hseen, h⟩ := except_bind_ok.1 h
    obtain ⟨_, -, h⟩ := except_bind_ok.1 h
    obtain ⟨rest, hrest, h⟩ := except_bind_ok.1 h
    cases h
    obtain ⟨rfl, hnodup, hfresh⟩ := ih hrest
    refine ⟨rfl, List.nodup_cons.2 ⟨fun hmem => ?_, hnodup⟩, List.forall_mem_cons.2
      ⟨refuseIf_ok.1 hseen, fun other hother hmem => hfresh other hother (List.mem_cons_of_mem _ hmem)⟩⟩
    obtain ⟨other, hother, hid⟩ := List.mem_map.1 hmem
    exact hfresh other hother (hid ▸ List.mem_cons_self)

/-- No limit of a profile is below zero. -/
theorem limit_nonneg {input : ContextBudgetProfileInput}
    (h : parseContextBudgetProfile input = .ok profile) (measure : Measure) : 0 ≤ profile.limit measure := by
  simp only [parseContextBudgetProfile, except_bind_ok, refuseIf_ok, except_pure_ok] at h
  obtain ⟨_, -, _, -, _, -, _, -, _, -, _, -, _, -, _, -, _, -, _, -, _, hreserved, rfl⟩ := h
  rcases measure <;> simp only [ContextBudgetProfile.limit] <;> omega

/-! ## The claim of a plan -/

/-- A candidate may go to the destination at all. -/
def ContextBudgetCharge.isEligible (destination : ContextBudgetDestination)
    (charge : ContextBudgetCharge) : Bool :=
  charge.candidate.sensitivity ≠ .restricted
    && destinationEligible charge.candidate.sensitivity destination

/-- A plan over charges, of which some were chosen. -/
structure WithinBudget (charges chosen : List ContextBudgetCharge) (plan : ContextBudgetPlan) : Prop where
  /-- What is included was chosen, in its order. -/
  included : plan.included = chosen.map ContextBudgetCharge.candidate ∧ chosen.Sublist charges
  /-- No two charges have one id, and each id is included or omitted. -/
  once : (charges.map fun charge => charge.candidate.id).Nodup
    ∧ (plan.included.map EvidenceCandidate.id ++ plan.omitted.map ContextBudgetOmission.id).Perm
      (charges.map fun charge => charge.candidate.id)
  /-- What remains of a limit is what is not used of it, and that is not less than nothing. -/
  remaining : ∀ measure, 0 ≤ plan.remaining measure
    ∧ totalOf (chosen.map ContextBudgetCharge.resolve) measure + plan.remaining measure
      = plan.profile.limit measure
  eachItem : ∀ charge ∈ chosen, charge.candidate.estimatedTokens ≤ plan.profile.maxItemTokens
    ∧ charge.candidate.byteLength ≤ plan.profile.maxItemBytes
  sourceClass : ∀ kind limit, plan.profile.sourceClass kind = some limit → ∀ measure,
    above (totalOf ((chosen.map ContextBudgetCharge.resolve).filter fun charge =>
      charge.candidate.sourceKind = kind) measure) (limit.bound measure) = false
  eligible : ∀ charge ∈ chosen, charge.isEligible plan.profile.destination = true
  insufficient : plan.insufficient.isSome = true ↔ ∃ charge ∈ charges, charge.required = some true
    ∧ charge.candidate.id ∈ plan.omitted.map ContextBudgetOmission.id

/-- What the gate has nothing against. -/
theorem gateReason_none {charge : ContextBudgetCharge}
    (h : gateReason profile charge.resolve = none) :
    charge.isEligible profile.destination = true ∧ exceedsItemCap charge.resolve profile = false := by
  unfold gateReason at h
  split_ifs at h with hsecret heligible hcap
  rw [ContextBudgetCharge.isEligible, Bool.and_eq_true]
  exact ⟨⟨decide_eq_true hsecret, Bool.eq_true_of_not_eq_false heligible⟩, Bool.eq_false_iff.2 hcap⟩

theorem withinBudget_planOf (hprofile : ∀ measure, 0 ≤ profile.limit measure)
    (hnodup : (charges.map fun charge => charge.candidate.id).Nodup) :
    ∃ chosen, WithinBudget charges chosen (planOf profile (charges.map ContextBudgetCharge.resolve)) := by
  unfold planOf
  dsimp only
  have hgate := gate_eq profile (charges.map ContextBudgetCharge.resolve)
  have hsifts : Sifts (charges.map ContextBudgetCharge.resolve)
      (gate profile (charges.map ContextBudgetCharge.resolve)).1
      (gate profile (charges.map ContextBudgetCharge.resolve)).2.1 := sifts_sieve _ _ ()
  generalize gate profile (charges.map ContextBudgetCharge.resolve) = gated at *
  have hworking := sifts_workingOf profile gated.1
  generalize workingOf profile gated.1 = working at *
  have hfill : Sifts working.1 (fill profile working.1).1 (fill profile working.1).2.1 :=
    sifts_sieve _ _ _
  obtain ⟨hwithin, hadds⟩ : (fill profile working.1).2.2.Within profile
      ∧ Usage.Adds _ (fill profile working.1).2.2 (fill profile working.1).1 :=
    fill_spec profile working.1 ⟨0, 0⟩ ⟨hprofile, fun _ _ _ _ => by simp [above]⟩
  generalize fill profile working.1 = filled at *
  have hall := (hsifts.trans hworking).trans hfill
  obtain ⟨chosen, hchosen, hfilled⟩ := List.sublist_map_iff.1 hall.sublist
  have heach : ∀ charge ∈ chosen, charge.isEligible profile.destination = true
      ∧ exceedsItemCap charge.resolve profile = false := by
    intro charge hcharge
    have hmem := (hworking.trans hfill).sublist.subset (hfilled ▸ List.mem_map_of_mem hcharge)
    rw [hgate] at hmem
    exact gateReason_none (of_decide_eq_true (List.mem_filter.1 hmem).2)
  have hids : (charges.map ContextBudgetCharge.resolve).map (fun charge => charge.candidate.id)
      = charges.map fun charge => charge.candidate.id := List.map_map
  have hincluded : filled.1.map ResolvedCharge.candidate = chosen.map ContextBudgetCharge.candidate := by
    rw [hfilled, List.map_map]
    rfl
  have hperm := hids ▸ hall.perm
  refine ⟨chosen, ⟨hincluded, hchosen⟩, ⟨hnodup, ?_⟩, fun measure => ?_, fun charge hcharge => ?_,
    fun kind limit hlimit measure => ?_, fun charge hcharge => ?_, ?_⟩
  · rw [List.map_map]
    exact hperm
  · have htotal := (hadds.total measure).trans (Nat.zero_add _)
    have hle := hwithin.total measure
    rw [← hfilled]
    exact ⟨by dsimp only; omega, by dsimp only; omega⟩
  · have hcap := (heach charge hcharge).2
    rw [exceedsItemCap, Bool.or_eq_false_iff, decide_eq_false_iff_not, decide_eq_false_iff_not, not_lt,
      not_lt] at hcap
    exact hcap
  · have hclass := (hadds.byKind kind measure).trans (Nat.zero_add _)
    rw [← hfilled, ← hclass]
    exact hwithin.byKind kind limit hlimit measure
  · exact (heach charge hcharge).1
  · have hmissed : ∀ charge ∈ charges, chosen = [] →
        charge.candidate.id ∈ (gated.2.1 ++ working.2.1 ++ filled.2.1).map ContextBudgetOmission.id := by
      intro charge hcharge hnone
      rw [hfilled, hnone, List.map_nil, List.map_nil, List.nil_append] at hperm
      exact hperm.mem_iff.2 (List.mem_map_of_mem hcharge)
    dsimp only
    rw [Option.isSome_ite, Bool.or_eq_true, List.any_map, List.any_eq_true, decide_eq_true_iff,
      List.filter_map, List.length_map, gt_iff_lt, List.length_pos_iff_exists_mem, hfilled, List.length_map,
      List.length_eq_zero_iff]
    constructor
    · rintro (⟨charge, hcharge, h⟩ | ⟨⟨charge, hcharge⟩, hnone⟩)
      · obtain ⟨hrequired, hid⟩ := Bool.and_eq_true_iff.1 h
        exact ⟨charge, hcharge, of_decide_eq_true hrequired, of_decide_eq_true hid⟩
      · obtain ⟨hmem, h⟩ := List.mem_filter.1 hcharge
        have hrequired := (Bool.and_eq_true_iff.1 (Bool.and_eq_true_iff.1 h).1).1
        exact ⟨charge, hmem, of_decide_eq_true hrequired, hmissed charge hmem hnone⟩
    · rintro ⟨charge, hcharge, hrequired, hid⟩
      exact .inl ⟨charge, hcharge, Bool.and_eq_true_iff.2 ⟨decide_eq_true hrequired, decide_eq_true hid⟩⟩

/-- What is included depends only on the eligible charges. -/
theorem included_planOf (profile : ContextBudgetProfile) (charges : List ContextBudgetCharge) :
    (planOf profile (charges.map ContextBudgetCharge.resolve)).included
      = (planOf profile ((charges.filter (·.isEligible profile.destination)).map
          ContextBudgetCharge.resolve)).included := by
  have hgate : (gate profile (charges.map ContextBudgetCharge.resolve)).1
      = (gate profile ((charges.filter (·.isEligible profile.destination)).map
          ContextBudgetCharge.resolve)).1 := by
    rw [gate_eq, gate_eq, List.filter_map, List.filter_map, List.filter_filter]
    refine congrArg _ (List.filter_congr fun charge _ => ?_)
    by_cases h : gateReason profile charge.resolve = none
    · rw [(gateReason_none h).1, Bool.and_true]
    · rw [Function.comp_apply, decide_eq_false h, Bool.false_and]
  simp only [planOf, hgate]

/-- **A context budget** includes or omits every candidate once, stays within every limit, includes
nothing that is not eligible, does not let the rest depend on it, and tells when something required
was left out. -/
theorem applyContextBudget_withinBudget {charges : List ContextBudgetCharge}
    {input : ContextBudgetProfileInput} {plan : ContextBudgetPlan}
    (h : applyContextBudget charges input = .ok plan) :
    (∃ chosen, WithinBudget charges chosen plan)
    ∧ ∀ charges' plan', applyContextBudget charges' input = .ok plan' →
      charges'.filter (·.isEligible plan.profile.destination)
        = charges.filter (·.isEligible plan.profile.destination) →
      plan'.included = plan.included := by
  have hparts : ∀ {charges plan}, applyContextBudget charges input = .ok plan →
      ∃ profile, parseContextBudgetProfile input = .ok profile
        ∧ plan = planOf profile (charges.map ContextBudgetCharge.resolve)
        ∧ (charges.map fun charge => charge.candidate.id).Nodup := by
    intro charges plan h
    obtain ⟨_, -, h⟩ := except_bind_ok.1 h
    obtain ⟨profile, hprofile, h⟩ := except_bind_ok.1 h
    obtain ⟨resolved, hresolved, h⟩ := except_bind_ok.1 h
    cases h
    obtain ⟨rfl, hnodup, -⟩ := resolveCharges_ok hresolved
    exact ⟨profile, hprofile, rfl, hnodup⟩
  obtain ⟨profile, hprofile, rfl, hnodup⟩ := hparts h
  refine ⟨withinBudget_planOf (limit_nonneg hprofile) hnodup, fun charges' plan' h' heq => ?_⟩
  obtain ⟨profile', hprofile', rfl, -⟩ := hparts h'
  cases hprofile.symm.trans hprofile'
  have hsame : charges'.filter (·.isEligible profile.destination)
      = charges.filter (·.isEligible profile.destination) := heq
  rw [included_planOf, included_planOf profile charges, hsame]

/-- Nothing given: the defaults. -/
def defaultInput : ContextBudgetProfileInput :=
  ⟨none, none, none, none, none, none, none, none, none, []⟩

/-- A required candidate and one that may not be sent, under the default profile. -/
theorem applyContextBudget_withinBudget_two :
    let file : EvidenceCandidate := ⟨"a", .file, "a.txt", 12, 3, .unrestricted, .exactSource, none⟩
    let charges : List ContextBudgetCharge :=
      [⟨file, none, some true⟩, ⟨{ file with id := "b", sensitivity := .restricted }, none, none⟩]
    ∃ plan, applyContextBudget charges defaultInput = .ok plan
      ∧ plan.included = [file] ∧ ∃ chosen, WithinBudget charges chosen plan := by
  refine ⟨_, rfl, rfl, ?_⟩
  exact (applyContextBudget_withinBudget
    (show applyContextBudget _ defaultInput = .ok _ from rfl)).1

end Falryn.Context
