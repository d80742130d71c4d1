import Mathlib

/-!
# Routing

Which model a piece of work goes to (`providers/routing/routing.ts`, with the role policy of
`providers/configuration/policy.ts` and `role-support.ts`): a work intent has a role, a role has an
ordered list of models, and the first model of the list that a catalog knows and that meets the
requirements is selected.  A model that was selected before is never selected again.

A route is known by its identity; the key `providerModelIdentityKey` makes of it is an injective
encoding and is left out, as are the parts of a receipt that routing only copies.
-/

namespace Falryn.Providers

/-! ## Roles and policies -/

inductive ModelRole where
  | default_
  | fast
  | subagents
  | workflows
  | vision
  | plan
  | advisor
  deriving DecidableEq

inductive WorkIntent where
  | coding
  | read
  | toolRouting
  | edit
  | planning
  | deepReview
  | verification
  | visualUnderstanding
  | independentCritique
  | compression
  | memory
  deriving DecidableEq

inductive FastOption where
  | research
  | documents
  | backgroundResults
  | memory
  | visionMedia
  deriving DecidableEq

inductive ReasoningEffort where
  | minimal
  | balanced
  | deep
  | max
  | providerDefault
  deriving DecidableEq

structure ProviderModelIdentity where
  providerProfileId : String
  providerId : String
  modelId : String
  deriving DecidableEq

structure RoleRoute where
  primary : ProviderModelIdentity
  reasoning : ReasoningEffort
  fallbacks : List ProviderModelIdentity

inductive VisionUse where
  | fallback
  | always
  | off
  deriving DecidableEq

inductive AdvisorUse where
  | explicit
  | evaluated
  | off
  deriving DecidableEq

/-- `ModelPolicy`.  A role that has no route of its own inherits that of the default role. -/
structure ModelPolicy where
  default_ : RoleRoute
  fastDefault : Option RoleRoute
  fastOptions : FastOption → Option RoleRoute
  fastMemoryEvaluated : Bool
  subagents : Option RoleRoute
  workflows : Option RoleRoute
  plan : Option RoleRoute
  vision : Option (RoleRoute × VisionUse)
  advisor : Option (RoleRoute × AdvisorUse)
  intents : WorkIntent → ModelRole

def resolveIntentRole (policy : ModelPolicy) : WorkIntent → ModelRole
  | .coding => .default_
  | .read => .default_
  | .toolRouting => .default_
  | .edit => .default_
  | .compression => .default_
  | intent => policy.intents intent

def fastOptionForIntent (intent : Option WorkIntent) : Option FastOption :=
  if intent = some .memory then some .memory else none

def roleRouteFor (policy : ModelPolicy) (role : ModelRole) (option : Option FastOption) :
    Option RoleRoute :=
  match role with
  | .default_ => some policy.default_
  | .fast =>
    some (((option.bind policy.fastOptions).or policy.fastDefault).getD policy.default_)
  | .subagents => some (policy.subagents.getD policy.default_)
  | .workflows => some (policy.workflows.getD policy.default_)
  | .plan => some (policy.plan.getD policy.default_)
  | .vision => policy.vision.map Prod.fst
  | .advisor => policy.advisor.map Prod.fst

/-- `isRoleDisabled`, of the role's own route. -/
def isRoleDisabled (policy : ModelPolicy) : ModelRole → Bool
  | .vision => policy.vision.any fun vision => vision.2 = .off
  | .advisor => policy.advisor.any fun advisor => advisor.2 = .off
  | _ => false

/-! ## Requirements -/

inductive Modality where
  | text
  | image
  | audio
  | video
  | document
  deriving DecidableEq

structure RouteRequirement where
  modalities : Option (List Modality) := none
  outputModalities : Option (List Modality) := none
  tools : Option Bool := none
  structuredOutput : Option Bool := none
  streaming : Option Bool := none
  reasoning : Option Bool := none
  reasoningControls : Option (List String) := none
  minContextTokens : Option ℚ := none
  minOutputTokens : Option ℚ := none

def defaultRequirementsForIntent : WorkIntent → RouteRequirement
  | .coding => { tools := some true, streaming := some true }
  | .read => { streaming := some true }
  | .toolRouting => { tools := some true }
  | .edit => { tools := some true, streaming := some true }
  | .planning => { reasoning := some true }
  | .deepReview => { reasoning := some true }
  | .verification => { tools := some true }
  | .visualUnderstanding => { modalities := some [.image] }
  | _ => {}

def mergeRequirements (base override : RouteRequirement) : RouteRequirement :=
  { modalities := override.modalities.or base.modalities
    outputModalities := override.outputModalities.or base.outputModalities
    tools := override.tools.or base.tools
    structuredOutput := override.structuredOutput.or base.structuredOutput
    streaming := override.streaming.or base.streaming
    reasoning := override.reasoning.or base.reasoning
    reasoningControls := override.reasoningControls.or base.reasoningControls
    minContextTokens := override.minContextTokens.or base.minContextTokens
    minOutputTokens := override.minOutputTokens.or base.minOutputTokens }

inductive ModelFeatureSupport where
  | supported
  | unsupported
  | unknown
  deriving DecidableEq

structure ModelCapability where
  modelId : String
  inputModalities : List Modality
  outputModalities : List Modality
  tools : ModelFeatureSupport
  structuredOutput : ModelFeatureSupport
  streaming : ModelFeatureSupport
  reasoning : ModelFeatureSupport
  reasoningControls : List String
  contextTokens : Option ℚ
  outputTokens : Option ℚ
  unavailable : Bool

/-- A feature that is asked for has to be supported. -/
def featureMet (required : Option Bool) (support : ModelFeatureSupport) : Bool :=
  required ≠ some true || support = .supported

/-- Every value that is asked for has to be offered. -/
def listMet {α : Type} [DecidableEq α] (required : Option (List α)) (offered : List α) : Bool :=
  (required.getD []).all fun value => value ∈ offered

/-- A minimum that is asked for has to be known to be met. -/
def minimumMet (required offered : Option ℚ) : Bool :=
  required.all fun minimum => offered.any fun tokens => minimum ≤ tokens

def modelMatchesRequirements (capability : ModelCapability) (required : RouteRequirement) : Bool :=
  !capability.unavailable
    && featureMet required.tools capability.tools
    && featureMet required.structuredOutput capability.structuredOutput
    && featureMet required.streaming capability.streaming
    && featureMet required.reasoning capability.reasoning
    && listMet required.reasoningControls capability.reasoningControls
    && minimumMet required.minContextTokens capability.contextTokens
    && minimumMet required.minOutputTokens capability.outputTokens
    && listMet required.modalities capability.inputModalities
    && listMet required.outputModalities capability.outputModalities

/-! ## Catalogs -/

inductive ProviderAdapterKind where
  | deterministic
  | openai
  | anthropic
  | google
  | commandcode
  | openaiCodex
  | custom

structure RoutedCatalogEntry where
  providerId : String
  profileId : String
  adapterKind : ProviderAdapterKind
  requestInputModalities : List Modality
  expiresAt : Option ℤ
  models : List ModelCapability

def adapterMatchesRequirements (entry : RoutedCatalogEntry) (required : RouteRequirement) : Bool :=
  listMet required.modalities entry.requestInputModalities

def findCapability (catalogs : List RoutedCatalogEntry) (identity : ProviderModelIdentity)
    (now : Option ℤ) : Option (ModelCapability × RoutedCatalogEntry) :=
  catalogs.findSome? fun entry =>
    if entry.profileId ≠ identity.providerProfileId ∨ entry.providerId ≠ identity.providerId then
      none
    else if now.any fun now => entry.expiresAt.any fun expiresAt => expiresAt ≤ now then none
    else (entry.models.find? fun model => model.modelId = identity.modelId).map fun model =>
      (model, entry)

/-- `REASONING_CONTROL_PREFERENCES`. -/
def reasoningControlPreferences : ProviderAdapterKind → ReasoningEffort → List String
  | .deterministic, .minimal => ["minimal", "low", "none"]
  | .deterministic, .balanced => ["balanced", "medium"]
  | .deterministic, .deep => ["deep", "high", "xhigh"]
  | .deterministic, .max => ["max"]
  | .openai, .minimal => ["minimal", "low", "none"]
  | .openai, .balanced => ["medium"]
  | .openai, .deep => ["high", "xhigh"]
  | .openai, .max => ["max"]
  | .anthropic, .minimal => ["low"]
  | .anthropic, .balanced => ["medium"]
  | .anthropic, .deep => ["high", "xhigh"]
  | .anthropic, .max => ["max"]
  | .google, .minimal => ["minimal", "low"]
  | .google, .balanced => ["medium"]
  | .google, .deep => ["high"]
  | .commandcode, .minimal => ["low"]
  | .commandcode, .balanced => ["medium"]
  | .commandcode, .deep => ["high", "xhigh"]
  | .commandcode, .max => ["max"]
  | .custom, .minimal => ["minimal", "low", "none"]
  | .custom, .balanced => ["balanced", "medium"]
  | .custom, .deep => ["deep", "high", "xhigh"]
  | .custom, .max => ["max"]
  | _, _ => []

def reasoningControlFor (capability : ModelCapability) (reasoning : ReasoningEffort)
    (adapterKind : ProviderAdapterKind) : Option String :=
  (reasoningControlPreferences adapterKind reasoning).find? fun candidate =>
    candidate ∈ capability.reasoningControls

/-! ## Resolving a route -/

structure RoutingReceipt where
  role : ModelRole
  intent : Option WorkIntent
  route : ProviderModelIdentity
  reasoning : ReasoningEffort
  reasoningControl : Option String
  fallbackPosition : ℕ

inductive RoutingOutcome where
  | selected (receipt : RoutingReceipt)
  | noEligibleRoute (role : ModelRole) (intent : Option WorkIntent) (code : String)
  | roleDisabled (role : ModelRole) (intent : Option WorkIntent)
  | roleUnconfigured (role : ModelRole) (intent : Option WorkIntent)

structure ResolveRouteInput where
  policy : ModelPolicy
  catalogs : List RoutedCatalogEntry
  intent : Option WorkIntent
  role : Option ModelRole
  fastOption : Option FastOption
  explicit : Option ProviderModelIdentity
  required : Option RouteRequirement
  now : Option ℤ
  fallbackPosition : Option ℕ
  visited : List ProviderModelIdentity

/-- The role an input asks for. -/
def ResolveRouteInput.mappedRole (input : ResolveRouteInput) : ModelRole :=
  input.role.getD ((input.intent.map (resolveIntentRole input.policy)).getD .default_)

/-- What an input requires by itself. -/
def ResolveRouteInput.ownRequirements (input : ResolveRouteInput) : RouteRequirement :=
  mergeRequirements ((input.intent.map defaultRequirementsForIntent).getD {})
    (input.required.getD {})

def intentRequiresImage (intent : Option WorkIntent) (required : RouteRequirement) : Bool :=
  (required.modalities.any fun modalities => .image ∈ modalities)
    || intent = some .visualUnderstanding

def resolveSpecializedRole (input : ResolveRouteInput)
    (primaryCapability : Option ModelCapability) :
    Except RoutingOutcome (ModelRole × RouteRequirement) :=
  let mappedRole := input.mappedRole
  let required := input.ownRequirements
  let imageNeeded := intentRequiresImage input.intent required
  let primaryLacksImage := primaryCapability.any fun capability =>
    .image ∉ capability.inputModalities
  if input.intent = some .compression then .ok (.default_, required)
  else if mappedRole = .fast then
    match input.fastOption.or (fastOptionForIntent input.intent) with
    | none => .error (.roleUnconfigured .fast input.intent)
    | some option =>
      if option = .memory ∧ input.policy.fastMemoryEvaluated = false then
        .error (.roleDisabled .fast input.intent)
      else .ok (.fast, required)
  else if mappedRole = .vision || imageNeeded then
    match input.policy.vision with
    | none => .error (.roleUnconfigured .vision input.intent)
    | some (_, .off) => .error (.roleDisabled .vision input.intent)
    | some (_, .always) =>
      .ok (.vision, mergeRequirements required
        { modalities := some (required.modalities.getD [.image]) })
    | some (_, .fallback) =>
      if imageNeeded || primaryLacksImage then
        .ok (.vision, if imageNeeded then required
          else mergeRequirements required { modalities := some [.image] })
      -- asked for vision without need: the default role does it
      else if mappedRole = .vision then .ok (.default_, required)
      else .ok (mappedRole, required)
  else .ok (mappedRole, required)

def buildCandidateList (route : RoleRoute) : List ProviderModelIdentity :=
  route.primary :: route.fallbacks

section Resolve

variable (input : ResolveRouteInput)

/-- A model that a catalog knows and that meets the requirements, with its entry. -/
def compatible (required : RouteRequirement) (identity : ProviderModelIdentity) :
    Option (ModelCapability × RoutedCatalogEntry) :=
  (findCapability input.catalogs identity input.now).filter fun found =>
    modelMatchesRequirements found.1 required && adapterMatchesRequirements found.2 required

/-- The loop of `resolveModelRoute`, from a position on. -/
def selectCandidate (role : ModelRole) (required : RouteRequirement) (reasoning : ReasoningEffort) :
    ℕ → List ProviderModelIdentity → List ProviderModelIdentity → RoutingOutcome
  | _, [], _ => .noEligibleRoute role input.intent "no-compatible-model"
  | position, candidate :: candidates, visited =>
    if candidate ∈ visited then .noEligibleRoute role input.intent "fallback-recursion"
    else
      match compatible input required candidate with
      | none => selectCandidate role required reasoning (position + 1) candidates
          (candidate :: visited)
      | some (capability, entry) =>
        let effort := if position = 0 then reasoning else .providerDefault
        let control := reasoningControlFor capability effort entry.adapterKind
        if effort ≠ .providerDefault ∧ control = none then
          selectCandidate role required reasoning (position + 1) candidates (candidate :: visited)
        else
          .selected
            { role
              intent := input.intent
              route := candidate
              reasoning := effort
              reasoningControl := control
              fallbackPosition := position }

/-- `resolveModelRoute` for an explicit selection. -/
def resolveExplicit (explicit : ProviderModelIdentity) : RoutingOutcome :=
  match compatible input input.ownRequirements explicit with
  | none => .noEligibleRoute input.mappedRole input.intent "explicit-incompatible"
  | some _ =>
    if explicit ∈ input.visited then
      .noEligibleRoute input.mappedRole input.intent "fallback-recursion"
    else
      .selected
        { role := input.mappedRole
          intent := input.intent
          route := explicit
          reasoning := .providerDefault
          reasoningControl := none
          fallbackPosition := 0 }

/-- The model vision is compared with. -/
def primaryCapability : Option ModelCapability :=
  let tentativeRole := if input.intent = some .compression then .default_ else input.mappedRole
  (roleRouteFor input.policy (if tentativeRole = .vision then .default_ else tentativeRole)
    none).bind fun route => (findCapability input.catalogs route.primary input.now).map Prod.fst

/-- `resolveModelRoute` for a role. -/
def resolveRole : RoutingOutcome :=
  match resolveSpecializedRole input (primaryCapability input) with
  | .error outcome => outcome
  | .ok (role, required) =>
    match roleRouteFor input.policy role (input.fastOption.or (fastOptionForIntent input.intent)) with
    | none => .roleUnconfigured role input.intent
    | some route =>
      if isRoleDisabled input.policy role then .roleDisabled role input.intent
      else
        let candidates := buildCandidateList route
        let startPosition := input.fallbackPosition.getD 0
        if startPosition ≥ candidates.length then
          .noEligibleRoute role input.intent "fallback-exhausted"
        else
          selectCandidate input role required route.reasoning startPosition
            (candidates.drop startPosition) input.visited

def resolveModelRoute : RoutingOutcome :=
  match input.explicit with
  | some explicit =>
    -- compression is an operation on the captured main policy
    if input.intent = some .compression then resolveRole input else resolveExplicit input explicit
  | none => resolveRole input

def resolveNextFallback (previous : RoutingReceipt) : RoutingOutcome :=
  resolveModelRoute
    { input with
      explicit := none
      fallbackPosition := some (previous.fallbackPosition + 1)
      visited := previous.route :: input.visited }

end Resolve

/-! ## What is selected -/

section Selected

variable {input : ResolveRouteInput}

/-- The number of fallbacks the route of a role has. -/
def fallbackCount (policy : ModelPolicy) (role : ModelRole) (option : Option FastOption) : ℕ :=
  ((roleRouteFor policy role option).map fun route => route.fallbacks.length).getD 0

theorem selectCandidate_selected {role : ModelRole} {required : RouteRequirement}
    {reasoning : ReasoningEffort} {candidates : List ProviderModelIdentity} :
    ∀ {position : ℕ} {visited : List ProviderModelIdentity} {receipt : RoutingReceipt},
    selectCandidate input role required reasoning position candidates visited = .selected receipt →
    position ≤ receipt.fallbackPosition
      ∧ receipt.fallbackPosition < position + candidates.length
      ∧ receipt.route ∉ visited ∧ receipt.role = role := by
  induction candidates with
  | nil =>
    intro position visited receipt h
    cases h
  | cons candidate candidates ih =>
    intro position visited receipt h
    have hlater : selectCandidate input role required reasoning (position + 1) candidates
        (candidate :: visited) = .selected receipt →
        position ≤ receipt.fallbackPosition
          ∧ receipt.fallbackPosition < position + (candidate :: candidates).length
          ∧ receipt.route ∉ visited ∧ receipt.role = role := by
      intro h'
      obtain ⟨hle, hlt, hnot, hrole⟩ := ih h'
      rw [List.length_cons]
      exact ⟨by omega, by omega, fun hmem => hnot (List.mem_cons_of_mem _ hmem), hrole⟩
    rw [selectCandidate] at h
    split at h
    · cases h
    · rename_i hvisited
      split at h
      · exact hlater h
      · dsimp only at h
        generalize (if position = 0 then reasoning else .providerDefault) = effort at h
        split at h
        · exact hlater h
        · cases h
          dsimp only
          rw [List.length_cons]
          exact ⟨le_refl _, by omega, hvisited, rfl⟩

theorem resolveSpecializedRole_error {capability : Option ModelCapability} {outcome : RoutingOutcome}
    (h : resolveSpecializedRole input capability = .error outcome) (receipt : RoutingReceipt) :
    outcome ≠ .selected receipt := by
  rintro rfl
  rw [resolveSpecializedRole] at h
  split at h
  · cases h
  · split at h
    · split at h
      · cases h
      · split at h <;> cases h
    · split at h
      · split at h
        · cases h
        · cases h
        · cases h
        · split at h
          · cases h
          · split at h <;> cases h
      · cases h

variable {receipt : RoutingReceipt}

/-- **A route selected for a role** is one of the role's list, at the start position or later, and
was not visited before. -/
theorem resolveRole_selected (h : resolveRole input = .selected receipt) :
    input.fallbackPosition.getD 0 ≤ receipt.fallbackPosition
      ∧ receipt.fallbackPosition ≤ fallbackCount input.policy receipt.role
        (input.fastOption.or (fastOptionForIntent input.intent))
      ∧ receipt.route ∉ input.visited := by
  rw [resolveRole] at h
  split at h
  · rename_i herror
    exact absurd h (resolveSpecializedRole_error herror receipt)
  · split at h
    · cases h
    · rename_i route hroute
      split at h
      · cases h
      · dsimp only at h
        split at h
        · cases h
        · rename_i hstart
          obtain ⟨hle, hlt, hnot, hrole⟩ := selectCandidate_selected h
          rw [List.length_drop] at hlt
          rw [buildCandidateList, List.length_cons] at hlt hstart
          refine ⟨hle, ?_, hnot⟩
          rw [hrole, fallbackCount, hroute, Option.map_some, Option.getD_some]
          omega

/-- **A selected fallback** comes later in the list of its role than the route before, and neither
that route nor one visited before is selected again. -/
theorem resolveNextFallback_selected {previous : RoutingReceipt}
    (h : resolveNextFallback input previous = .selected receipt) :
    previous.fallbackPosition < receipt.fallbackPosition
      ∧ receipt.fallbackPosition ≤ fallbackCount input.policy receipt.role
        (input.fastOption.or (fastOptionForIntent input.intent))
      ∧ receipt.route ≠ previous.route ∧ receipt.route ∉ input.visited := by
  obtain ⟨hle, hcount, hnot⟩ := resolveRole_selected (show resolveRole _ = _ from h)
  rw [List.mem_cons, not_or] at hnot
  exact ⟨hle, hcount, hnot.1, hnot.2⟩

/-- The route a run begins with is within the list of its role. -/
theorem resolveModelRoute_selected (h : resolveModelRoute input = .selected receipt) :
    receipt.fallbackPosition ≤ fallbackCount input.policy receipt.role
      (input.fastOption.or (fastOptionForIntent input.intent)) := by
  rw [resolveModelRoute] at h
  split at h
  · split at h
    · exact (resolveRole_selected h).2.1
    · rw [resolveExplicit] at h
      split at h
      · cases h
      · split at h
        · cases h
        · cases h
          exact Nat.zero_le _
  · exact (resolveRole_selected h).2.1

end Selected

end Falryn.Providers
