import Falryn.Foundation.Identity
import Falryn.Foundation.Result
import Falryn.Orchestration.Work

/-!
# Tool calls

Proposals, what becomes of them, and how they are bound to a catalog
(`domain/tools/tool-pipeline.ts`).  An outcome is what the runner reports of one call; what it
printed and the facts that ride along with it are read by nobody here and are left out, except for
the effects of the hooks that ran beside it.
-/

namespace Falryn.Tools

open Orchestration

/-! ## Outcomes -/

/-- How a call ended. -/
inductive ToolStatus where
  | completed
  | failed (reason : String) (effect : EffectCertainty)
  | cancelled (effect : EffectCertainty)
  | timedOut (effect : EffectCertainty)
  | uncertain (recoveryHint : String)
  | denied (reason : String)
  | unavailable (reason : String)
  | malformed (reason : String)
  | partial_ (effect : EffectCertainty)

/-- `outcome.effect`.  Only some statuses leave it open. -/
def ToolStatus.effect : ToolStatus → EffectCertainty
  | completed => .completed
  | failed _ effect => effect
  | cancelled effect => effect
  | timedOut effect => effect
  | uncertain _ => .uncertain
  | denied _ => .none
  | unavailable _ => .none
  | malformed _ => .none
  | partial_ effect => effect

structure ToolInvocationOutcome where
  status : ToolStatus
  /-- The effects of separately admitted hook actions. -/
  hookEffects : List EffectCertainty

structure ToolInvocationRecord where
  invocationId : String
  toolCallId : String
  toolName : String
  capabilityId : Option String
  effectClass : Option EffectClass
  outcome : ToolInvocationOutcome

/-! ## Effects -/

def worseEffect (left right : EffectCertainty) : EffectCertainty :=
  if right.severity > left.severity then right else left

def foldToolEffects (effects : List EffectCertainty) : EffectCertainty :=
  effects.foldl worseEffect .none

def effectOfToolOutcome (outcome : ToolInvocationOutcome) : EffectCertainty :=
  foldToolEffects (outcome.status.effect :: outcome.hookEffects)

theorem worseEffect_eq_max (left right : EffectCertainty) : worseEffect left right = max left right := by
  cases left <;> cases right <;> decide

theorem le_foldl_worseEffect (effects : List EffectCertainty) : ∀ start : EffectCertainty,
    start ≤ effects.foldl worseEffect start ∧ ∀ e ∈ effects, e ≤ effects.foldl worseEffect start := by
  induction effects with
  | nil => exact fun start => ⟨le_refl _, nofun⟩
  | cons first effects ih =>
    intro start
    obtain ⟨hstart, hall⟩ := ih (worseEffect start first)
    rw [worseEffect_eq_max] at hstart hall
    rw [List.foldl_cons, worseEffect_eq_max]
    refine ⟨(le_max_left _ _).trans hstart, ?_⟩
    rw [List.forall_mem_cons]
    exact ⟨(le_max_right _ _).trans hstart, hall⟩

/-- **A fold covers what it folds.** -/
theorem le_foldToolEffects {effects : List EffectCertainty} {e : EffectCertainty}
    (he : e ∈ effects) : e ≤ foldToolEffects effects :=
  (le_foldl_worseEffect effects .none).2 e he

/-! ## Proposals and descriptors -/

structure ToolProposal where
  toolCallId : String
  name : String
  arguments : JsValue

/-- `ToolDescriptor`.  An effect that is `none` is a value that is no effect class; the schema either
lists the codes of its issues or gives the parsed input. -/
structure ToolDescriptor where
  id : String
  version : ℚ
  name : String
  effect : Option EffectClass
  inputSchema : JsValue → Except (List String) JsValue
  conflictKeysFor : Option (JsValue → List String)
  effectFor : Option (JsValue → Option EffectClass)

/-- `catalog.resolve`. -/
abbrev ToolCatalog := String → Option ToolDescriptor

structure BoundToolInvocation where
  invocationId : String
  proposal : ToolProposal
  descriptor : ToolDescriptor
  input : JsValue
  conflictKeys : List String

inductive DescriptorFault where
  | emptyName
  | invalidVersion
  | invalidEffect
  deriving DecidableEq

inductive ProfileOperationRefusal where
  | argumentsNotObject
  | operationMissing
  | operationUnknown
  | operationNotDisclosed
  | operationArgumentsInvalid
  deriving DecidableEq

inductive ToolBindError where
  | unknownTool (toolCallId name : String)
  | malformedInput (toolCallId name : String) (issues : List String)
  | duplicateToolCallId (toolCallId : String)
  | invalidToolCallId (toolCallId : String)
  | queueBoundExceeded (maximum attempted : ℕ)
  | invalidDescriptor (name : String) (reason : DescriptorFault)
  | profileOperationInvalid (toolCallId name : String) (reason : ProfileOperationRefusal)
  deriving DecidableEq

def ToolBindError.code : ToolBindError → String
  | unknownTool _ _ => "unknown-tool"
  | malformedInput _ _ _ => "malformed-input"
  | duplicateToolCallId _ => "duplicate-tool-call-id"
  | invalidToolCallId _ => "invalid-tool-call-id"
  | queueBoundExceeded _ _ => "queue-bound-exceeded"
  | invalidDescriptor _ _ => "invalid-descriptor"
  | profileOperationInvalid _ _ _ => "profile-operation-invalid"

/-! ## Binding -/

/-- How binding a batch can fail: with an error, or by throwing. -/
inductive BindFailure where
  | refused (error : ToolBindError)
  | threw

def validateDescriptor (descriptor : ToolDescriptor) : Except ToolBindError Unit := do
  refuseIf (descriptor.name = "") (.invalidDescriptor descriptor.name .emptyName)
  refuseIf (descriptor.version.den ≠ 1 ∨ descriptor.version < 1)
    (.invalidDescriptor descriptor.name .invalidVersion)
  refuseIf (descriptor.effect = none) (.invalidDescriptor descriptor.name .invalidEffect)

/-- The part of `bindToolProposals` that looks one proposal up and parses its arguments. -/
def resolveProposal (catalog : ToolCatalog) (seen : List String) (proposal : ToolProposal) :
    Except ToolBindError (ToolDescriptor × JsValue) := do
  refuseIf (isPrintableAscii proposal.toolCallId = false) (.invalidToolCallId proposal.toolCallId)
  refuseIf (proposal.toolCallId ∈ seen) (.duplicateToolCallId proposal.toolCallId)
  refuseIf (proposal.name = "") (.unknownTool proposal.toolCallId proposal.name)
  match catalog proposal.name with
  | none => .error (.unknownTool proposal.toolCallId proposal.name)
  | some descriptor =>
    validateDescriptor descriptor
    match descriptor.inputSchema proposal.arguments with
    | .error issues => .error (.malformedInput proposal.toolCallId proposal.name issues)
    | .ok input =>
      match (descriptor.effectFor.map fun effectFor => effectFor input).getD descriptor.effect with
      | none => .error (.invalidDescriptor descriptor.name .invalidEffect)
      | some effect => .ok ({ descriptor with effect := some effect }, input)

/-- One round of the loop of `bindToolProposals`. -/
def bindProposal (catalog : ToolCatalog) (nextInvocationId : ToolProposal → Option String)
    (seen : List String) (proposal : ToolProposal) : Except BindFailure BoundToolInvocation :=
  match resolveProposal catalog seen proposal with
  | .error error => .error (.refused error)
  | .ok (descriptor, input) =>
    match nextInvocationId proposal with
    | none => .error .threw
    | some invocationId =>
      .ok { invocationId, proposal, descriptor, input
            conflictKeys := (descriptor.conflictKeysFor.map fun keys => keys input).getD [] }

/-- The loop of `bindToolProposals`. -/
def bindProposals (catalog : ToolCatalog) (nextInvocationId : ToolProposal → Option String) :
    List String → List ToolProposal → Except BindFailure (List BoundToolInvocation)
  | _, [] => .ok []
  | seen, proposal :: proposals => do
    let bound ← bindProposal catalog nextInvocationId seen proposal
    let rest ← bindProposals catalog nextInvocationId (proposal.toolCallId :: seen) proposals
    pure (bound :: rest)

def bindToolProposals (catalog : ToolCatalog) (proposals : List ToolProposal) (maxQueued : ℕ)
    (nextInvocationId : ToolProposal → Option String) :
    Except BindFailure (List BoundToolInvocation) :=
  if proposals.length > maxQueued then
    .error (.refused (.queueBoundExceeded maxQueued proposals.length))
  else bindProposals catalog nextInvocationId [] proposals

/-! ## What a bound batch is -/

variable {catalog : ToolCatalog} {seen : List String} {proposal : ToolProposal}

theorem resolveProposal_ok
    {result : ToolDescriptor × JsValue} (h : resolveProposal catalog seen proposal = .ok result) :
    proposal.toolCallId ∉ seen := by
  simp only [resolveProposal, except_bind_ok, refuseIf_ok, exists_const] at h
  exact h.2.1

variable {nextInvocationId : ToolProposal → Option String}

theorem bindProposal_ok {bound : BoundToolInvocation}
    (h : bindProposal catalog nextInvocationId seen proposal = .ok bound) :
    proposal.toolCallId ∉ seen ∧ bound.proposal = proposal := by
  rw [bindProposal] at h
  split at h
  · cases h
  · rename_i hres
    split at h
    · cases h
    · cases h
      exact ⟨resolveProposal_ok hres, rfl⟩

variable {proposals : List ToolProposal}

theorem bindProposals_ok : ∀ {seen : List String} {bound : List BoundToolInvocation},
    bindProposals catalog nextInvocationId seen proposals = .ok bound →
    bound.map BoundToolInvocation.proposal = proposals
      ∧ (proposals.map ToolProposal.toolCallId).Nodup
      ∧ ∀ p ∈ proposals, p.toolCallId ∉ seen := by
  induction proposals with
  | nil =>
    intro seen bound h
    cases h
    exact ⟨rfl, List.nodup_nil, nofun⟩
  | cons proposal proposals ih =>
    intro seen bound h
    rw [bindProposals, except_bind_ok] at h
    obtain ⟨first, hfirst, h⟩ := h
    obtain ⟨rest, hrest, h⟩ := except_bind_ok.1 h
    cases h
    obtain ⟨hnot, hprop⟩ := bindProposal_ok hfirst
    obtain ⟨hmap, hnodup, hseen⟩ := ih hrest
    refine ⟨by rw [List.map_cons, hmap, hprop], ?_, ?_⟩
    · rw [List.map_cons, List.nodup_cons]
      refine ⟨fun hmem => ?_, hnodup⟩
      obtain ⟨p, hp, heq⟩ := List.mem_map.1 hmem
      exact hseen p hp (heq ▸ List.mem_cons_self)
    · rw [List.forall_mem_cons]
      exact ⟨hnot, fun p hp hs => hseen p hp (List.mem_cons_of_mem _ hs)⟩

/-- Binding throws at the first proposal that resolves and has no invocation id, if all before it
bind. -/
theorem bindProposals_threw_iff :
    ∀ {seen : List String}, bindProposals catalog nextInvocationId seen proposals = .error .threw ↔
    ∃ before proposal after bound resolved, proposals = before ++ proposal :: after
      ∧ bindProposals catalog nextInvocationId seen before = .ok bound
      ∧ resolveProposal catalog ((before.map ToolProposal.toolCallId).reverse ++ seen) proposal
        = .ok resolved
      ∧ nextInvocationId proposal = none := by
  induction proposals with
  | nil =>
    intro seen
    constructor
    · intro h
      cases h
    · rintro ⟨before, proposal, after, bound, resolved, hnil, -⟩
      simp at hnil
  | cons first rest ih =>
    intro seen
    constructor
    · intro h
      rw [bindProposals] at h
      cases hfirst : bindProposal catalog nextInvocationId seen first with
      | error failure =>
        rw [hfirst] at h
        obtain rfl : failure = .threw := Except.error.inj h
        rw [bindProposal] at hfirst
        split at hfirst
        · cases hfirst
        · rename_i hres
          split at hfirst
          · rename_i hid
            exact ⟨[], first, rest, [], _, rfl, rfl, hres, hid⟩
          · cases hfirst
      | ok head =>
        rw [hfirst] at h
        cases hrest : bindProposals catalog nextInvocationId (first.toolCallId :: seen) rest with
        | ok tail =>
          rw [hrest] at h
          cases h
        | error failure =>
          rw [hrest] at h
          obtain rfl : failure = .threw := Except.error.inj h
          obtain ⟨before, proposal, after, bound, resolved, rfl, hbound, hres, hid⟩ := ih.1 hrest
          refine ⟨first :: before, proposal, after, head :: bound, resolved, rfl, ?_, ?_, hid⟩
          · rw [bindProposals, except_bind_ok]
            exact ⟨head, hfirst, except_bind_ok.2 ⟨bound, hbound, rfl⟩⟩
          · rw [List.map_cons, List.reverse_cons, List.append_assoc]
            exact hres
    · rintro ⟨before, proposal, after, bound, resolved, hsplit, hbound, hres, hid⟩
      rw [bindProposals]
      cases before with
      | nil =>
        obtain ⟨rfl, rfl⟩ := List.cons.inj hsplit
        have hres' : resolveProposal catalog seen first = .ok resolved := hres
        have hfirst : bindProposal catalog nextInvocationId seen first = .error .threw := by
          rw [bindProposal, hres']
          dsimp only
          rw [hid]
        rw [hfirst]
        rfl
      | cons _ before =>
        obtain ⟨rfl, rfl⟩ := List.cons.inj hsplit
        rw [bindProposals, except_bind_ok] at hbound
        obtain ⟨head, hhead, hbound⟩ := hbound
        obtain ⟨tail, htail, -⟩ := except_bind_ok.1 hbound
        rw [List.map_cons, List.reverse_cons, List.append_assoc] at hres
        have hrest := ih.2 ⟨before, proposal, after, tail, resolved, rfl, htail, hres, hid⟩
        rw [hhead]
        change (bindProposals _ _ _ _ >>= _) = _
        rw [hrest]
        rfl

/-- **A bound batch** is the batch it was made of, within the bound and without repeated ids. -/
theorem bindToolProposals_ok {maxQueued : ℕ} {bound : List BoundToolInvocation}
    (h : bindToolProposals catalog proposals maxQueued nextInvocationId = .ok bound) :
    bound.map BoundToolInvocation.proposal = proposals
      ∧ (proposals.map ToolProposal.toolCallId).Nodup ∧ bound.length ≤ maxQueued := by
  rw [bindToolProposals] at h
  split at h
  · cases h
  · rename_i hle
    obtain ⟨hmap, hnodup, -⟩ := bindProposals_ok h
    refine ⟨hmap, hnodup, ?_⟩
    have := congrArg List.length hmap
    rw [List.length_map] at this
    omega

end Falryn.Tools
