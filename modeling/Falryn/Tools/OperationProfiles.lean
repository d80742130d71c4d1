import Falryn.Lib.Pointwise
import Falryn.Tools.ToolPipeline

/-!
# Operation profiles

A profile groups a few native operations under one model-facing name; before binding, a call of it is
lowered to the native call it names (`domain/tools/operation-profiles.ts`).
-/

namespace Falryn.Tools

structure OperationProfileMember where
  operation : String
  toolName : String

/-- `OperationProfileDefinition`, as far as lowering reads it. -/
structure OperationProfileDefinition where
  id : String
  members : List OperationProfileMember

/-- `DisclosedOperationProfile`, as far as lowering reads it. -/
structure DisclosedOperationProfile where
  name : String
  profileId : String
  operations : List OperationProfileMember

/-- `lowerOne`: the native tool and its arguments. -/
def lowerOne (profile : DisclosedOperationProfile) (arguments : JsValue)
    (definitions : List OperationProfileDefinition) :
    Except ProfileOperationRefusal (String × JsValue) :=
  if arguments.isRecord = false then .error .argumentsNotObject
  else
    match arguments.field "operation" with
    | .string operation =>
      if operation = "" then .error .operationMissing
      else
        match profile.operations.find? fun member => member.operation = operation with
        | none =>
          let declared := (definitions.find? fun definition => definition.id = profile.profileId).any
            fun definition => definition.members.any fun member => member.operation = operation
          .error (if declared then .operationNotDisclosed else .operationUnknown)
        | some member =>
          -- `operation` decides; the arguments of the other operations are ignored
          match arguments.field operation with
          | .undefined => .ok (member.toolName, .object [])
          | .null => .ok (member.toolName, .object [])
          | .object fields => .ok (member.toolName, .object fields)
          | _ => .error .operationArgumentsInvalid
    | _ => .error .operationMissing

/-- One round of the loop of `lowerProfileProposals`.  Of two profiles of one name, the map keeps the
later one. -/
def lowerProposal (profiles : List DisclosedOperationProfile)
    (definitions : List OperationProfileDefinition) (proposal : ToolProposal) :
    Except ToolBindError ToolProposal :=
  match profiles.reverse.find? fun profile => profile.name = proposal.name with
  | none => .ok proposal
  | some profile =>
    match lowerOne profile proposal.arguments definitions with
    | .error reason =>
      .error (.profileOperationInvalid proposal.toolCallId proposal.name reason)
    | .ok (toolName, arguments) => .ok { proposal with name := toolName, arguments }

def lowerProfileProposals (profiles : List DisclosedOperationProfile)
    (proposals : List ToolProposal) (definitions : List OperationProfileDefinition) :
    Except ToolBindError (List ToolProposal) :=
  proposals.mapM (lowerProposal profiles definitions)

variable {profiles : List DisclosedOperationProfile} {definitions : List OperationProfileDefinition}

theorem lowerProposal_toolCallId {proposal lowered : ToolProposal}
    (h : lowerProposal profiles definitions proposal = .ok lowered) :
    lowered.toolCallId = proposal.toolCallId := by
  rw [lowerProposal] at h
  split at h
  · cases h
    rfl
  · split at h <;> cases h
    rfl

/-- **Lowering keeps the tool call ids**, so that results pair with the calls the model made. -/
theorem lowerProfileProposals_toolCallId {proposals lowered : List ToolProposal}
    (h : lowerProfileProposals profiles proposals definitions = .ok lowered) :
    lowered.map ToolProposal.toolCallId = proposals.map ToolProposal.toolCallId :=
  Pointwise.map_eq_of_forall₂ (fun _ _ hl => lowerProposal_toolCallId hl) (mapM_ok_iff.1 h)

end Falryn.Tools
