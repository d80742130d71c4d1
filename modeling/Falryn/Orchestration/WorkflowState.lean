import Falryn.Foundation.Json
import Falryn.Orchestration.ProcessTask
import Falryn.Orchestration.ResourceLedger

/-!
# Workflow records

The definition of a workflow (`workflow-definition.ts`) and the record of one run of it
(`workflow-state.ts`).  A record carries its definition; its nodes are the templates of the definition
that were expanded so far, a template over a list once for each item.
-/

namespace Falryn.Orchestration

/-! ## Definitions -/

/-- A segment of a path into a value. -/
inductive PathSegment where
  | name (name : String)
  | index (index : ℕ)

/-- `workflowValueSchema`: where a value comes from. -/
inductive WorkflowValue where
  | literal (value : Json)
  | arguments (path : List PathSegment)
  | node (node : String) (path : List PathSegment)
  | item (path : List PathSegment)

/-- `forEach` of a node. -/
structure WorkflowForEach where
  source : WorkflowValue
  key : List PathSegment
  maxItems : ℕ

/-- `when` of a node. -/
structure WorkflowWhen where
  value : WorkflowValue
  equals : Json

/-- `onFailure` of a node. -/
inductive FailurePolicy where
  | stop
  | continue_

/-- `policy` of a join. -/
inductive JoinNodePolicy where
  | all
  | settled

/-- What a node does. -/
inductive WorkflowNodeKind where
  | action
  | agent
  | model
  | question
  | condition (value : WorkflowValue) (equals : Json)
  | join (policy : JoinNodePolicy)

/-- An amount for some of the resource dimensions. -/
abbrev ResourceAmounts := ResourceDimension → Option ℕ

/-- `workflowNodeSchema`. -/
structure WorkflowNode where
  key : String
  dependencies : List String
  input : List (String × WorkflowValue)
  resultSchema : Json
  resultPath : List PathSegment
  onFailure : FailurePolicy
  retries : ℕ
  limits : ResourceAmounts
  forEach : Option WorkflowForEach
  when_ : Option WorkflowWhen
  kind : WorkflowNodeKind

/-- `workflowDefinitionSchema`. -/
structure WorkflowDefinition where
  nodes : List WorkflowNode
  outputs : List (String × WorkflowValue)
  concurrency : ℕ

/-! ## Records -/

/-- `workflowHandleSchema`. -/
structure WorkflowHandle where
  id : String
  generation : String

/-- `WORKFLOW_NODE_STATES`. -/
inductive WorkflowNodeState where
  | pending
  | running
  | waiting
  | completed
  | failed
  | skipped
  | cancelled
  | timedOut
  | uncertain

/-- `workflowNodeRecordSchema`. -/
structure WorkflowNodeRecord where
  key : String
  template : String
  itemKey : Option String
  item : Json
  state : WorkflowNodeState
  attempts : ℕ
  invocation : Option String
  fingerprint : Option String
  result : Option ProcessTaskArtifact
  effect : EffectCertainty
  reason : Option String
  question : Option ProcessTaskHandle
  observed : List String
  usage : ResourceAmounts
  measured : Option ResourceAmounts
  startedAt : Option ℕ
  settledAt : Option ℕ

/-- The states of a run. -/
inductive WorkflowRunState where
  | admitted
  | running
  | waiting
  | paused
  | completed
  | failed
  | cancelled
  | timedOut
  | uncertain

/-- `workflowRecordSchema`. -/
structure WorkflowRecord where
  handle : WorkflowHandle
  revision : ℕ
  definition : WorkflowDefinition
  arguments : Json
  owner : ProcessTaskOwner
  authority : String
  sourceGeneration : String
  routes : List (String × Json)
  createdAt : ℕ
  deadline : ℕ
  updatedAt : ℕ
  state : WorkflowRunState
  executor : Option String
  task : Option ProcessTaskHandle
  nodes : List WorkflowNodeRecord
  expanded : List String
  limits : ResourceAmounts
  spent : ResourceAmounts
  output : Option ProcessTaskArtifact
  reusedFrom : Option WorkflowHandle

end Falryn.Orchestration
