import Falryn.Foundation.Result
import Falryn.Lib.OrderedMap

/-!
# Records of a work queue

The records of one queue as a transaction sees them (`work-queue.ts`): tasks with their dependency
edges, groups, and where tasks and groups are placed.  A record is kept under its id and its queue is
the one at hand, so neither is a field.  The lists a table answers with are in the order the store's
statements ask for.
-/

namespace Falryn.Orchestration.WorkQueues

/-! ## Tasks -/

/-- The id of a task or a group. -/
abbrev WorkItemId := String

/-- `WORK_DISPOSITIONS`. -/
inductive WorkDisposition where
  | pending | ready | active | waiting | blocked | completionClaimed | completed | cancelled | archived
  deriving DecidableEq

/-- Who holds a claim. -/
structure WorkHolder where
  taskId : String
  generation : String
  actor : String

structure WorkClaim where
  generation : ℕ
  holder : WorkHolder
  releasePending : Bool

structure WorkEvidence where
  handle : String
  generation : String
  source : String
  deriving DecidableEq

inductive ExecutionState where
  | active | uncertain | settled | fenced
  deriving DecidableEq

/-- An execution that is over. -/
def ExecutionState.isStopped : ExecutionState → Bool
  | .settled => true
  | .fenced => true
  | _ => false

structure WorkExecution where
  id : String
  generation : String
  state : ExecutionState

structure WorkAcceptance where
  actor : String
  authority : String
  reason : String
  criteriaRevision : ℕ

inductive MetadataValue where
  | text (value : String)
  | number (value : ℚ)
  | bool (value : Bool)

/-- What a client says of a task. -/
structure WorkFields where
  subject : String
  description : String
  objective : String
  activeForm : Option String
  agentType : Option String
  metadata : OrderedMap String MetadataValue
  criteria : List String

/-- A task. -/
structure WorkItem where
  fields : WorkFields
  revision : ℕ
  criteriaRevision : ℕ
  disposition : WorkDisposition
  previousDisposition : Option WorkDisposition
  reason : Option String
  blockers : List String
  unresolvedDependencies : Bool
  claimGeneration : ℕ
  claim : Option WorkClaim
  execution : Option WorkExecution
  evidence : List WorkEvidence
  acceptance : Option WorkAcceptance
  deleted : Bool
  createdAt : ℕ
  updatedAt : ℕ

/-- `completedWork`: an accepted completion, archived or not. -/
def WorkItem.completedWork (item : WorkItem) : Bool :=
  !item.deleted &&
    (decide (item.disposition = .completed) ||
      decide (item.disposition = .archived ∧ item.previousDisposition = some .completed)) &&
    item.acceptance.isSome

/-! ## Groups and places -/

/-- A heading that organizes tasks. -/
structure WorkGroup where
  revision : ℕ
  subject : String
  source : String
  sourceGeneration : String
  actor : String
  deleted : Bool
  createdAt : ℕ
  updatedAt : ℕ

/-- Where a node sits. -/
structure WorkPlacement where
  parent : Option WorkItemId
  order : String

/-- A node among its siblings. -/
structure WorkChild where
  id : WorkItemId
  order : String

/-! ## Refusals -/

inductive WorkErrorCode where
  | malformed | unsupported | unavailable | denied | cancelledOperation | conflictingRevision
  | conflictingIdentity | invalidDependency | invalidHierarchy | blockedTransition | staleEvidence
  | stalePage | resourceExhausted | corrupt | recoveryRequired
  deriving DecidableEq

inductive WorkErrorDimension where
  | requestBytes | responseBytes | inlineBytes | validation | storage | admission
  deriving DecidableEq

/-- Why a request is refused (`WorkQueueError`). -/
structure WorkQueueError where
  code : WorkErrorCode
  currentRevision : Option ℕ := none
  dimension : Option WorkErrorDimension := none
  incomplete : Bool := false
  deriving DecidableEq

/-- A refusal by its code alone. -/
def refusal (code : WorkErrorCode) : WorkQueueError := { code }

/-! ## The tables of a queue -/

/-- The rows of one queue. -/
structure WorkTables where
  items : OrderedMap WorkItemId WorkItem
  /-- Which task depends on which: the task first. -/
  edges : List (WorkItemId × WorkItemId)
  groups : OrderedMap WorkItemId WorkGroup
  placements : OrderedMap WorkItemId WorkPlacement

namespace WorkTables

/-- No rows. -/
def empty : WorkTables := ⟨.empty, [], .empty, .empty⟩

/-- `edges(…, "dependencies")`: what a task depends on, by id. -/
def dependencies (t : WorkTables) (id : WorkItemId) : List WorkItemId :=
  ((t.edges.filter fun edge => edge.1 = id).map Prod.snd).insertionSort (· ≤ ·)

/-- `edges(…, "dependents")`: what depends on a task, by id. -/
def dependents (t : WorkTables) (id : WorkItemId) : List WorkItemId :=
  ((t.edges.filter fun edge => edge.2 = id).map Prod.fst).insertionSort (· ≤ ·)

def setEdge (t : WorkTables) (item dependency : WorkItemId) (present : Bool) : WorkTables :=
  { t with
    edges :=
      if present then
        if (item, dependency) ∈ t.edges then t.edges else t.edges ++ [(item, dependency)]
      else t.edges.filter fun edge => edge ≠ (item, dependency) }

def putItem (t : WorkTables) (id : WorkItemId) (item : WorkItem) : WorkTables :=
  { t with items := t.items.set id item }

@[simp] theorem putItem_edges (t : WorkTables) (id : WorkItemId) (item : WorkItem) :
    (t.putItem id item).edges = t.edges := rfl

variable {t : WorkTables} {dependency : WorkItemId} {id : WorkItemId}

@[simp] theorem mem_dependencies : dependency ∈ t.dependencies id ↔ (id, dependency) ∈ t.edges := by
  simp [dependencies, List.mem_insertionSort]

variable {item : WorkItemId} {edge : WorkItemId × WorkItemId}

@[simp] theorem mem_dependents : item ∈ t.dependents id ↔ (item, id) ∈ t.edges := by
  simp [dependents, List.mem_insertionSort]

@[simp] theorem mem_edges_setEdge_true :
    edge ∈ (t.setEdge item dependency true).edges ↔ edge = (item, dependency) ∨ edge ∈ t.edges := by
  unfold setEdge
  by_cases hmem : (item, dependency) ∈ t.edges
  · simp only [if_true, if_pos hmem]
    refine ⟨.inr, fun h => ?_⟩
    rcases h with rfl | h
    · exact hmem
    · exact h
  · simp [hmem, or_comm]

@[simp] theorem mem_edges_setEdge_false :
    edge ∈ (t.setEdge item dependency false).edges ↔ edge ∈ t.edges ∧ edge ≠ (item, dependency) := by
  simp [setEdge]

end WorkTables

end Falryn.Orchestration.WorkQueues
