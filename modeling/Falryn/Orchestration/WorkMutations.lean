import Falryn.Lib.FrameSearch
import Falryn.Orchestration.WorkItems

/-!
# Changing tasks

`applyWorkMutation`: one operation on one task, inside the transaction of its batch.  A refusal aborts
the transaction, so an operation is a function to the next transaction or to a refusal.

The authority answers as it likes, anew for each operation.  The budget refuses whenever it likes, for
time, for the caller's signal or for the number of steps: which of its checks fails first does not
matter to a transaction that is thrown away, so an operation carries one answer for all of them.
Likewise whether a record fits its schema and its size is an answer the operation is given.
-/

namespace Falryn.Orchestration.WorkQueues

/-! ## Requests -/

/-- The fields of an update: what is absent stays. -/
structure WorkFieldsUpdate where
  subject : Option String := none
  description : Option String := none
  objective : Option String := none
  activeForm : Option (Option String) := none
  agentType : Option (Option String) := none
  criteria : Option (List String) := none
  /-- `null` takes a key away. -/
  metadata : List (String × Option MetadataValue) := []

/-- The dispositions a client may ask for. -/
inductive RequestedDisposition where
  | pending | ready | active | waiting | blocked
  deriving DecidableEq

def RequestedDisposition.toDisposition : RequestedDisposition → WorkDisposition
  | .pending => .pending
  | .ready => .ready
  | .active => .active
  | .waiting => .waiting
  | .blocked => .blocked

/-- `WorkMutation`: an operation on the task it names first. -/
inductive WorkMutation where
  | add (itemId : WorkItemId) (fields : WorkFields)
  | update (itemId : WorkItemId) (fields : WorkFieldsUpdate)
  | link (itemId dependency : WorkItemId)
  | unlink (itemId dependency : WorkItemId)
  | blockers (itemId : WorkItemId) (blockers : List String)
  | disposition (itemId : WorkItemId) (value : RequestedDisposition) (reason : String)
  | claim (itemId : WorkItemId) (holder : WorkHolder)
  | release (itemId : WorkItemId)
  | reconcile (itemId : WorkItemId)
  | submit (itemId : WorkItemId) (claimGeneration criteriaRevision : ℕ) (evidence : List WorkEvidence)
  | validate (itemId : WorkItemId) (itemRevision claimGeneration criteriaRevision : ℕ)
      (evidence : List WorkEvidence) (authority : String) (accept : Bool) (reason : String)
  | cancel (itemId : WorkItemId)
  | archive (itemId : WorkItemId)
  | delete (itemId : WorkItemId)

/-! ## Transactions -/

/-- `WORK_QUEUE_LIMITS.batch`. -/
def batchLimit : ℕ := 100

/-- What the host answers (`WorkQueueAuthority`). -/
structure WorkAuthority where
  actor : String
  registeredAgent : String → Bool
  admitHolder : WorkHolder → Bool
  observeExecution : WorkItemId → WorkItem → Option WorkExecution
  validateCompletion : WorkItemId → WorkItem → String → Bool → String → Bool

/-- What an operation is given besides its transaction. -/
structure WorkContext where
  /-- The revision of the queue the batch is applied to. -/
  revision : ℕ
  now : ℕ
  authority : WorkAuthority
  /-- The first check of the budget that fails, if one does. -/
  budget : Option WorkQueueError
  /-- How many turns the search for a cycle may take. -/
  steps : ℕ
  /-- `validateWorkItem`. -/
  validateWorkItem : WorkItemId → WorkItem → Option WorkQueueError

/-- A transaction under way. -/
structure WorkTransaction where
  tables : WorkTables
  /-- The tasks saved so far. -/
  changed : List WorkItemId
  /-- The groups saved so far. -/
  changedGroups : List WorkItemId
  /-- The groups whose derived progress may change. -/
  affected : List WorkItemId
  /-- Whether a placement was written. -/
  placed : Bool

/-- An id added to the ids of a set. -/
def addId (id : WorkItemId) (ids : List WorkItemId) : List WorkItemId :=
  if id ∈ ids then ids else ids ++ [id]

/-- `resource-exhausted` for want of validation steps. -/
def outOfSteps : WorkQueueError :=
  { code := .resourceExhausted, dimension := some .validation, incomplete := true }

/-- What an answer that may refuse comes to. -/
def refuseWith (answer : Option WorkQueueError) : Except WorkQueueError Unit :=
  match answer with
  | none => .ok ()
  | some error => .error error

section
variable (ctx : WorkContext) (t : WorkTransaction)

def save (id : WorkItemId) (item : WorkItem) : Except WorkQueueError WorkTransaction := do
  refuseWith (ctx.validateWorkItem id item)
  refuseIf (batchLimit < (addId id t.changed).length) outOfSteps
  return { t with tables := t.tables.putItem id item, changed := addId id t.changed }

/-- `finish`: the task as changed by this revision. -/
def finish (id : WorkItemId) (item : WorkItem) : Except WorkQueueError WorkTransaction :=
  save ctx t id { item with revision := ctx.revision + 1, updatedAt := ctx.now }

def live (id : WorkItemId) : Except WorkQueueError WorkItem :=
  match t.tables.items.get id with
  | none => .error (refusal .invalidDependency)
  | some item => if item.deleted then .error (refusal .invalidDependency) else .ok item

/-- `requireReady`: nothing blocks the task and all it depends on is completed.  The first dependency
that is not settles the join of all. -/
def requireReady (id : WorkItemId) (item : WorkItem) : Except WorkQueueError Unit := do
  refuseIf (item.blockers ≠ [] ∨ item.unresolvedDependencies = true) (refusal .blockedTransition)
  (t.tables.dependencies id).forM fun dependency => do
    let found ← live t dependency
    refuseIf (found.completedWork = false) (refusal .blockedTransition)

end

/-- Nobody holds the task and nothing of it runs. -/
def WorkItem.isIdle (item : WorkItem) : Bool :=
  item.claim.isNone && item.execution.all fun execution => execution.state.isStopped

def requireIdle (item : WorkItem) : Except WorkQueueError Unit :=
  refuseIf (item.isIdle = false) (refusal .blockedTransition)

/-- A disposition no client may change. -/
def WorkDisposition.isTerminal : WorkDisposition → Bool
  | .completed => true
  | .cancelled => true
  | .archived => true
  | _ => false

/-- `mutable`. -/
def requireMutable (item : WorkItem) : Except WorkQueueError Unit :=
  refuseIf (item.deleted = true ∨ item.disposition.isTerminal = true) (refusal .blockedTransition)

/-! ## The operations -/

section
variable (ctx : WorkContext) (t : WorkTransaction)

/-- Whether a type of agent is named that nobody registered. -/
def isUnregistered (agentType : Option String) : Bool :=
  agentType.any fun agentType => !ctx.authority.registeredAgent agentType

/-- A task just added. -/
def addedItem (fields : WorkFields) : WorkItem where
  fields
  revision := ctx.revision + 1
  criteriaRevision := 1
  disposition := .pending
  previousDisposition := none
  reason := none
  blockers := []
  unresolvedDependencies := false
  claimGeneration := 0
  claim := none
  execution := none
  evidence := []
  acceptance := none
  deleted := false
  createdAt := ctx.now
  updatedAt := ctx.now

/-- Whether an update changes what the task means. -/
def WorkFieldsUpdate.changesMeaning (update : WorkFieldsUpdate) : Bool :=
  update.criteria.isSome || update.objective.isSome || update.description.isSome ||
    update.subject.isSome || update.agentType.isSome

/-- The fields after an update. -/
def WorkFieldsUpdate.apply (update : WorkFieldsUpdate) (fields : WorkFields) : WorkFields where
  subject := update.subject.getD fields.subject
  description := update.description.getD fields.description
  objective := update.objective.getD fields.objective
  activeForm := update.activeForm.getD fields.activeForm
  agentType := update.agentType.getD fields.agentType
  criteria := update.criteria.getD fields.criteria
  metadata := update.metadata.foldl (fun metadata change =>
    match change.2 with
    | none => metadata.delete change.1
    | some value => metadata.set change.1 value) fields.metadata

/-- The task after an update. -/
def updatedItem (update : WorkFieldsUpdate) (item : WorkItem) : WorkItem :=
  let item := { item with fields := update.apply item.fields }
  if update.changesMeaning then
    { item with
      criteriaRevision := item.criteriaRevision + 1
      unresolvedDependencies := if update.criteria.isSome then false else item.unresolvedDependencies
      evidence := []
      acceptance := none
      disposition := .pending }
  else item

/-- An update. -/
def applyUpdate (id : WorkItemId) (item : WorkItem) (update : WorkFieldsUpdate) :
    Except WorkQueueError WorkTransaction := do
  requireMutable item
  refuseIf (isUnregistered ctx (update.agentType.getD none) = true) (refusal .unsupported)
  refuseIf (update.changesMeaning = true ∧ item.isIdle = false) (refusal .blockedTransition)
  finish ctx t id (updatedItem update item)

/-- The task whose dependencies were changed. -/
def relinkedItem (item : WorkItem) (unresolved : Bool) : WorkItem :=
  { item with
    disposition := .pending
    evidence := []
    acceptance := none
    unresolvedDependencies := item.unresolvedDependencies || unresolved }

/-- What a task would depend on with one more dependency, the new one first. -/
def linkedDependencies (id dependency next : WorkItemId) : List WorkItemId :=
  if next = id then dependency :: t.tables.dependencies next else t.tables.dependencies next

/-- A dependency is added, unless it closes a cycle. -/
def applyLink (id : WorkItemId) (item : WorkItem) (dependency : WorkItemId) :
    Except WorkQueueError WorkTransaction := do
  requireMutable item
  requireIdle item
  let _ ← live t dependency
  refuseIf (dependency = id) (refusal .invalidDependency)
  match FrameSearch.findCycle (linkedDependencies t id dependency) ctx.steps [id] with
  | none => .error outOfSteps
  | some (some _) => .error (refusal .invalidDependency)
  | some none =>
    finish ctx { t with tables := t.tables.setEdge id dependency true } id (relinkedItem item false)

/-- A dependency is taken away. -/
def applyUnlink (id : WorkItemId) (item : WorkItem) (dependency : WorkItemId) :
    Except WorkQueueError WorkTransaction := do
  requireMutable item
  requireIdle item
  let found ← live t dependency
  refuseIf (dependency = id) (refusal .invalidDependency)
  refuseIf (dependency ∉ t.tables.dependencies id) (refusal .invalidDependency)
  finish ctx { t with tables := t.tables.setEdge id dependency false } id
    (relinkedItem item !found.completedWork)

/-- What a task that has to wait goes back to. -/
def resumesAs (item : WorkItem) : WorkDisposition :=
  if item.disposition = .ready then .ready else .pending

/-- The task with its blockers replaced. -/
def blockedItem (item : WorkItem) (blockers : List String) : WorkItem :=
  { item with
    blockers
    disposition := if blockers = [] then .pending else .blocked
    previousDisposition := if blockers = [] then none else some (resumesAs item)
    evidence := []
    reason := blockers.head? }

/-- The blockers are replaced. -/
def applyBlockers (id : WorkItemId) (item : WorkItem) (blockers : List String) :
    Except WorkQueueError WorkTransaction := do
  requireMutable item
  requireIdle item
  finish ctx t id (blockedItem item blockers)

/-- The task in the disposition asked for. -/
def disposedItem (item : WorkItem) (value : RequestedDisposition) (reason : String) : WorkItem :=
  { item with
    disposition := value.toDisposition
    reason := some reason
    previousDisposition :=
      if value = .waiting ∨ value = .blocked then some (resumesAs item) else none }

/-- Whether the holder of a task may work on it. -/
def holderAdmitted (item : WorkItem) : Bool :=
  item.claim.any fun claim => !claim.releasePending && ctx.authority.admitHolder claim.holder

/-- A disposition is asked for. -/
def applyDisposition (id : WorkItemId) (item : WorkItem) (value : RequestedDisposition)
    (reason : String) : Except WorkQueueError WorkTransaction := do
  requireMutable item
  (if value = .ready ∨ value = .active then requireReady t id item else .ok ())
  refuseIf (value = .active ∧ holderAdmitted ctx item = false) (refusal .denied)
  refuseIf (value ≠ .active ∧ item.isIdle = false) (refusal .blockedTransition)
  finish ctx t id (disposedItem item value reason)

/-- The task once claimed. -/
def claimedItem (item : WorkItem) (holder : WorkHolder) : WorkItem :=
  { item with
    disposition := .active
    claimGeneration := item.claimGeneration + 1
    claim := some { generation := item.claimGeneration + 1, holder, releasePending := false }
    execution := none
    evidence := []
    acceptance := none }

/-- A holder claims the task. -/
def applyClaim (id : WorkItemId) (item : WorkItem) (holder : WorkHolder) :
    Except WorkQueueError WorkTransaction := do
  requireMutable item
  requireIdle item
  requireReady t id item
  refuseIf (ctx.authority.admitHolder holder = false) (refusal .denied)
  finish ctx t id (claimedItem item holder)

/-- Whether an observation is of another execution than the one recorded. -/
def isOtherExecution (recorded observed : Option WorkExecution) : Bool :=
  match recorded, observed with
  | some recorded, some observed =>
    decide (observed.id ≠ recorded.id ∨ observed.generation ≠ recorded.generation)
  | _, _ => false

/-- An observation that the execution is over. -/
def isStopped (observation : Option WorkExecution) : Bool :=
  observation.any fun execution => execution.state.isStopped

/-- The task after its claim is given up or looked after.  Unknown is not idle: only an execution seen
to be over ends the claim. -/
def releasedItem (item : WorkItem) (claim : WorkClaim) (observation : Option WorkExecution) :
    WorkItem :=
  { item with
    execution := observation <|> item.execution
    claim := if isStopped observation then none else some { claim with releasePending := true }
    disposition :=
      if item.disposition = .cancelled then .cancelled
      else if isStopped observation then .pending else .waiting
    reason := some (if isStopped observation then "execution-settled"
      else "execution-reconciliation-required") }

/-- The holder gives the claim up, or somebody reconciles it with the execution. -/
def applyRelease (id : WorkItemId) (item : WorkItem) (byHolder : Bool) :
    Except WorkQueueError WorkTransaction :=
  match item.claim with
  | none => .error (refusal .blockedTransition)
  | some claim => do
    let observation := ctx.authority.observeExecution id item
    refuseIf (isOtherExecution item.execution observation = true) (refusal .staleEvidence)
    refuseIf (byHolder = true ∧ claim.holder.actor ≠ ctx.authority.actor) (refusal .denied)
    finish ctx t id (releasedItem item claim observation)

/-- Completion is claimed, with evidence. -/
def applySubmit (id : WorkItemId) (item : WorkItem) (claimGeneration criteriaRevision : ℕ)
    (evidence : List WorkEvidence) : Except WorkQueueError WorkTransaction := do
  requireMutable item
  requireReady t id item
  refuseIf (claimGeneration ≠ item.claimGeneration ∨ criteriaRevision ≠ item.criteriaRevision ∨
    item.claim.any (fun claim => decide (claim.holder.actor ≠ ctx.authority.actor) ||
      claim.releasePending) = true) (refusal .staleEvidence)
  finish ctx t id { item with disposition := .completionClaimed, evidence }

/-- The task once its completion is accepted. -/
def acceptedItem (item : WorkItem) (observation : Option WorkExecution) (authority reason : String) :
    WorkItem :=
  { item with
    disposition := .completed
    claim := none
    execution := observation
    acceptance := some
      { actor := ctx.authority.actor, authority, reason, criteriaRevision := item.criteriaRevision } }

/-- A claimed completion is accepted or refused. -/
def applyValidate (id : WorkItemId) (item : WorkItem)
    (itemRevision claimGeneration criteriaRevision : ℕ) (evidence : List WorkEvidence)
    (authority : String) (accept : Bool) (reason : String) :
    Except WorkQueueError WorkTransaction := do
  requireReady t id item
  refuseIf (item.disposition ≠ .completionClaimed ∨ itemRevision ≠ item.revision ∨
    claimGeneration ≠ item.claimGeneration ∨ criteriaRevision ≠ item.criteriaRevision ∨
    evidence ≠ item.evidence) (refusal .staleEvidence)
  refuseIf (ctx.authority.validateCompletion id item authority accept reason = false) (refusal .denied)
  if accept = false then finish ctx t id { item with reason := some reason }
  else do
    let observation :=
      if item.claim.isNone then item.execution else ctx.authority.observeExecution id item
    refuseIf (item.claim.isSome = true ∧ isStopped observation = false) (refusal .blockedTransition)
    refuseIf (isOtherExecution item.execution observation = true) (refusal .staleEvidence)
    finish ctx t id (acceptedItem ctx item observation authority reason)

/-- The task whose dependency was deleted. -/
def orphanedItem (item : WorkItem) : WorkItem :=
  { item with
    unresolvedDependencies := true
    disposition := .blocked
    reason := some "dependency-deleted"
    revision := ctx.revision + 1
    updatedAt := ctx.now }

/-- One dependent of a task that is deleted. -/
def detachDependent (id : WorkItemId) (t : WorkTransaction) (dependent : WorkItemId) :
    Except WorkQueueError WorkTransaction := do
  let item ← live t dependent
  requireIdle item
  refuseIf (item.completedWork = true) (refusal .blockedTransition)
  save ctx { t with tables := t.tables.setEdge dependent id false } dependent (orphanedItem ctx item)

/-- The tables without the dependencies of a task. -/
def withoutDependencies (tables : WorkTables) (id : WorkItemId) : WorkTables :=
  (tables.dependencies id).foldl (fun tables dependency => tables.setEdge id dependency false) tables

/-- The task is deleted: what depends on it is blocked, and its edges go. -/
def applyDelete (id : WorkItemId) (item : WorkItem) : Except WorkQueueError WorkTransaction := do
  requireIdle item
  let t ← (t.tables.dependents id).foldlM (detachDependent ctx id) t
  finish ctx { t with tables := withoutDependencies t.tables id } id { item with deleted := true }

/-- The task an operation names, to be changed: a group is never addressed by a task operation. -/
def addressed (id : WorkItemId) : Except WorkQueueError WorkItem := do
  refuseIf ((t.tables.items.get id).isNone = true ∧ (t.tables.groups.get id).isSome = true)
    (refusal .invalidHierarchy)
  live t id

def applyWorkMutation (op : WorkMutation) : Except WorkQueueError WorkTransaction := do
  refuseWith ctx.budget
  match op with
  | .add id fields =>
    refuseIf ((t.tables.items.get id).isSome = true ∨ (t.tables.groups.get id).isSome = true)
      (refusal .conflictingIdentity)
    refuseIf (isUnregistered ctx fields.agentType = true) (refusal .unsupported)
    save ctx t id (addedItem ctx fields)
  | .update id fields => applyUpdate ctx t id (← addressed t id) fields
  | .link id dependency => applyLink ctx t id (← addressed t id) dependency
  | .unlink id dependency => applyUnlink ctx t id (← addressed t id) dependency
  | .blockers id blockers => applyBlockers ctx t id (← addressed t id) blockers
  | .disposition id value reason => applyDisposition ctx t id (← addressed t id) value reason
  | .claim id holder => applyClaim ctx t id (← addressed t id) holder
  | .release id => applyRelease ctx t id (← addressed t id) true
  | .reconcile id => applyRelease ctx t id (← addressed t id) false
  | .submit id claimGeneration criteriaRevision evidence =>
    applySubmit ctx t id (← addressed t id) claimGeneration criteriaRevision evidence
  | .validate id itemRevision claimGeneration criteriaRevision evidence authority accept reason =>
    applyValidate ctx t id (← addressed t id) itemRevision claimGeneration criteriaRevision evidence
      authority accept reason
  | .cancel id => do
    let item ← addressed t id
    requireMutable item
    finish ctx t id { item with disposition := .cancelled, reason := some "record-cancelled" }
  | .archive id => do
    let item ← addressed t id
    requireIdle item
    refuseIf (item.disposition ≠ .completed ∧ item.disposition ≠ .cancelled)
      (refusal .blockedTransition)
    finish ctx t id
      { item with disposition := .archived, previousDisposition := some item.disposition }
  | .delete id => applyDelete ctx t id (← addressed t id)

end

end Falryn.Orchestration.WorkQueues
