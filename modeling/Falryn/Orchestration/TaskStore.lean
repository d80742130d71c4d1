import Falryn.Lib.OrderedMap
import Falryn.Lib.StateMachine
import Falryn.Orchestration.TaskRecords

/-!
# The store of process tasks

`createSqliteProcessTaskStore` (`process-task-store.ts`) and the notification part of
`processTaskOutputAccess`: every operation is one transaction over the rows of the tasks, the streams
of their events and their wakes.  A task has one row, whatever its generation; a stream is never
shortened.  What a transaction asks of the tables of other stores (is the result an artifact of the
task, does a parent, a schedule or a join still need the task) is an argument of the call.
-/

namespace Falryn.Orchestration

/-- The states of a wake. -/
inductive WakeState where
  | pending
  | acknowledged
  | unavailable
  deriving DecidableEq

/-- A row of `process_task_wakes`, which is deleted with the row of its task. -/
structure TaskWake where
  notificationId : String
  terminalEventId : String
  attempts : ℕ
  state : WakeState

/-- The tables of the store: the rows under their task ids, the events under their streams and the
wakes under their tasks. -/
structure TaskTables where
  tasks : OrderedMap String TaskRow
  events : String → List TaskEvent
  wakes : ProcessTaskHandle → Option TaskWake

namespace TaskTables

/-- The tables of a new store. -/
def empty : TaskTables := ⟨.empty, fun _ => [], fun _ => none⟩

def loadTask (tables : TaskTables) (handle : ProcessTaskHandle) :
    Except TaskFailure ProcessTaskSnapshot :=
  readTaskRow (tables.tasks.get handle.taskId) (some handle)

def loadWake (tables : TaskTables) (handle : ProcessTaskHandle) : Except TaskFailure TaskWake :=
  match tables.wakes handle with
  | none => .error .notificationUnavailable
  | some wake => if maxProcessTaskWakeAttempts < wake.attempts then .error .invalidRecord else .ok wake

/-- The wake of a task is there and no longer pending. -/
def wakeSettled (tables : TaskTables) (handle : ProcessTaskHandle) : Bool :=
  match tables.loadWake handle with
  | .error _ => false
  | .ok wake => decide (wake.state ≠ .pending)

/-- The row of a task is written. -/
def putRow (tables : TaskTables) (task : ProcessTaskSnapshot) : TaskTables :=
  { tables with
    tasks := tables.tasks.set task.handle.taskId
      ⟨task.handle.taskId, task.handle.generation, task.revision, task⟩ }

/-- The row of a task is deleted, and its wake with it. -/
def remove (tables : TaskTables) (handle : ProcessTaskHandle) : TaskTables :=
  { tables with
    tasks := tables.tasks.delete handle.taskId
    wakes := Function.update tables.wakes handle none }

/-- The events of a stream are written. -/
def putEvents (tables : TaskTables) (stream : String) (events : List TaskEvent) : TaskTables :=
  { tables with events := Function.update tables.events stream events }

/-- The wake of a task is written. -/
def putWake (tables : TaskTables) (handle : ProcessTaskHandle) (wake : Option TaskWake) :
    TaskTables :=
  { tables with wakes := Function.update tables.wakes handle wake }

end TaskTables

section
-- `taskStream`: a digest of a handle.
variable (taskStream : ProcessTaskHandle → String)

namespace TaskTables

/-- The events of a task. -/
def journal (tables : TaskTables) (handle : ProcessTaskHandle) : List TaskEvent :=
  tables.events (taskStream handle)

def create (tables : TaskTables) (task : ProcessTaskSnapshot) : Except TaskFailure TaskTables := do
  refuseIf (¬ task.Schema ∨ task.state ≠ .queued ∨ task.revision ≠ 1
    ∨ task.supervisor.leaseExpiresAt ≠ task.createdAt + processTaskLeaseMs
    ∨ task.deadline ≤ task.createdAt) .invalidRecord
  refuseIf (tables.tasks.get task.handle.taskId ≠ none ∨ tables.journal taskStream task.handle ≠ [])
    .staleGeneration
  refuseIf (maxRetainedProcessTasks ≤ tables.tasks.size) .capacity
  let events ← appendTaskEvent (tables.journal taskStream task.handle) task .created task.createdAt
  return (tables.putEvents (taskStream task.handle) events).putRow task

/-- The part `transition` and `reconcile` share: the event, the row and, when the task is over, the
wake.  A second wake of a task would violate the key of its table. -/
def record (tables : TaskTables) (task : ProcessTaskSnapshot) (change : TaskChange) (now : ℤ) :
    Except TaskFailure TaskTables := do
  let stream := taskStream task.handle
  let events ← appendTaskEvent (tables.journal taskStream task.handle) task change now
  let recorded := (tables.putEvents stream events).putRow task
  if task.state = .terminal then
    refuseIf (tables.wakes task.handle ≠ none) .storageUnavailable
    let eventId := taskEventId stream task.revision
    return recorded.putWake task.handle (some ⟨"wake:" ++ eventId, eventId, 0, .pending⟩)
  else return recorded

/-- `transition`.  `owned` says that the artifact of a result is there and belongs to the task. -/
def transition (tables : TaskTables) (fence : ProcessTaskFence) (change : ProcessTaskTransition)
    (now : ℤ) (owned : Bool) : Except TaskFailure TaskTables := do
  let current ← tables.loadTask fence.handle
  match transitionProcessTask current fence change now with
  | .error refusal => .error refusal.failure
  | .ok task =>
    refuseIf (¬ task.Schema) .invalidRecord
    refuseIf ((∃ terminal ∈ task.terminal, terminal.result ≠ none) ∧ owned = false) .invalidRecord
    tables.record taskStream task change.change now

def reconcile (tables : TaskTables) (expected : ProcessTaskSnapshot) (replaced : Bool) (now : ℤ) :
    Except TaskFailure TaskTables := do
  let current ← tables.loadTask expected.handle
  refuseIf (current ≠ expected) .staleRevision
  refuseIf (current.state = .terminal) .sealed
  refuseIf (¬ IsSafeInteger now ∨ now < current.supervisor.leaseExpiresAt
    ∨ 2 ^ 53 - 1 ≤ current.revision) .ownershipUnavailable
  tables.record taskStream
    { current with
      revision := current.revision + 1
      state := .terminal
      terminal := some
        { outcome := .uncertain, effect := .uncertain
          reason := if replaced then .supervisorReplaced else .supervisorVanished
          exitCode := none, signal := none, sealedAt := now.toNat, result := none
          outputComplete := some false } }
    .reconciled now

/-- `cleanup`.  `needed` says that a parent or a schedule still needs the task, `joined` that a join
does. -/
def cleanup (tables : TaskTables) (handle : ProcessTaskHandle) (expectedRevision : ℕ) (now : ℤ)
    (needed joined : Bool) : Except TaskFailure TaskTables :=
  match tables.loadTask handle with
  | .error failure =>
    if failure = .notFound ∧ tables.journal taskStream handle ≠ [] then .ok tables else .error failure
  | .ok task => do
    refuseIf (task.revision ≠ expectedRevision ∨ 2 ^ 53 - 1 ≤ task.revision) .staleRevision
    refuseIf (task.state ≠ .terminal ∨ tables.wakeSettled handle = false) .busy
    refuseIf (needed = true) .busy
    refuseIf (¬ IsSafeInteger now ∨ ∃ terminal ∈ task.terminal, now < terminal.sealedAt) .invalidRecord
    refuseIf (joined = true) .busy
    let events ← appendTaskEvent (tables.journal taskStream handle)
      { task with revision := task.revision + 1 } .cleaned now
    return (tables.putEvents (taskStream handle) events).remove handle

/-- `claimWake`.  A wake that was claimed too often is given up, which is written although the claim
is refused. -/
def claimWake (tables : TaskTables) (handle : ProcessTaskHandle) : TaskTables :=
  match tables.loadWake handle with
  | .error _ => tables
  | .ok wake =>
    if wake.state ≠ .pending then tables
    else if maxProcessTaskWakeAttempts ≤ wake.attempts then
      tables.putWake handle (some { wake with state := .unavailable })
    else tables.putWake handle (some { wake with attempts := wake.attempts + 1 })

def acknowledgeWake (tables : TaskTables) (handle : ProcessTaskHandle) (notificationId : String) :
    TaskTables :=
  match tables.loadWake handle with
  | .error _ => tables
  | .ok wake =>
    if wake.notificationId ≠ notificationId ∨ wake.attempts < 1 then tables
    else tables.putWake handle (some { wake with state := .acknowledged })

/-- `renew`: the lease is written without an event. -/
def renew (tables : TaskTables) (fence : ProcessTaskFence) (now : ℤ) :
    Except TaskFailure TaskTables := do
  let task ← tables.loadTask fence.handle
  refuseIf (task.revision ≠ fence.expectedRevision) .staleRevision
  refuseIf (task.state = .terminal) .sealed
  refuseIf (task.supervisor.runId ≠ fence.supervisorRunId ∨ ¬ IsSafeInteger now
    ∨ task.supervisor.leaseExpiresAt ≤ now ∨ now < task.createdAt) .ownershipUnavailable
  let lastRenewed : ℤ := task.supervisor.leaseExpiresAt - processTaskLeaseMs
  if now < lastRenewed + processTaskLeaseRenewalMs then return tables
  else return tables.putRow (task.withLease (now.toNat + processTaskLeaseMs))

/-- What `list` reads of a row. -/
def listRow (tables : TaskTables) (row : TaskRow) : Except TaskFailure ProcessTaskSnapshot := do
  let task ← readTaskRow (some row) none
  verifyTaskEvent task (tables.journal taskStream task.handle).getLast?

def list (tables : TaskTables) : Except TaskFailure (List ProcessTaskSnapshot) := do
  refuseIf (maxRetainedProcessTasks < tables.tasks.size) .capacity
  let rows := (tables.tasks.entries.map (·.2)).mergeSort fun a b => decide (a.taskId ≤ b.taskId)
  rows.mapM (tables.listRow taskStream)

end TaskTables
end

/-- The calls of the store that write. -/
inductive TaskCall where
  | create (task : ProcessTaskSnapshot)
  | transition (fence : ProcessTaskFence) (change : ProcessTaskTransition) (now : ℤ) (owned : Bool)
  | renew (fence : ProcessTaskFence) (now : ℤ)
  | reconcile (expected : ProcessTaskSnapshot) (replaced : Bool) (now : ℤ)
  | claimWake (handle : ProcessTaskHandle)
  | acknowledgeWake (handle : ProcessTaskHandle) (notificationId : String)
  | cleanup (handle : ProcessTaskHandle) (expectedRevision : ℕ) (now : ℤ) (needed joined : Bool)

/-- The tables after a call: a call that is refused has written nothing, up to a wake given up. -/
def TaskTables.step (taskStream : ProcessTaskHandle → String) (tables : TaskTables) (call : TaskCall) :
    Option TaskTables :=
  let written : Except TaskFailure TaskTables :=
    match call with
    | .create task => tables.create taskStream task
    | .transition fence change now owned => tables.transition taskStream fence change now owned
    | .renew fence now => tables.renew fence now
    | .reconcile expected replaced now => tables.reconcile taskStream expected replaced now
    | .claimWake handle => .ok (tables.claimWake handle)
    | .acknowledgeWake handle notificationId => .ok (tables.acknowledgeWake handle notificationId)
    | .cleanup handle expectedRevision now needed joined =>
      tables.cleanup taskStream handle expectedRevision now needed joined
  some (written.toOption.getD tables)

end Falryn.Orchestration
