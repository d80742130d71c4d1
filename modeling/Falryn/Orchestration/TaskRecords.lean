import Falryn.Foundation.Result
import Falryn.Orchestration.ProcessTask

/-!
# Task records

How a process task is kept (`process-task-records.ts`): a row that holds its snapshot, and a stream of
events each of which holds the snapshot it led to.  A snapshot is written as a text and parsed again
when it is read, so a row is only as good as the snapshot in it.  A text of a snapshot that has its
formats is some kilobytes long at most, well below the bounds on the texts of rows and events, which
are left out.
-/

namespace Falryn.Orchestration

/-- `PROCESS_TASK_LEASE_MS`. -/
def processTaskLeaseMs : ℕ := 15000

/-- `PROCESS_TASK_LEASE_RENEWAL_MS`. -/
def processTaskLeaseRenewalMs : ℕ := 5000

/-- `MAX_RETAINED_PROCESS_TASKS`. -/
def maxRetainedProcessTasks : ℕ := 256

/-- `MAX_PROCESS_TASK_WAKE_ATTEMPTS`. -/
def maxProcessTaskWakeAttempts : ℕ := 3

/-- `change` of a task event. -/
inductive TaskChange where
  | created
  | started
  | attachment
  | settling
  | sealed
  | reconciled
  | cleaned
  deriving DecidableEq

/-- The change that tells of a transition. -/
def ProcessTaskTransition.change : ProcessTaskTransition → TaskChange
  | started _ => .started
  | attachment _ => .attachment
  | settling => .settling
  | sealed _ => .sealed

/-- A row of `process_tasks`. -/
structure TaskRow where
  taskId : String
  generation : String
  revision : ℕ
  snapshot : ProcessTaskSnapshot

/-- A row of `events` in the stream of a task. -/
structure TaskEvent where
  sequence : ℕ
  change : TaskChange
  task : ProcessTaskSnapshot

/-- The codes of `ProcessTaskStoreError` that a store which works answers with. -/
inductive TaskFailure where
  | invalidRecord
  | notFound
  | staleGeneration
  | staleRevision
  | ownershipUnavailable
  | invalidTransition
  | sealed
  | capacity
  | busy
  | storageUnavailable
  | eventRejected
  | notificationUnavailable
  deriving DecidableEq

/-- The code of a refused transition. -/
def TransitionRefusal.failure : TransitionRefusal → TaskFailure
  | .staleGeneration => .staleGeneration
  | .staleRevision => .staleRevision
  | .ownershipUnavailable => .ownershipUnavailable
  | .invalidTransition => .invalidTransition
  | .sealed => .sealed

/-! ## Reading -/

def readTaskRow (row : Option TaskRow) (handle : Option ProcessTaskHandle) :
    Except TaskFailure ProcessTaskSnapshot :=
  match row with
  | none => .error .notFound
  | some row => do
    refuseIf (¬ row.snapshot.Schema ∨ row.snapshot.revision ≠ row.revision
      ∨ row.snapshot.handle ≠ ⟨row.taskId, row.generation⟩) .invalidRecord
    refuseIf (∃ expected ∈ handle, expected ≠ ⟨row.taskId, row.generation⟩) .staleGeneration
    return row.snapshot

def readTaskEvent (event : Option TaskEvent) : Except TaskFailure TaskEvent :=
  match event with
  | none => .error .invalidRecord
  | some event => do
    refuseIf (¬ event.task.Schema ∨ event.sequence ≠ event.task.revision) .invalidRecord
    return event

/-- A snapshot under another lease. -/
def ProcessTaskSnapshot.withLease (task : ProcessTaskSnapshot) (leaseExpiresAt : ℕ) :
    ProcessTaskSnapshot :=
  { task with supervisor := { task.supervisor with leaseExpiresAt } }

def verifyTaskEvent (task : ProcessTaskSnapshot) (event : Option TaskEvent) :
    Except TaskFailure ProcessTaskSnapshot := do
  let parsed ← readTaskEvent event
  refuseIf (parsed.change = .cleaned) .invalidRecord
  let rebuilt := parsed.task.withLease task.supervisor.leaseExpiresAt
  refuseIf (task.supervisor.leaseExpiresAt < parsed.task.supervisor.leaseExpiresAt ∨ rebuilt ≠ task)
    .invalidRecord
  return rebuilt

/-! ## Writing -/

/-- The last instant `Date` can hold. -/
def maxDate : ℤ := 8640000000000000

/-- The instants whose text has a year of four digits. -/
def isCanonicalTime (now : ℤ) : Bool :=
  decide (-62167219200000 ≤ now) && decide (now ≤ 253402300799999)

/-- The last sequence of a stream, and `0` if there is none. -/
def lastSequence (events : List TaskEvent) : ℕ := (events.getLast?.map (·.sequence)).getD 0

/-- `appendTaskEvent`: the stream with one event more.  A time that is no date throws, and then nothing
the transaction wrote stays; every other refusal is one of the event store. -/
def appendTaskEvent (events : List TaskEvent) (task : ProcessTaskSnapshot) (change : TaskChange)
    (now : ℤ) : Except TaskFailure (List TaskEvent) := do
  refuseIf (¬ IsSafeInteger now ∨ maxDate < |now|) .storageUnavailable
  refuseIf (isCanonicalTime now = false ∨ ¬ task.Schema) .eventRejected
  refuseIf (task.revision ≠ lastSequence events + 1) .eventRejected
  return events ++ [⟨task.revision, change, task⟩]

/-- The identity of the event that led to a snapshot: it is its event id. -/
def taskEventId (stream : String) (revision : ℕ) : String := stream ++ ":" ++ toString revision

/-! ## What a record that is read or written is -/

section
variable {row : TaskRow} {handle : Option ProcessTaskHandle} {task rebuilt : ProcessTaskSnapshot}
  {events events' : List TaskEvent} {event : TaskEvent} {change : TaskChange} {now : ℤ}

/-- A row can be read. -/
structure TaskRow.Reads (row : TaskRow) : Prop where
  schema : row.snapshot.Schema
  revision : row.snapshot.revision = row.revision
  handle : row.snapshot.handle = ⟨row.taskId, row.generation⟩

theorem readTaskRow_ok :
    readTaskRow (some row) handle = .ok task ↔
      row.Reads ∧ (∀ expected ∈ handle, expected = row.snapshot.handle) ∧ task = row.snapshot := by
  simp only [readTaskRow, except_bind_ok, refuseIf_ok, except_pure_ok]
  constructor
  · rintro ⟨-, hreads, -, hexpected, rfl⟩
    push Not at hreads hexpected
    exact ⟨⟨hreads.1, hreads.2.1, hreads.2.2⟩,
      fun expected h => (hexpected expected h).trans hreads.2.2.symm, rfl⟩
  · rintro ⟨hreads, hexpected, rfl⟩
    refine ⟨(), ?_, (), ?_, rfl⟩
    · push Not
      exact ⟨hreads.schema, hreads.revision, hreads.handle⟩
    · push Not
      exact fun expected h => (hexpected expected h).trans hreads.handle

/-- **A snapshot is verified** by an event that holds it, under a lease that is not later. -/
theorem verifyTaskEvent_ok :
    verifyTaskEvent task (some event) = .ok rebuilt ↔
      (event.task.Schema ∧ event.sequence = event.task.revision) ∧ event.change ≠ .cleaned
        ∧ event.task.supervisor.leaseExpiresAt ≤ task.supervisor.leaseExpiresAt
        ∧ event.task.withLease task.supervisor.leaseExpiresAt = task ∧ rebuilt = task := by
  simp only [verifyTaskEvent, readTaskEvent, except_bind_ok, refuseIf_ok, except_pure_ok]
  constructor
  · rintro ⟨_, ⟨-, hreads, rfl⟩, -, hchange, -, hrebuilt, rfl⟩
    push Not at hreads hrebuilt
    exact ⟨hreads, hchange, hrebuilt.1, hrebuilt.2, hrebuilt.2⟩
  · rintro ⟨hreads, hchange, hlease, htask, rfl⟩
    refine ⟨event, ⟨(), ?_, rfl⟩, (), hchange, (), ?_, htask.symm⟩
    · push Not
      exact hreads
    · push Not
      exact ⟨hlease, htask⟩

/-- **An event is appended** at a time that has a canonical text, with a snapshot that has its schema
and the next revision. -/
theorem appendTaskEvent_ok :
    appendTaskEvent events task change now = .ok events' ↔
      isCanonicalTime now = true ∧ task.Schema ∧ task.revision = lastSequence events + 1
        ∧ events' = events ++ [⟨task.revision, change, task⟩] := by
  simp only [appendTaskEvent, except_bind_ok, refuseIf_ok, except_pure_ok]
  constructor
  · rintro ⟨-, -, -, hencodes, -, hsequence, rfl⟩
    push Not at hencodes hsequence
    exact ⟨by simpa using hencodes.1, hencodes.2, hsequence, rfl⟩
  · rintro ⟨htime, hschema, hsequence, rfl⟩
    have hbounds : -62167219200000 ≤ now ∧ now ≤ 253402300799999 := by
      simpa [isCanonicalTime] using htime
    have habs : |now| ≤ 253402300799999 := abs_le.2 ⟨by omega, hbounds.2⟩
    refine ⟨(), ?_, (), ?_, (), ?_, rfl⟩
    · push Not
      exact ⟨habs.trans (by norm_num), habs.trans (by norm_num [maxDate])⟩
    · push Not
      exact ⟨by simp [htime], hschema⟩
    · push Not
      exact hsequence

end

@[simp] theorem lastSequence_nil : lastSequence [] = 0 := rfl

@[simp] theorem lastSequence_concat (events : List TaskEvent) (event : TaskEvent) :
    lastSequence (events ++ [event]) = event.sequence := by
  simp [lastSequence]

end Falryn.Orchestration
