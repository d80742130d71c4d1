import Falryn.Orchestration.TaskStore

/-!
# Rows and journals of process tasks

What one call does to the tables is one of six moves.  From that: as long as no lease is renewed past
the last safe integer, every row can be read and agrees with the last event of its stream, and the
streams say of every task how often it was sealed.
-/

namespace Falryn.Orchestration

/-- The changes that seal a task. -/
def TaskChange.seals : TaskChange → Bool
  | sealed | reconciled => true
  | _ => false

/-- How far a task has come. -/
def ProcessTaskState.rank : ProcessTaskState → ℕ
  | queued => 0
  | running => 1
  | settling => 2
  | terminal => 3

theorem ProcessTaskState.rank_le (state : ProcessTaskState) : state.rank ≤ terminal.rank := by
  cases state <;> decide

/-- A change that may leave a state out. -/
def TaskChange.skips : TaskChange → Bool
  | settling | reconciled => true
  | _ => false

/-- What is recorded of a task whose snapshot was `prior`. -/
structure Follows (prior task : ProcessTaskSnapshot) (change : TaskChange) : Prop where
  handle : task.handle = prior.handle
  revision : task.revision = prior.revision + 1
  schema : task.Schema
  unsealed : prior.state ≠ .terminal
  state : prior.state.rank ≤ task.state.rank
  skips : prior.state.rank + 1 < task.state.rank → change.skips = true
  seals : task.state = .terminal ↔ change.seals = true
  kept : change ≠ .cleaned

namespace TaskTables

/-- The tables with a task recorded: its event, its row and, when it is over, its wake. -/
def recorded (taskStream : ProcessTaskHandle → String) (tables : TaskTables)
    (task : ProcessTaskSnapshot) (change : TaskChange) : TaskTables :=
  let written := (tables.putEvents (taskStream task.handle)
    (tables.journal taskStream task.handle ++ [⟨task.revision, change, task⟩])).putRow task
  if task.state = .terminal then
    let eventId := taskEventId (taskStream task.handle) task.revision
    written.putWake task.handle (some ⟨"wake:" ++ eventId, eventId, 0, .pending⟩)
  else written

/-- The tables with a task cleaned up. -/
def cleaned (taskStream : ProcessTaskHandle → String) (tables : TaskTables)
    (task : ProcessTaskSnapshot) : TaskTables :=
  (tables.putEvents (taskStream task.handle) (tables.journal taskStream task.handle
    ++ [⟨task.revision + 1, .cleaned, { task with revision := task.revision + 1 }⟩])).remove task.handle

/-- **What one call can do to the tables.** -/
inductive Moves (taskStream : ProcessTaskHandle → String) (tables : TaskTables) : TaskTables → Prop
  | same : Moves taskStream tables tables
  | created (task : ProcessTaskSnapshot) (hschema : task.Schema) (hstate : task.state = .queued)
      (hrevision : task.revision = 1) (hrow : tables.tasks.get task.handle.taskId = none)
      (hjournal : tables.journal taskStream task.handle = [])
      (hsize : tables.tasks.size < maxRetainedProcessTasks) :
      Moves taskStream tables (tables.recorded taskStream task .created)
  | recorded (row : TaskRow) (task : ProcessTaskSnapshot) (change : TaskChange)
      (hrow : tables.tasks.get row.taskId = some row) (hreads : row.Reads)
      (hfollows : Follows row.snapshot task change) :
      Moves taskStream tables (tables.recorded taskStream task change)
  | renewed (row : TaskRow) (leaseExpiresAt : ℕ) (hrow : tables.tasks.get row.taskId = some row)
      (hreads : row.Reads) (hunsealed : row.snapshot.state ≠ .terminal)
      (hlater : row.snapshot.supervisor.leaseExpiresAt ≤ leaseExpiresAt)
      (hsafe : leaseExpiresAt ≤ 2 ^ 53 - 1) :
      Moves taskStream tables (tables.putRow (row.snapshot.withLease leaseExpiresAt))
  | woken (handle : ProcessTaskHandle) (wake wake' : TaskWake) (hwake : tables.wakes handle = some wake)
      (hid : wake'.notificationId = wake.notificationId)
      (hattempts : wake'.attempts ≤ maxProcessTaskWakeAttempts) :
      Moves taskStream tables (tables.putWake handle (some wake'))
  | cleaned (row : TaskRow) (hrow : tables.tasks.get row.taskId = some row) (hreads : row.Reads)
      (hsealed : row.snapshot.state = .terminal) :
      Moves taskStream tables (tables.cleaned taskStream row.snapshot)

end TaskTables

/-- A renewal is due and not refused. -/
structure RenewalDue (task : ProcessTaskSnapshot) (fence : ProcessTaskFence) (now : ℤ) : Prop where
  handle : task.handle = fence.handle
  revision : task.revision = fence.expectedRevision
  unsealed : task.state ≠ .terminal
  runId : task.supervisor.runId = fence.supervisorRunId
  safe : IsSafeInteger now
  leased : now < task.supervisor.leaseExpiresAt
  created : (task.createdAt : ℤ) ≤ now
  due : (task.supervisor.leaseExpiresAt : ℤ) - processTaskLeaseMs + processTaskLeaseRenewalMs ≤ now

/-- A renewal that is due is asked for so early that the lease it writes can be read again. -/
def TaskTables.RenewsSafely (tables : TaskTables) : TaskCall → Prop
  | .renew fence now => ∀ row, tables.tasks.get fence.handle.taskId = some row →
      RenewalDue row.snapshot fence now → now + processTaskLeaseMs ≤ 2 ^ 53 - 1
  | _ => True

instance (task : ProcessTaskSnapshot) (fence : ProcessTaskFence) (now : ℤ) :
    Decidable (RenewalDue task fence now) :=
  decidable_of_iff ((task.handle = fence.handle ∧ task.revision = fence.expectedRevision)
      ∧ (task.state ≠ .terminal ∧ task.supervisor.runId = fence.supervisorRunId)
      ∧ (IsSafeInteger now ∧ now < task.supervisor.leaseExpiresAt) ∧ (task.createdAt : ℤ) ≤ now
      ∧ (task.supervisor.leaseExpiresAt : ℤ) - processTaskLeaseMs + processTaskLeaseRenewalMs ≤ now)
    ⟨fun ⟨⟨h₁, h₂⟩, ⟨h₃, h₄⟩, ⟨h₅, h₆⟩, h₇, h₈⟩ => ⟨h₁, h₂, h₃, h₄, h₅, h₆, h₇, h₈⟩,
      fun ⟨h₁, h₂, h₃, h₄, h₅, h₆, h₇, h₈⟩ => ⟨⟨h₁, h₂⟩, ⟨h₃, h₄⟩, ⟨h₅, h₆⟩, h₇, h₈⟩⟩

instance (tables : TaskTables) (call : TaskCall) : Decidable (tables.RenewsSafely call) :=
  match call with
  | .renew fence now =>
    inferInstanceAs (Decidable (∀ row ∈ tables.tasks.get fence.handle.taskId,
      RenewalDue row.snapshot fence now → now + processTaskLeaseMs ≤ 2 ^ 53 - 1))
  | .create _ | .transition .. | .reconcile .. | .claimWake _ | .acknowledgeWake .. | .cleanup .. =>
    .isTrue trivial

/-! ## One call is one move -/

section
variable {taskStream : ProcessTaskHandle → String} {tables tables' : TaskTables}
  {task : ProcessTaskSnapshot} {handle : ProcessTaskHandle} {change : TaskChange} {now : ℤ}

theorem loadTask_ok :
    tables.loadTask handle = .ok task ↔
      ∃ row, tables.tasks.get handle.taskId = some row ∧ row.Reads ∧ row.snapshot.handle = handle
        ∧ task = row.snapshot := by
  rw [TaskTables.loadTask]
  cases h : tables.tasks.get handle.taskId with
  | none => simp [readTaskRow]
  | some row =>
    rw [readTaskRow_ok]
    simp [eq_comm]

/-- **What is recorded** is appended to the journal and becomes the row. -/
theorem record_ok (h : tables.record taskStream task change now = .ok tables') :
    task.Schema ∧ task.revision = lastSequence (tables.journal taskStream task.handle) + 1
      ∧ tables' = tables.recorded taskStream task change := by
  obtain ⟨events, hevents, h⟩ := except_bind_ok.1 h
  obtain ⟨-, hschema, hrevision, rfl⟩ := appendTaskEvent_ok.1 hevents
  refine ⟨hschema, hrevision, ?_⟩
  rw [TaskTables.recorded]
  split_ifs at h ⊢ with hstate
  · obtain ⟨-, -, h⟩ := except_bind_ok.1 h
    exact except_pure_ok.1 h
  · exact except_pure_ok.1 h

variable {fence : ProcessTaskFence} {transition : ProcessTaskTransition}

/-- A transition of a task that is readable is what may follow it. -/
theorem follows_of_transition {current : ProcessTaskSnapshot}
    (h : transitionProcessTask current fence transition now = .ok task) (htask : task.Schema) :
    Follows current task transition.change := by
  obtain ⟨hadmits, hmay, rfl⟩ := transitionProcessTask_ok.1 h
  have hunsealed := hadmits.unsealed
  suffices hstate : current.state.rank ≤ (current.changed transition).state.rank
      ∧ (current.state.rank + 1 < (current.changed transition).state.rank →
        transition.change.skips = true)
      ∧ ((current.changed transition).state = .terminal ↔ transition.change.seals = true) from
    { handle := by simp, revision := by simp, schema := htask, unsealed := hunsealed
      state := hstate.1, skips := hstate.2.1, seals := hstate.2.2
      kept := by cases transition <;> exact TaskChange.noConfusion }
  cases transition with
  | started | sealed terminal =>
    simp [ProcessTaskSnapshot.changed, hmay.1, ProcessTaskState.rank, ProcessTaskTransition.change,
      TaskChange.seals]
  | attachment attachment =>
    simp [ProcessTaskSnapshot.changed, hunsealed, ProcessTaskTransition.change, TaskChange.seals]
  | settling =>
    cases hstate : current.state <;>
      simp_all [ProcessTaskSnapshot.changed, ProcessTaskState.rank, ProcessTaskTransition.change,
        TaskChange.seals, TaskChange.skips]

theorem withLease_schema {leaseExpiresAt : ℕ} (h : task.Schema) (hsafe : leaseExpiresAt ≤ 2 ^ 53 - 1) :
    (task.withLease leaseExpiresAt).Schema := by
  obtain ⟨⟨hhandle, hrevision, howner, ⟨hrun, hprocess, -⟩, hrest⟩, hshape, hagrees⟩ := h
  have hlease : isTimestamp leaseExpiresAt = true := decide_eq_true (isSafeInteger_natCast.2 hsafe)
  exact ⟨⟨hhandle, hrevision, howner, ⟨hrun, hprocess, hlease⟩, hrest⟩, hshape, hagrees⟩

open TaskTables in
/-- A renewal writes a lease that is later and can be read. -/
theorem moves_of_renew (h : tables.renew fence now = .ok tables')
    (hsafe : tables.RenewsSafely (.renew fence now)) : Moves taskStream tables tables' := by
  obtain ⟨task, hload, h⟩ := except_bind_ok.1 h
  obtain ⟨row, hrow, hreads, hhandle, rfl⟩ := loadTask_ok.1 hload
  simp only [except_bind_ok, refuseIf_ok] at h
  obtain ⟨-, hrevision, -, hunsealed, -, hguards, h⟩ := h
  push Not at hguards hrevision
  have hid : fence.handle.taskId = row.taskId := by rw [← hhandle, hreads.handle]
  rw [hid] at hrow
  split_ifs at h with hdue
  · cases except_pure_ok.1 h
    exact .same
  · cases except_pure_ok.1 h
    have hsafe := hsafe row (hid ▸ hrow) ⟨hhandle, hrevision, hunsealed, hguards.1, hguards.2.1,
      hguards.2.2.1, hguards.2.2.2, not_lt.1 hdue⟩
    have hnow : (now.toNat : ℤ) = now := Int.toNat_of_nonneg (le_trans (by omega) hguards.2.2.2)
    simp only [processTaskLeaseMs, processTaskLeaseRenewalMs] at hdue hsafe ⊢
    exact .renewed row _ hrow hreads hunsealed (by omega) (by omega)

open TaskTables in
theorem moves_of_transition
    {owned : Bool} (h : tables.transition taskStream fence transition now owned = .ok tables') :
    Moves taskStream tables tables' := by
  obtain ⟨current, hload, h⟩ := except_bind_ok.1 h
  obtain ⟨row, hrow, hreads, hhandle, rfl⟩ := loadTask_ok.1 hload
  have hid : fence.handle.taskId = row.taskId := by rw [← hhandle, hreads.handle]
  rcases htask : transitionProcessTask row.snapshot fence transition now with refusal | task
  · rw [htask] at h
    cases h
  · rw [htask] at h
    simp only [except_bind_ok, refuseIf_ok] at h
    obtain ⟨-, hschema, -, -, h⟩ := h
    obtain ⟨-, -, rfl⟩ := record_ok h
    exact .recorded row task transition.change (hid ▸ hrow) hreads
      (follows_of_transition htask (not_not.1 hschema))

open TaskTables in
theorem moves_of_reconcile {expected : ProcessTaskSnapshot} {replaced : Bool}
    (h : tables.reconcile taskStream expected replaced now = .ok tables') :
    Moves taskStream tables tables' := by
  obtain ⟨current, hload, h⟩ := except_bind_ok.1 h
  obtain ⟨row, hrow, hreads, hhandle, rfl⟩ := loadTask_ok.1 hload
  have hid : expected.handle.taskId = row.taskId := by rw [← hhandle, hreads.handle]
  simp only [except_bind_ok, refuseIf_ok] at h
  obtain ⟨-, -, -, hunsealed, -, -, h⟩ := h
  obtain ⟨hschema, -, rfl⟩ := record_ok h
  refine .recorded row _ .reconciled (hid ▸ hrow) hreads ⟨rfl, rfl, hschema, hunsealed, ?_,
    fun _ => rfl, iff_of_true rfl rfl, TaskChange.noConfusion⟩
  exact row.snapshot.state.rank_le

open TaskTables in
theorem moves_of_create (h : tables.create taskStream task = .ok tables') :
    Moves taskStream tables tables' := by
  simp only [create, except_bind_ok, refuseIf_ok] at h
  obtain ⟨-, hguards, -, hfresh, -, hsize, events, hevents, h⟩ := h
  push Not at hguards hfresh
  obtain ⟨-, -, -, rfl⟩ := appendTaskEvent_ok.1 hevents
  cases except_pure_ok.1 h
  have hrecorded : tables.recorded taskStream task .created
      = (tables.putEvents (taskStream task.handle) (tables.journal taskStream task.handle
        ++ [⟨task.revision, .created, task⟩])).putRow task := by
    simp [recorded, hguards.2.1]
  rw [← hrecorded]
  exact .created task hguards.1 hguards.2.1 hguards.2.2.1 hfresh.1 hfresh.2 (not_le.1 hsize)

open TaskTables in
theorem moves_of_cleanup {expectedRevision : ℕ} {needed joined : Bool}
    (h : tables.cleanup taskStream handle expectedRevision now needed joined = .ok tables') :
    Moves taskStream tables tables' := by
  unfold cleanup at h
  rcases hload : tables.loadTask handle with failure | task
  · rw [hload] at h
    dsimp only at h
    split_ifs at h
    cases h
    exact .same
  · rw [hload] at h
    obtain ⟨row, hrow, hreads, hhandle, rfl⟩ := loadTask_ok.1 hload
    have hid : handle.taskId = row.taskId := by rw [← hhandle, hreads.handle]
    simp only [except_bind_ok, refuseIf_ok] at h
    obtain ⟨-, -, -, hbusy, -, -, -, -, -, -, events, hevents, h⟩ := h
    push Not at hbusy
    obtain ⟨-, -, -, rfl⟩ := appendTaskEvent_ok.1 hevents
    cases except_pure_ok.1 h
    rw [← hhandle]
    exact .cleaned row (hid ▸ hrow) hreads hbusy.1

theorem loadWake_ok {wake : TaskWake} (h : tables.loadWake handle = .ok wake) :
    tables.wakes handle = some wake ∧ wake.attempts ≤ maxProcessTaskWakeAttempts := by
  unfold TaskTables.loadWake at h
  cases hwake : tables.wakes handle with
  | none => simp [hwake] at h
  | some =>
    simp only [hwake] at h
    split_ifs at h with hattempts
    cases h
    exact ⟨rfl, not_lt.1 hattempts⟩

open TaskTables in
theorem moves_of_claimWake : Moves taskStream tables (tables.claimWake handle) := by
  unfold claimWake
  rcases hload : tables.loadWake handle with failure | wake
  · exact .same
  · obtain ⟨hwake, hattempts⟩ := loadWake_ok hload
    dsimp only
    split_ifs with hstate hgiven
    · exact .same
    · exact .woken handle wake _ hwake rfl hattempts
    · exact .woken handle wake _ hwake rfl (not_le.1 hgiven)

open TaskTables in
theorem moves_of_acknowledgeWake {notificationId : String} :
    Moves taskStream tables (tables.acknowledgeWake handle notificationId) := by
  unfold acknowledgeWake
  rcases hload : tables.loadWake handle with failure | wake
  · exact .same
  · obtain ⟨hwake, hattempts⟩ := loadWake_ok hload
    dsimp only
    split_ifs with hid
    · exact .same
    · exact .woken handle wake _ hwake rfl hattempts

/-- **Every call is a move** if it does not renew a lease past the last safe integer. -/
theorem moves_of_step {call : TaskCall} (hsafe : tables.RenewsSafely call)
    (h : tables.step taskStream call = some tables') : TaskTables.Moves taskStream tables tables' := by
  have hwritten : ∀ written : Except TaskFailure TaskTables,
      (∀ next, written = .ok next → TaskTables.Moves taskStream tables next) →
      TaskTables.Moves taskStream tables (written.toOption.getD tables) := by
    intro written hok
    cases written with
    | error => exact .same
    | ok next => exact hok next rfl
  cases Option.some.inj h
  refine hwritten _ fun next hnext => ?_
  cases call with
  | create => exact moves_of_create hnext
  | transition fence _ now => exact moves_of_transition hnext
  | renew fence now => exact moves_of_renew hnext hsafe
  | reconcile _ _ now => exact moves_of_reconcile hnext
  | claimWake handle =>
    cases hnext
    exact moves_of_claimWake
  | acknowledgeWake handle =>
    cases hnext
    exact moves_of_acknowledgeWake
  | cleanup handle _ now => exact moves_of_cleanup hnext

end

/-! ## What every call keeps -/

/-- How often a stream tells that its task was sealed. -/
def sealings (events : List TaskEvent) : ℕ := events.countP fun event => event.change.seals

/-- One event of a task after another: the state goes on, it leaves one out only where a task starts to
settle or is reconciled, and nothing but the end of its row follows the end of a task. -/
structure TaskEvent.Precedes (prior next : TaskEvent) : Prop where
  state : prior.task.state.rank ≤ next.task.state.rank
  skips : prior.task.state.rank + 1 < next.task.state.rank → next.change.skips = true
  sealed : prior.task.state = .terminal → next.change = .cleaned

/-- **A row agrees with its journal**: the last event holds its snapshot up to a lease that is not
later, there is an event for every revision, and the task was sealed, and has a wake, if it is over. -/
structure TaskTables.Journalled (taskStream : ProcessTaskHandle → String) (tables : TaskTables)
    (row : TaskRow) : Prop where
  reads : row.Reads
  length : (tables.journal taskStream row.snapshot.handle).length = row.revision
  last : ∃ event, (tables.journal taskStream row.snapshot.handle).getLast? = some event
    ∧ (event.task.Schema ∧ event.sequence = event.task.revision) ∧ event.change ≠ .cleaned
    ∧ event.task.supervisor.leaseExpiresAt ≤ row.snapshot.supervisor.leaseExpiresAt
    ∧ event.task.withLease row.snapshot.supervisor.leaseExpiresAt = row.snapshot
  sealings : sealings (tables.journal taskStream row.snapshot.handle)
    = if row.snapshot.state = .terminal then 1 else 0
  wake : if row.snapshot.state = .terminal then
      ∃ wake, tables.wakes row.snapshot.handle = some wake ∧ wake.attempts ≤ maxProcessTaskWakeAttempts
    else tables.wakes row.snapshot.handle = none

/-- The invariant of the tables. -/
structure TaskTables.Sound (taskStream : ProcessTaskHandle → String) (tables : TaskTables) : Prop where
  sequenced : ∀ stream, (tables.events stream).map (·.sequence)
    = List.range' 1 (tables.events stream).length
  chained : ∀ stream, (tables.events stream).IsChain TaskEvent.Precedes
  once : ∀ stream, Orchestration.sealings (tables.events stream) ≤ 1
  keyed : ∀ taskId row, tables.tasks.get taskId = some row → row.taskId = taskId
  rows : ∀ taskId row, tables.tasks.get taskId = some row → tables.Journalled taskStream row
  apart : ∀ taskId taskId' row row', tables.tasks.get taskId = some row →
    tables.tasks.get taskId' = some row' →
    taskStream row.snapshot.handle = taskStream row'.snapshot.handle → taskId = taskId'
  wakes : ∀ handle, tables.wakes handle ≠ none →
    ∃ row, tables.tasks.get handle.taskId = some row ∧ row.snapshot.handle = handle
  size : tables.tasks.size ≤ maxRetainedProcessTasks

section
variable {taskStream : ProcessTaskHandle → String} {tables tables' : TaskTables} {row row' : TaskRow}
  {task : ProcessTaskSnapshot} {change : TaskChange} {handle : ProcessTaskHandle}

theorem recorded_tasks : (tables.recorded taskStream task change).tasks
    = tables.tasks.set task.handle.taskId
      ⟨task.handle.taskId, task.handle.generation, task.revision, task⟩ := by
  unfold TaskTables.recorded
  split_ifs <;> rfl

theorem recorded_events : (tables.recorded taskStream task change).events
    = Function.update tables.events (taskStream task.handle)
      (tables.journal taskStream task.handle ++ [⟨task.revision, change, task⟩]) := by
  unfold TaskTables.recorded
  split_ifs <;> rfl

theorem recorded_wakes_ne (h : handle ≠ task.handle) :
    (tables.recorded taskStream task change).wakes handle = tables.wakes handle := by
  unfold TaskTables.recorded
  split_ifs
  · exact Function.update_of_ne h _ _
  · rfl

theorem recorded_wakes_self :
    (tables.recorded taskStream task change).wakes task.handle = if task.state = .terminal then
      some ⟨"wake:" ++ taskEventId (taskStream task.handle) task.revision,
        taskEventId (taskStream task.handle) task.revision, 0, .pending⟩
      else tables.wakes task.handle := by
  unfold TaskTables.recorded
  split_ifs
  · exact Function.update_self _ _ _
  · rfl

/-- A row whose stream and wake are left alone stays journalled. -/
theorem TaskTables.Journalled.frame (h : tables.Journalled taskStream row)
    (hjournal : tables'.journal taskStream row.snapshot.handle
      = tables.journal taskStream row.snapshot.handle)
    (hwake : tables'.wakes row.snapshot.handle = tables.wakes row.snapshot.handle) :
    tables'.Journalled taskStream row where
  reads := h.reads
  length := hjournal ▸ h.length
  last := hjournal ▸ h.last
  sealings := hjournal ▸ h.sealings
  wake := hwake ▸ h.wake

theorem TaskTables.Journalled.journal_ne_nil (h : tables.Journalled taskStream row) :
    tables.journal taskStream row.snapshot.handle ≠ [] := by
  obtain ⟨event, hlast, -⟩ := h.last
  intro hnil
  rw [hnil] at hlast
  cases hlast

variable {event : TaskEvent} {events : List TaskEvent}

/-- The last event of a task tells its state. -/
theorem TaskTables.Journalled.last_state (h : tables.Journalled taskStream row)
    (hlast : (tables.journal taskStream row.snapshot.handle).getLast? = some event) :
    event.task.state = row.snapshot.state := by
  obtain ⟨found, hfound, -, -, -, htask⟩ := h.last
  cases Option.some.inj (hfound.symm.trans hlast)
  rw [← htask]
  rfl

theorem TaskRow.Reads.handle_taskId (h : row.Reads) : row.snapshot.handle.taskId = row.taskId := by
  rw [h.handle]

/-- A stream with one event more is as good as it was. -/
theorem sequenced_concat (h : events.map (·.sequence) = List.range' 1 events.length)
    (hsequence : event.sequence = events.length + 1) :
    (events ++ [event]).map (·.sequence) = List.range' 1 (events ++ [event]).length := by
  rw [List.map_append, h, List.length_append, List.length_singleton, List.range'_1_concat]
  simp [hsequence, Nat.add_comm]

theorem chained_concat (h : events.IsChain TaskEvent.Precedes)
    (hlast : ∀ prior, events.getLast? = some prior → prior.Precedes event) :
    (events ++ [event]).IsChain TaskEvent.Precedes := by
  refine List.isChain_append.2 ⟨h, List.isChain_singleton _, fun prior hprior _ hnext => ?_⟩
  cases hnext
  exact hlast prior hprior

theorem sealings_concat (events : List TaskEvent) (event : TaskEvent) :
    sealings (events ++ [event]) = sealings events + if event.change.seals then 1 else 0 := by
  rw [sealings, List.countP_append, List.countP_singleton]
  rfl

/-- A task that is recorded under a row of its own, or under none, is journalled, and nothing else
changes. -/
theorem sound_recorded (hsound : tables.Sound taskStream) (hschema : task.Schema)
    (hrevision : task.revision = (tables.journal taskStream task.handle).length + 1)
    (hopen : sealings (tables.journal taskStream task.handle) = 0)
    (hwake : tables.wakes task.handle = none) (hseals : task.state = .terminal ↔ change.seals = true)
    (hkept : change ≠ .cleaned)
    (hchain : ∀ event, (tables.journal taskStream task.handle).getLast? = some event →
      event.Precedes ⟨task.revision, change, task⟩)
    (hother : ∀ taskId row, tables.tasks.get taskId = some row → taskId ≠ task.handle.taskId →
      taskStream row.snapshot.handle ≠ taskStream task.handle)
    (hkey : ∀ row, tables.tasks.get task.handle.taskId = some row → row.snapshot.handle = task.handle)
    (hsize : task.handle.taskId ∈ tables.tasks.keys ∨ tables.tasks.size < maxRetainedProcessTasks) :
    (tables.recorded taskStream task change).Sound taskStream := by
  have hget : ∀ taskId row, (tables.recorded taskStream task change).tasks.get taskId = some row →
      (taskId = task.handle.taskId
        ∧ row = ⟨task.handle.taskId, task.handle.generation, task.revision, task⟩)
      ∨ (taskId ≠ task.handle.taskId ∧ tables.tasks.get taskId = some row) := by
    intro taskId row h
    rw [recorded_tasks, OrderedMap.get_set] at h
    split_ifs at h with hid
    · exact .inl ⟨hid, (Option.some.inj h).symm⟩
    · exact .inr ⟨hid, h⟩
  have hjournal : (tables.recorded taskStream task change).journal taskStream task.handle
      = tables.journal taskStream task.handle ++ [⟨task.revision, change, task⟩] := by
    rw [TaskTables.journal, recorded_events, Function.update_self]
  have hframe : ∀ stream, stream ≠ taskStream task.handle →
      (tables.recorded taskStream task change).events stream = tables.events stream := by
    intro stream h
    rw [recorded_events, Function.update_of_ne h]
  refine ⟨fun stream => ?_, fun stream => ?_, fun stream => ?_, fun taskId row h => ?_,
    fun taskId row h => ?_, fun taskId taskId' row row' h h' hstream => ?_, fun handle h => ?_, ?_⟩
  · by_cases h : stream = taskStream task.handle
    · subst h
      rw [show (tables.recorded taskStream task change).events (taskStream task.handle) = _
        from hjournal]
      exact sequenced_concat (hsound.sequenced _) hrevision
    · rw [hframe stream h]
      exact hsound.sequenced stream
  · by_cases h : stream = taskStream task.handle
    · subst h
      rw [show (tables.recorded taskStream task change).events (taskStream task.handle) = _
        from hjournal]
      exact chained_concat (hsound.chained _) hchain
    · rw [hframe stream h]
      exact hsound.chained stream
  · by_cases h : stream = taskStream task.handle
    · subst h
      change sealings ((tables.recorded taskStream task change).journal taskStream task.handle) ≤ 1
      rw [hjournal, sealings_concat, hopen, Nat.zero_add]
      split_ifs <;> decide
    · rw [hframe stream h]
      exact hsound.once stream
  · rcases hget taskId row h with ⟨rfl, rfl⟩ | ⟨-, h⟩
    · rfl
    · exact hsound.keyed taskId row h
  · rcases hget taskId row h with ⟨rfl, rfl⟩ | ⟨hid, h⟩
    · refine ⟨⟨hschema, rfl, rfl⟩, ?_, ⟨⟨task.revision, change, task⟩, ?_, ⟨hschema, rfl⟩, hkept,
        le_rfl, rfl⟩, ?_, ?_⟩
      · rw [hjournal, List.length_append, List.length_singleton, ← hrevision]
      · rw [hjournal, List.getLast?_concat]
      · rw [hjournal, sealings_concat, hopen, Nat.zero_add]
        simp [hseals]
      · rw [recorded_wakes_self]
        split_ifs
        · exact ⟨_, rfl, Nat.zero_le _⟩
        · exact hwake
    · have hrow := hsound.rows taskId row h
      have hhandle : row.snapshot.handle ≠ task.handle := fun heq => hid (by
        rw [← heq, hrow.reads.handle_taskId, hsound.keyed taskId row h])
      exact hrow.frame (hframe _ (hother taskId row h hid)) (recorded_wakes_ne hhandle)
  · rcases hget taskId row h with ⟨rfl, rfl⟩ | ⟨hid, h⟩
    · rcases hget taskId' row' h' with ⟨rfl, rfl⟩ | ⟨hid', h'⟩
      · rfl
      · exact absurd hstream.symm (hother taskId' row' h' hid')
    · rcases hget taskId' row' h' with ⟨rfl, rfl⟩ | ⟨hid', h'⟩
      · exact absurd hstream (hother taskId row h hid)
      · exact hsound.apart taskId taskId' row row' h h' hstream
  · rw [recorded_tasks, OrderedMap.get_set]
    by_cases hhandle : handle = task.handle
    · exact ⟨_, if_pos (by rw [hhandle]), hhandle.symm⟩
    · rw [recorded_wakes_ne hhandle] at h
      obtain ⟨row, hrow, hsame⟩ := hsound.wakes handle h
      refine ⟨row, ?_, hsame⟩
      rw [if_neg fun hid => ?_, hrow]
      exact absurd (hkey row (hid ▸ hrow)) (hsame ▸ hhandle)
  · rw [recorded_tasks, ← OrderedMap.length_keys]
    rcases hsize with hmem | hlt
    · rw [OrderedMap.keys_set_of_mem _ hmem, OrderedMap.length_keys]
      exact hsound.size
    · by_cases hmem : task.handle.taskId ∈ tables.tasks.keys
      · rw [OrderedMap.keys_set_of_mem _ hmem, OrderedMap.length_keys]
        exact hsound.size
      · rw [OrderedMap.keys_set_of_not_mem _ hmem, List.length_append, OrderedMap.length_keys]
        exact hlt

/-- The streams of other tasks are others. -/
theorem TaskTables.Sound.stream_ne (hsound : tables.Sound taskStream)
    (hrow : tables.tasks.get row.taskId = some row) (hhandle : task.handle = row.snapshot.handle) :
    ∀ taskId row, tables.tasks.get taskId = some row → taskId ≠ task.handle.taskId →
      taskStream row.snapshot.handle ≠ taskStream task.handle := by
  intro taskId other h hid hstream
  rw [hhandle] at hstream hid
  have heq := hsound.apart taskId row.taskId other row h hrow hstream
  exact hid (heq.trans (hsound.rows _ _ hrow).reads.handle_taskId.symm)

/-- A renewal changes the lease of one row. -/
theorem sound_renewed {leaseExpiresAt : ℕ} (hsound : tables.Sound taskStream)
    (hrow : tables.tasks.get row.taskId = some row) (hunsealed : row.snapshot.state ≠ .terminal)
    (hlater : row.snapshot.supervisor.leaseExpiresAt ≤ leaseExpiresAt)
    (hsafe : leaseExpiresAt ≤ 2 ^ 53 - 1) :
    (tables.putRow (row.snapshot.withLease leaseExpiresAt)).Sound taskStream := by
  have hjournalled := hsound.rows _ _ hrow
  have hid := hjournalled.reads.handle_taskId
  have hget : ∀ taskId found,
      (tables.putRow (row.snapshot.withLease leaseExpiresAt)).tasks.get taskId = some found →
      ∃ old, tables.tasks.get taskId = some old ∧ found.taskId = taskId
        ∧ found.snapshot.handle = old.snapshot.handle
        ∧ (found = old ∨ old = row ∧ found = ⟨row.snapshot.handle.taskId,
          row.snapshot.handle.generation, row.snapshot.revision, row.snapshot.withLease leaseExpiresAt⟩) := by
    intro taskId found h
    change (tables.tasks.set row.snapshot.handle.taskId _).get taskId = some found at h
    rw [OrderedMap.get_set] at h
    split_ifs at h with heq
    · cases Option.some.inj h
      exact ⟨row, by rw [heq, hid, hrow], heq.symm, rfl, .inr ⟨rfl, rfl⟩⟩
    · exact ⟨found, h, hsound.keyed taskId found h, rfl, .inl rfl⟩
  refine ⟨hsound.sequenced, hsound.chained, hsound.once, fun taskId found h => ?_,
    fun taskId found h => ?_, fun taskId taskId' found found' h h' hstream => ?_, fun handle h => ?_, ?_⟩
  · obtain ⟨-, -, hkeyed, -⟩ := hget taskId found h
    exact hkeyed
  · obtain ⟨old, hold, -, -, rfl | ⟨rfl, rfl⟩⟩ := hget taskId found h
    · exact (hsound.rows taskId found hold).frame rfl rfl
    · obtain ⟨event, hlast, hevent, hkept, hlease, htask⟩ := hjournalled.last
      refine ⟨⟨withLease_schema hjournalled.reads.schema hsafe, rfl, rfl⟩,
        hjournalled.length.trans hjournalled.reads.revision.symm,
        ⟨event, hlast, hevent, hkept, hlease.trans hlater, ?_⟩, hjournalled.sealings,
        hjournalled.wake⟩
      rw [← htask]
      rfl
  · obtain ⟨old, hold, -, hhandle, -⟩ := hget taskId found h
    obtain ⟨old', hold', -, hhandle', -⟩ := hget taskId' found' h'
    rw [hhandle, hhandle'] at hstream
    exact hsound.apart taskId taskId' old old' hold hold' hstream
  · obtain ⟨old, hold, hsame⟩ := hsound.wakes handle h
    change ∃ found, (tables.tasks.set row.snapshot.handle.taskId _).get handle.taskId = some found ∧ _
    rw [OrderedMap.get_set]
    split_ifs with heq
    · rw [heq, hid, hrow] at hold
      cases hold
      exact ⟨_, rfl, hsame⟩
    · exact ⟨old, hold, hsame⟩
  · change (tables.tasks.set _ _).size ≤ _
    rw [← OrderedMap.length_keys, OrderedMap.keys_set_of_mem _ (OrderedMap.mem_keys.2 ⟨row, hid ▸ hrow⟩),
      OrderedMap.length_keys]
    exact hsound.size

/-- A wake that is claimed or acknowledged is still the wake of a task that is over. -/
theorem sound_woken {wake wake' : TaskWake}
    (hsound : tables.Sound taskStream) (hwake : tables.wakes handle = some wake)
    (hattempts : wake'.attempts ≤ maxProcessTaskWakeAttempts) :
    (tables.putWake handle (some wake')).Sound taskStream := by
  refine ⟨hsound.sequenced, hsound.chained, hsound.once, hsound.keyed, fun taskId row h => ?_, hsound.apart,
    fun other h => ?_, hsound.size⟩
  · have hrow := hsound.rows taskId row h
    by_cases hhandle : row.snapshot.handle = handle
    · refine ⟨hrow.reads, hrow.length, hrow.last, hrow.sealings, ?_⟩
      have hold := hrow.wake
      rw [hhandle, hwake] at hold
      rw [hhandle]
      split_ifs at hold ⊢ with hstate
      exact ⟨wake', Function.update_self _ _ _, hattempts⟩
    · exact hrow.frame rfl (Function.update_of_ne hhandle _ _)
  · by_cases hother : other = handle
    · exact hsound.wakes other (by rw [hother, hwake]; exact Option.some_ne_none _)
    · exact hsound.wakes other (by rwa [← Function.update_of_ne hother (some wake') tables.wakes])

/-- A task that is cleaned up leaves its stream, and the other tasks alone. -/
theorem sound_cleaned (hsound : tables.Sound taskStream)
    (hrow : tables.tasks.get row.taskId = some row) :
    (tables.cleaned taskStream row.snapshot).Sound taskStream := by
  have hjournalled := hsound.rows _ _ hrow
  have hid := hjournalled.reads.handle_taskId
  set stream := taskStream row.snapshot.handle with hstream
  have hevents : (tables.cleaned taskStream row.snapshot).events = Function.update tables.events stream
      (tables.journal taskStream row.snapshot.handle ++ [⟨row.snapshot.revision + 1, .cleaned,
        { row.snapshot with revision := row.snapshot.revision + 1 }⟩]) := rfl
  have hget : ∀ taskId found, (tables.cleaned taskStream row.snapshot).tasks.get taskId = some found →
      taskId ≠ row.taskId ∧ tables.tasks.get taskId = some found := by
    intro taskId found h
    change (tables.tasks.delete row.snapshot.handle.taskId).get taskId = some found at h
    rw [hid, OrderedMap.get_delete] at h
    split_ifs at h with heq
    exact ⟨heq, h⟩
  refine ⟨fun other => ?_, fun other => ?_, fun other => ?_, fun taskId found h => ?_,
    fun taskId found h => ?_, fun taskId taskId' found found' h h' heq => ?_, fun handle h => ?_, ?_⟩
  · by_cases hother : other = stream
    · subst hother
      rw [hevents, Function.update_self]
      refine sequenced_concat (hsound.sequenced _) ?_
      rw [hjournalled.reads.revision, hjournalled.length]
    · rw [hevents, Function.update_of_ne hother]
      exact hsound.sequenced other
  · by_cases hother : other = stream
    · subst hother
      rw [hevents, Function.update_self]
      refine chained_concat (hsound.chained _) fun _ hlast => ?_
      have hstate := hjournalled.last_state hlast
      exact ⟨(congrArg ProcessTaskState.rank hstate).le,
        fun hskips => absurd hskips (by rw [hstate]; exact (Nat.lt_succ_self _).not_gt), fun _ => rfl⟩
    · rw [hevents, Function.update_of_ne hother]
      exact hsound.chained other
  · by_cases hother : other = stream
    · subst hother
      rw [hevents, Function.update_self, sealings_concat]
      exact hsound.once _
    · rw [hevents, Function.update_of_ne hother]
      exact hsound.once other
  · exact hsound.keyed taskId found (hget taskId found h).2
  · obtain ⟨hne, h⟩ := hget taskId found h
    have hfound := hsound.rows taskId found h
    have hother : taskStream found.snapshot.handle ≠ stream := fun heq =>
      hne (hsound.apart taskId row.taskId found row h hrow heq)
    refine hfound.frame (Function.update_of_ne hother _ _) (Function.update_of_ne ?_ _ _)
    exact fun heq => hother (by rw [heq])
  · exact hsound.apart taskId taskId' found found' (hget _ _ h).2 (hget _ _ h').2 heq
  · change Function.update tables.wakes row.snapshot.handle none handle ≠ none at h
    by_cases hhandle : handle = row.snapshot.handle
    · rw [hhandle, Function.update_self] at h
      exact absurd rfl h
    · rw [Function.update_of_ne hhandle] at h
      obtain ⟨found, hfound, hsame⟩ := hsound.wakes handle h
      refine ⟨found, ?_, hsame⟩
      change (tables.tasks.delete row.snapshot.handle.taskId).get handle.taskId = some found
      rw [hid, OrderedMap.get_delete, if_neg fun heq => ?_, hfound]
      rw [heq, hrow] at hfound
      exact hhandle (hsame ▸ (Option.some.inj hfound) ▸ rfl)
  · exact (List.length_filter_le _ _).trans hsound.size

/-- **Every move keeps the tables sound.** -/
theorem sound_moves (hsound : tables.Sound taskStream)
    (hmoves : TaskTables.Moves taskStream tables tables') : tables'.Sound taskStream := by
  cases hmoves with
  | same => exact hsound
  | created task hschema hstate hrevision hrow hjournal hsize =>
    have hother : ∀ taskId row, tables.tasks.get taskId = some row → taskId ≠ task.handle.taskId →
        taskStream row.snapshot.handle ≠ taskStream task.handle := by
      intro taskId row h _ hstream
      refine (hsound.rows taskId row h).journal_ne_nil ?_
      rw [TaskTables.journal, hstream]
      exact hjournal
    have hwake : tables.wakes task.handle = none := by
      by_contra hwake
      obtain ⟨row, hget, -⟩ := hsound.wakes task.handle hwake
      rw [hrow] at hget
      cases hget
    refine sound_recorded hsound hschema ?_ ?_ hwake ?_ TaskChange.noConfusion ?_ hother ?_
      (.inr hsize)
    · rw [hjournal, hrevision]
      rfl
    · rw [hjournal]
      rfl
    · simp [hstate, TaskChange.seals]
    · intro event h
      rw [hjournal] at h
      cases h
    · intro row h
      rw [hrow] at h
      cases h
  | recorded row task _ hrow hreads hfollows =>
    have hjournalled := hsound.rows _ _ hrow
    have hhandle := hfollows.handle
    have hopen := hjournalled.sealings
    have hwake := hjournalled.wake
    rw [if_neg hfollows.unsealed, ← hhandle] at hopen hwake
    refine sound_recorded hsound hfollows.schema ?_ hopen hwake hfollows.seals hfollows.kept ?_
      (hsound.stream_ne hrow hhandle) ?_ (.inl ?_)
    · rw [hhandle, hjournalled.length, hfollows.revision, hreads.revision]
    · intro event hlast
      rw [hhandle] at hlast
      have hstate := hjournalled.last_state hlast
      exact ⟨hstate ▸ hfollows.state, hstate ▸ hfollows.skips,
        fun hsealed => absurd (hstate ▸ hsealed) hfollows.unsealed⟩
    · intro other h
      rw [hhandle, hreads.handle_taskId, hrow] at h
      exact (Option.some.inj h) ▸ hhandle.symm
    · rw [hhandle, hreads.handle_taskId]
      exact OrderedMap.mem_keys.2 ⟨row, hrow⟩
  | renewed row _ hrow hreads hunsealed hlater hsafe =>
    exact sound_renewed hsound hrow hunsealed hlater hsafe
  | woken handle wake _ hwake _ hattempts => exact sound_woken hsound hwake hattempts
  | cleaned row hrow hreads hsealed => exact sound_cleaned hsound hrow

end

end Falryn.Orchestration
