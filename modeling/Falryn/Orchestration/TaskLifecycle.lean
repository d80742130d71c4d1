import Falryn.Orchestration.TaskJournal

/-!
# The lifecycle of process tasks

Over a run of the store: rows and journals agree, so that the list of the tasks can be read; a task
goes on through its states and is sealed once; and what has a journal is never created again.  A lease
that is renewed past the last safe integer breaks the first of these: nobody looks at what a renewal
writes before it is read.
-/

namespace Falryn.Orchestration

section
variable {taskStream : ProcessTaskHandle → String} {tables tables' later : TaskTables}
  {row row' : TaskRow} {taskId : String}

/-! ## Reading the list -/

theorem exists_mapM_ok {ε α β : Type} {f : α → Except ε β} {l : List α}
    (h : ∀ a ∈ l, ∃ b, f a = .ok b) : ∃ l', l.mapM f = .ok l' := by
  induction l with
  | nil => exact ⟨[], rfl⟩
  | cons a l ih =>
    obtain ⟨hfirst, hrest⟩ := List.forall_mem_cons.1 h
    obtain ⟨b, hb⟩ := hfirst
    obtain ⟨l', hl'⟩ := ih hrest
    exact ⟨b :: l', by rw [List.mapM_cons, hb, hl']; rfl⟩

/-- A row that agrees with its journal is listed. -/
theorem listRow_ok (h : tables.Journalled taskStream row) :
    tables.listRow taskStream row = .ok row.snapshot := by
  obtain ⟨event, hlast, hevent, hkept, hlease, htask⟩ := h.last
  refine except_bind_ok.2 ⟨row.snapshot, readTaskRow_ok.2 ⟨h.reads, ?_, rfl⟩, ?_⟩
  · nofun
  · rw [hlast]
    exact verifyTaskEvent_ok.2 ⟨hevent, hkept, hlease, htask, rfl⟩

/-- **Sound tables can be listed.** -/
theorem list_ok (h : tables.Sound taskStream) : ∃ tasks, tables.list taskStream = .ok tasks := by
  have hrows : ∀ row ∈ (tables.tasks.entries.map (·.2)).mergeSort
      fun a b => decide (a.taskId ≤ b.taskId),
      ∃ task, tables.listRow taskStream row = .ok task := by
    intro row hrow
    obtain ⟨entry, hentry, rfl⟩ := List.mem_map.1 ((List.mergeSort_perm _ _).mem_iff.1 hrow)
    exact ⟨_, listRow_ok (h.rows entry.1 entry.2 (OrderedMap.mem_entries.1 hentry))⟩
  obtain ⟨tasks, htasks⟩ := exists_mapM_ok hrows
  exact ⟨tasks, except_bind_ok.2 ⟨(), refuseIf_ok.2 (not_lt.2 h.size), htasks⟩⟩

/-! ## From one state to a later one -/

/-- What becomes of a row: the state goes on, the end of a task stays as it is, and so does the
notification of its wake. -/
structure TaskTables.Advances (tables : TaskTables) (row : TaskRow) (tables' : TaskTables)
    (row' : TaskRow) : Prop where
  state : row.snapshot.state.rank ≤ row'.snapshot.state.rank
  sealed : row.snapshot.state = .terminal → row'.snapshot = row.snapshot
  wake : ∀ wake, tables.wakes row.snapshot.handle = some wake →
    ∃ wake', tables'.wakes row.snapshot.handle = some wake' ∧ wake'.notificationId = wake.notificationId

theorem TaskTables.Advances.refl : tables.Advances row tables row :=
  ⟨le_rfl, fun _ => rfl, fun wake h => ⟨wake, h, rfl⟩⟩

theorem TaskTables.Advances.trans {row'' : TaskRow} (h : tables.Advances row tables' row')
    (hhandle : row'.snapshot.handle = row.snapshot.handle) (h' : tables'.Advances row' later row'') :
    tables.Advances row later row'' where
  state := h.state.trans h'.state
  sealed hstate := by
    have hsame := h.sealed hstate
    exact (h'.sealed (hsame ▸ hstate)).trans hsame
  wake wake hwake := by
    obtain ⟨wake', hwake', hid⟩ := h.wake wake hwake
    obtain ⟨wake'', hwake'', hid'⟩ := h'.wake wake' (hhandle ▸ hwake')
    exact ⟨wake'', hhandle ▸ hwake'', hid'.trans hid⟩

/-- A row whose wake is left alone. -/
theorem advances_of_frame (hwake : tables'.wakes row.snapshot.handle = tables.wakes row.snapshot.handle) :
    tables.Advances row tables' row :=
  ⟨le_rfl, fun _ => rfl, fun wake h => ⟨wake, hwake ▸ h, rfl⟩⟩

/-- The streams grow, and a task that is still there has gone on. -/
structure TaskTables.Continues (taskStream : ProcessTaskHandle → String) (tables tables' : TaskTables) :
    Prop where
  events : ∀ stream, tables.events stream <+: tables'.events stream
  rows : ∀ row row', tables.tasks.get row.taskId = some row → tables'.tasks.get row'.taskId = some row' →
    row'.snapshot.handle = row.snapshot.handle → tables.Advances row tables' row'

/-- The wake of another task is left alone by what is recorded of a task. -/
theorem advances_recorded_ne {task : ProcessTaskSnapshot} {change : TaskChange}
    (hsound : tables.Sound taskStream) (hrow : tables.tasks.get taskId = some row)
    (hid : taskId ≠ task.handle.taskId) :
    tables.Advances row (tables.recorded taskStream task change) row := by
  refine advances_of_frame (recorded_wakes_ne fun hhandle => hid ?_)
  rw [← hhandle, (hsound.rows _ _ hrow).reads.handle_taskId, hsound.keyed _ _ hrow]

/-- **Every row after a move** comes from a row before it, or its stream was empty. -/
theorem moves_row (hsound : tables.Sound taskStream)
    (hmoves : TaskTables.Moves taskStream tables tables')
    (hrow' : tables'.tasks.get taskId = some row') :
    (∃ row, tables.tasks.get taskId = some row ∧ row'.snapshot.handle = row.snapshot.handle
      ∧ tables.Advances row tables' row') ∨ tables.journal taskStream row'.snapshot.handle = [] := by
  cases hmoves with
  | same => exact .inl ⟨row', hrow', rfl, .refl⟩
  | created task _ _ _ hrow hjournal =>
    rw [recorded_tasks, OrderedMap.get_set] at hrow'
    split_ifs at hrow' with hid
    · cases hrow'
      exact .inr hjournal
    · exact .inl ⟨row', hrow', rfl, advances_recorded_ne hsound hrow' hid⟩
  | recorded row task change hrow hreads hfollows =>
    rw [recorded_tasks, OrderedMap.get_set] at hrow'
    split_ifs at hrow' with hid
    · cases hrow'
      rw [hid, hfollows.handle, hreads.handle_taskId]
      have hwake := (hsound.rows _ _ hrow).wake
      rw [if_neg hfollows.unsealed] at hwake
      refine .inl ⟨row, hrow, rfl, hfollows.state, fun h => absurd h hfollows.unsealed,
        fun wake h => ?_⟩
      rw [hwake] at h
      cases h
    · exact .inl ⟨row', hrow', rfl, advances_recorded_ne hsound hrow' hid⟩
  | renewed row _ hrow hreads hunsealed =>
    change (tables.tasks.set row.snapshot.handle.taskId _).get taskId = some row' at hrow'
    rw [OrderedMap.get_set] at hrow'
    split_ifs at hrow' with hid
    · cases hrow'
      rw [hid, hreads.handle_taskId]
      exact .inl ⟨row, hrow, rfl, le_rfl, fun h => absurd h hunsealed, fun wake h => ⟨wake, h, rfl⟩⟩
    · exact .inl ⟨row', hrow', rfl, advances_of_frame rfl⟩
  | woken handle wake wake' hwake hid =>
    refine .inl ⟨row', hrow', rfl, le_rfl, fun _ => rfl, fun found h => ?_⟩
    by_cases hhandle : row'.snapshot.handle = handle
    · rw [hhandle, hwake] at h
      cases h
      exact ⟨wake', by rw [hhandle]; exact Function.update_self _ _ _, hid⟩
    · exact ⟨found, (Function.update_of_ne hhandle _ _).trans h, rfl⟩
  | cleaned row hrow hreads =>
    change (tables.tasks.delete row.snapshot.handle.taskId).get taskId = some row' at hrow'
    rw [OrderedMap.get_delete] at hrow'
    split_ifs at hrow' with hid
    refine .inl ⟨row', hrow', rfl, advances_of_frame (Function.update_of_ne ?_ _ _)⟩
    intro hhandle
    refine hid ?_
    rw [← hhandle, (hsound.rows _ _ hrow').reads.handle_taskId, hsound.keyed _ _ hrow']

/-- No move shortens a stream. -/
theorem moves_events (hmoves : TaskTables.Moves taskStream tables tables') (stream : String) :
    tables.events stream <+: tables'.events stream := by
  have hupdate : ∀ (handle : ProcessTaskHandle) (event : TaskEvent), tables.events stream <+:
      Function.update tables.events (taskStream handle)
        (tables.journal taskStream handle ++ [event]) stream := by
    intro handle event
    by_cases h : stream = taskStream handle
    · rw [h, Function.update_self]
      exact List.prefix_append _ _
    · rw [Function.update_of_ne h]
  cases hmoves with
  | same | renewed | woken => exact List.prefix_rfl
  | created | recorded =>
    rw [recorded_events]
    exact hupdate _ _
  | cleaned => exact hupdate _ _

theorem TaskTables.Sound.continues_self (hsound : tables.Sound taskStream) :
    tables.Continues taskStream tables := by
  refine ⟨fun _ => List.prefix_rfl, fun row row' hrow hrow' hhandle => ?_⟩
  have hid : row'.taskId = row.taskId := by
    rw [← (hsound.rows _ _ hrow').reads.handle_taskId, hhandle,
      (hsound.rows _ _ hrow).reads.handle_taskId]
  rw [hid, hrow] at hrow'
  cases hrow'
  exact .refl

/-- **A move goes on from what went before.** -/
theorem continues_moves {start : TaskTables} (hstart : start.Sound taskStream)
    (hsound : tables.Sound taskStream) (hcontinues : start.Continues taskStream tables)
    (hmoves : TaskTables.Moves taskStream tables tables') : start.Continues taskStream tables' := by
  refine ⟨fun stream => (hcontinues.events stream).trans (moves_events hmoves stream),
    fun row _ hrow hrow' hhandle => ?_⟩
  rcases moves_row hsound hmoves hrow' with ⟨prior, hprior, hsame, hadvances⟩ | hnil
  · have hkeyed := hsound.keyed _ _ hprior
    have hfirst := hcontinues.rows row prior hrow (hkeyed ▸ hprior) (hsame.symm.trans hhandle)
    exact hfirst.trans (hsame.symm.trans hhandle) hadvances
  · refine absurd ?_ (hstart.rows _ _ hrow).journal_ne_nil
    have hprefix := hcontinues.events (taskStream row.snapshot.handle)
    rw [TaskTables.journal, hhandle] at hnil
    rw [hnil] at hprefix
    exact List.prefix_nil.1 hprefix

/-! ## Runs -/

theorem sound_empty : TaskTables.empty.Sound taskStream where
  sequenced _ := rfl
  chained _ := List.isChain_nil
  once _ := Nat.zero_le _
  keyed _ _ h := by cases h
  rows _ _ h := by cases h
  apart _ _ _ _ h := by cases h
  wakes _ h := absurd rfl h
  size := Nat.zero_le _

/-- A run from sound tables that renews no lease too far stays sound and goes on. -/
theorem run_continues {calls : List TaskCall} (hsound : tables.Sound taskStream)
    (hsafe : StateMachine.Along (TaskTables.step taskStream) TaskTables.RenewsSafely tables calls)
    (hrun : StateMachine.run (TaskTables.step taskStream) tables calls = some tables') :
    tables'.Sound taskStream ∧ tables.Continues taskStream tables' := by
  refine StateMachine.run_along_preserves
    (I := fun reached => reached.Sound taskStream ∧ tables.Continues taskStream reached)
    (fun reached _ _ hreached hsafe hstep => ?_) ⟨hsound, hsound.continues_self⟩ hsafe hrun
  have hmoves := moves_of_step hsafe hstep
  exact ⟨sound_moves hreached.1 hmoves, continues_moves hsound hreached.1 hreached.2 hmoves⟩

/-- Rows and journals agree: the tasks can be listed; the stream of a task holds the sequences from 1 to
its revision, and its last event the row up to a lease that is not later; the states in a stream go on;
and a task is sealed once, when it is over, and then has its one wake. -/
structure TaskTables.Agree (taskStream : ProcessTaskHandle → String) (tables : TaskTables) : Prop where
  lists : ∃ tasks, tables.list taskStream = .ok tasks
  sequences : ∀ taskId row, tables.tasks.get taskId = some row →
    (tables.journal taskStream row.snapshot.handle).map (·.sequence) = List.range' 1 row.revision
  rows : ∀ taskId row, tables.tasks.get taskId = some row → tables.Journalled taskStream row
  states : ∀ stream, (tables.events stream).IsChain TaskEvent.Precedes
  once : ∀ stream, Orchestration.sealings (tables.events stream) ≤ 1

theorem TaskTables.Sound.agree (h : tables.Sound taskStream) : tables.Agree taskStream where
  lists := list_ok h
  sequences taskId row hrow := by
    have hsequenced := h.sequenced (taskStream row.snapshot.handle)
    have hlength : (tables.events (taskStream row.snapshot.handle)).length = row.revision :=
      (h.rows taskId row hrow).length
    rwa [hlength] at hsequenced
  rows := h.rows
  states := h.chained
  once := h.once

/-- **The lifecycle of process tasks.**  In every run that renews no lease past the last safe integer,
rows and journals agree, every later state goes on from an earlier one, and a task that has a journal
is not created again. -/
theorem lifecycle_agrees {calls more : List TaskCall}
    (hsafe : StateMachine.Along (TaskTables.step taskStream) TaskTables.RenewsSafely .empty
      (calls ++ more))
    (hrun : StateMachine.run (TaskTables.step taskStream) .empty calls = some tables)
    (hmore : StateMachine.run (TaskTables.step taskStream) tables more = some later) :
    later.Agree taskStream ∧ tables.Continues taskStream later
      ∧ ∀ task, tables.journal taskStream task.handle ≠ [] →
        ∀ next, later.create taskStream task ≠ .ok next := by
  obtain ⟨hfirst, hrest⟩ := StateMachine.along_append.1 hsafe
  have htables := (run_continues sound_empty hfirst hrun).1
  obtain ⟨hlater, hcontinues⟩ := run_continues htables (hrest tables hrun) hmore
  refine ⟨hlater.agree, hcontinues, fun task hjournal next hcreate => ?_⟩
  simp only [TaskTables.create, except_bind_ok, refuseIf_ok] at hcreate
  obtain ⟨-, -, -, hfresh, -⟩ := hcreate
  push Not at hfresh
  have hprefix := hcontinues.events (taskStream task.handle)
  rw [show later.events (taskStream task.handle) = [] from hfresh.2] at hprefix
  exact hjournal (List.prefix_nil.1 hprefix)

end

/-! ## A lease that runs away -/

/-- A process that was just created. -/
def queuedProcess : ProcessTaskSnapshot where
  executionKind := none
  handle := ⟨"task-1", "generation-1"⟩
  revision := 1
  owner := ⟨"session-1", "workspace-1", "turn-1", "invocation-1", "attempt-1", 1, "resource-1"⟩
  supervisor := ⟨"run-1", some ⟨.linux, 4242, "birth-1"⟩, 15000⟩
  attachment := .background
  createdAt := 0
  deadline := 60000
  inputDigest := String.ofList (List.replicate 64 'a')
  outputMode := .raw
  state := .queued
  process := none
  terminal := none

/-- A stream for each task id and generation. -/
def plainStream (handle : ProcessTaskHandle) : String :=
  "process-task:" ++ handle.taskId ++ ":" ++ handle.generation

/-- The tables with that process under a lease. -/
def leasedTables (leaseExpiresAt : ℕ) : TaskTables :=
  { tasks := OrderedMap.empty.set "task-1"
      ⟨"task-1", "generation-1", 1, queuedProcess.withLease leaseExpiresAt⟩
    events := Function.update (fun _ => []) (plainStream queuedProcess.handle)
      [⟨1, .created, queuedProcess⟩]
    wakes := fun _ => none }

theorem queuedProcess_schema : queuedProcess.Schema := by decide

theorem create_queuedProcess :
    TaskTables.empty.create plainStream queuedProcess = .ok (leasedTables 15000) := by
  refine except_bind_ok.2 ⟨(), refuseIf_ok.2 (by decide), except_bind_ok.2 ⟨(), refuseIf_ok.2 ?_,
    except_bind_ok.2 ⟨(), refuseIf_ok.2 (by decide), except_bind_ok.2 ⟨_, appendTaskEvent_ok.2
      ⟨by decide, queuedProcess_schema, rfl, rfl⟩, rfl⟩⟩⟩⟩
  exact not_or.2 ⟨fun h => h rfl, fun h => h rfl⟩

variable {leaseExpiresAt : ℕ}

theorem loadTask_leasedTables (hhigh : leaseExpiresAt ≤ 2 ^ 53 - 1) :
    (leasedTables leaseExpiresAt).loadTask queuedProcess.handle
      = .ok (queuedProcess.withLease leaseExpiresAt) :=
  loadTask_ok.2 ⟨_, OrderedMap.get_set_self _ _ _,
    ⟨withLease_schema queuedProcess_schema hhigh, rfl, rfl⟩, rfl, rfl⟩

theorem renew_leasedTables {leaseExpiresAt : ℕ} (hlow : 15000 ≤ leaseExpiresAt)
    (hhigh : leaseExpiresAt ≤ 2 ^ 53 - 1) :
    (leasedTables leaseExpiresAt).renew ⟨queuedProcess.handle, "run-1", 1⟩ (leaseExpiresAt - 1)
      = .ok (leasedTables (leaseExpiresAt + 14999)) := by
  have hnow : ((leaseExpiresAt : ℤ) - 1).toNat + processTaskLeaseMs = leaseExpiresAt + 14999 := by
    rw [processTaskLeaseMs]
    omega
  have hsafe : IsSafeInteger ((leaseExpiresAt : ℤ) - 1) := by
    rw [show (leaseExpiresAt : ℤ) - 1 = ((leaseExpiresAt - 1 : ℕ) : ℤ) by omega]
    exact isSafeInteger_natCast.2 (by omega)
  refine except_bind_ok.2 ⟨_, loadTask_leasedTables hhigh, except_bind_ok.2 ⟨(), refuseIf_ok.2
    (not_not.2 rfl), except_bind_ok.2 ⟨(), refuseIf_ok.2 ProcessTaskState.noConfusion,
      except_bind_ok.2 ⟨(), refuseIf_ok.2 ?_, ?_⟩⟩⟩⟩
  · change ¬ ("run-1" ≠ "run-1" ∨ ¬ IsSafeInteger ((leaseExpiresAt : ℤ) - 1)
      ∨ (leaseExpiresAt : ℤ) ≤ leaseExpiresAt - 1 ∨ (leaseExpiresAt : ℤ) - 1 < (0 : ℕ))
    push Not
    exact ⟨rfl, hsafe, by omega, by omega⟩
  · rw [if_neg]
    · rw [hnow, except_pure_ok]
      refine (congrArg (fun tasks => (⟨tasks, _, _⟩ : TaskTables)) ?_).symm
      exact OrderedMap.set_set _ _ _ _
    · change ¬ (leaseExpiresAt : ℤ) - 1 < leaseExpiresAt - (15000 : ℕ) + (5000 : ℕ)
      omega

/-- Renewing the lease at its last moment moves it on, again and again. -/
theorem leasedTables_reachable : ∀ n : ℕ, 14999 * n < 2 ^ 53 - 1 →
    ∃ calls, StateMachine.run (TaskTables.step plainStream) .empty calls
      = some (leasedTables (15000 + 14999 * n)) := by
  intro n
  induction n with
  | zero =>
    refine fun _ => ⟨[.create queuedProcess], StateMachine.run_cons.2 ⟨_, ?_, rfl⟩⟩
    change some ((TaskTables.empty.create plainStream queuedProcess).toOption.getD .empty) = _
    rw [create_queuedProcess]
    rfl
  | succ n ih =>
    intro _
    obtain ⟨calls, hrun⟩ := ih (by omega)
    set leaseExpiresAt := 15000 + 14999 * n with hlease
    refine ⟨calls ++ [.renew ⟨queuedProcess.handle, "run-1", 1⟩ (leaseExpiresAt - 1)],
      StateMachine.run_append.2 ⟨_, hrun, StateMachine.run_cons.2 ⟨_, ?_, rfl⟩⟩⟩
    change some (((leasedTables leaseExpiresAt).renew _ _).toOption.getD _) = _
    rw [renew_leasedTables (by omega) (by omega),
      show 15000 + 14999 * (n + 1) = leaseExpiresAt + 14999 by omega]
    rfl

theorem list_leasedTables (hhigh : 2 ^ 53 - 1 < leaseExpiresAt) :
    (leasedTables leaseExpiresAt).list plainStream = .error .invalidRecord := by
  have hschema : ¬ (queuedProcess.withLease leaseExpiresAt).Schema := by
    rintro ⟨⟨-, -, -, ⟨-, -, hlease⟩, -⟩, -⟩
    exact hhigh.not_ge (isSafeInteger_natCast.1 (of_decide_eq_true hlease))
  have hrow : (leasedTables leaseExpiresAt).listRow plainStream
      ⟨"task-1", "generation-1", 1, queuedProcess.withLease leaseExpiresAt⟩ = .error .invalidRecord := by
    simp [TaskTables.listRow, readTaskRow, refuseIf, hschema, bind, Except.bind]
  have hentries : (leasedTables leaseExpiresAt).tasks.entries
      = [("task-1", ⟨"task-1", "generation-1", 1, queuedProcess.withLease leaseExpiresAt⟩)] := rfl
  simp [TaskTables.list, OrderedMap.size, hentries, hrow, refuseIf, maxRetainedProcessTasks, bind,
    Except.bind]

/-- **A run of renewals makes the tasks unreadable.** -/
theorem not_list_readable :
    ¬ ∀ (calls : List TaskCall) (tables : TaskTables),
      StateMachine.run (TaskTables.step plainStream) .empty calls = some tables →
        tables.list plainStream ≠ .error .invalidRecord := by
  intro hall
  obtain ⟨calls, hrun⟩ := leasedTables_reachable 600519984981 (by norm_num)
  exact hall calls _ hrun (list_leasedTables (by norm_num))

theorem run_create_queuedProcess :
    StateMachine.run (TaskTables.step plainStream) .empty [.create queuedProcess]
      = some (leasedTables 15000) := by
  refine StateMachine.run_cons.2 ⟨_, ?_, rfl⟩
  change some ((TaskTables.empty.create plainStream queuedProcess).toOption.getD .empty) = _
  rw [create_queuedProcess]
  rfl

/-- A process that was created and renewed once agrees with its journal. -/
theorem lifecycle_agrees_renewed :
    (leasedTables 29999).Agree plainStream
      ∧ (leasedTables 15000).Continues plainStream (leasedTables 29999)
      ∧ ∀ task, (leasedTables 15000).journal plainStream task.handle ≠ [] →
        ∀ next, (leasedTables 29999).create plainStream task ≠ .ok next := by
  have hsafe : StateMachine.Along (TaskTables.step plainStream) TaskTables.RenewsSafely .empty
      ([.create queuedProcess] ++ [.renew ⟨queuedProcess.handle, "run-1", 1⟩ 14999]) :=
    ⟨trivial, fun _ _ => ⟨fun _ _ _ => by decide, fun _ _ => trivial⟩⟩
  refine lifecycle_agrees hsafe run_create_queuedProcess (StateMachine.run_cons.2 ⟨_, ?_, rfl⟩)
  have hrenew := @renew_leasedTables 15000 le_rfl (by norm_num)
  change some (((leasedTables 15000).renew _ (((15000 : ℕ) : ℤ) - 1)).toOption.getD _) = _
  rw [hrenew]
  rfl

end Falryn.Orchestration
