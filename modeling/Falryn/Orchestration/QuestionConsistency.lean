import Falryn.Orchestration.QuestionRecords

/-!
# What the tables of a question hold together

The row, the revisions, the task, its stream and its wake tell of one record.  Tables that do are read
as that record, and a change of it that the store accepts leaves tables that tell of the record after
the change.
-/

namespace Falryn.Orchestration

section
variable (ports : QuestionPorts)

/-- The tables tell of one record of the question. -/
structure QuestionTables.Consistent (tables : QuestionTables) (handle : ProcessTaskHandle)
    (record : QuestionRecord) : Prop where
  schema : record.Schema
  identity : record.input.handle = handle
  intent : record.intent = ports.hash (.intent record.owner record.input)
  /-- The task was created at a time that has a text. -/
  dated : isCanonicalTime record.createdAt = true
  request : tables.request = some (record.request ports)
  latest : tables.revisions.lookup record.revision = some record
  bounded : ∀ entry ∈ tables.revisions, entry.1 ≤ record.revision
  task : tables.task
    = some ⟨handle.taskId, handle.generation, record.revision, record.taskFor ports none⟩
  event : ∃ change, change ≠ .cleaned
    ∧ tables.events.find? (fun event => event.sequence = record.revision)
      = some ⟨record.revision, change, record.taskFor ports none⟩
  journal : lastSequence tables.events = record.revision
  sequences : ∀ event ∈ tables.events, event.sequence ≤ record.revision
  wake : record.settlement = none → tables.wake = none
  /-- A record that is not settled keeps a revision for its settlement. -/
  room : record.settlement = none → record.revision ≤ 63

/-! ## The task of a question -/

section
variable {ports} {record next : QuestionRecord} {tables saved : QuestionTables}
  {handle : ProcessTaskHandle} {settledAt : ℕ}

theorem isSafeInteger_of_canonical {n : ℕ} (h : isCanonicalTime n = true) :
    IsSafeInteger n ∧ IsSafeInteger ((n + processTaskLeaseMs : ℕ) : ℤ) := by
  simp only [isCanonicalTime, Bool.and_eq_true, decide_eq_true_eq] at h
  rw [isSafeInteger_natCast, isSafeInteger_natCast, processTaskLeaseMs]
  omega

@[simp] theorem taskFor_revision (record : QuestionRecord) (base : Option ProcessTaskSnapshot) :
    (record.taskFor ports base).revision = record.revision := by
  unfold QuestionRecord.taskFor QuestionRecord.taskFrom
  cases record.settlement <;> rfl

@[simp] theorem taskFor_handle (record : QuestionRecord) :
    (record.taskFor ports none).handle = record.input.handle := by
  unfold QuestionRecord.taskFor QuestionRecord.taskFrom
  cases record.settlement <;> rfl

@[simp] theorem taskFor_executionKind (record : QuestionRecord) :
    (record.taskFor ports none).executionKind = some .question := by
  unfold QuestionRecord.taskFor QuestionRecord.taskFrom
  cases record.settlement <;> rfl

theorem taskFor_state (record : QuestionRecord) :
    (record.taskFor ports none).state = if record.settlement = none then .queued else .terminal := by
  unfold QuestionRecord.taskFor QuestionRecord.taskFrom
  cases record.settlement <;> rfl

/-- The task of a record is made from the task of the record before. -/
theorem taskFor_continues (h : record.Continues next) :
    next.taskFor ports (some (record.taskFor ports none)) = next.taskFor ports none := by
  have hnew : next.newTask ports = record.newTask ports := by
    simp [QuestionRecord.newTask, h.input, h.owner, h.createdAt, h.expiresAt, h.intent]
  simp only [QuestionRecord.taskFor, Option.getD_some, Option.getD_none, hnew]
  unfold QuestionRecord.taskFrom
  cases record.settlement <;> cases next.settlement <;> rfl

/-- **The task of a record has its schema.** -/
theorem taskFor_schema (h : record.Schema) (hdated : isCanonicalTime record.createdAt = true) :
    (record.taskFor ports none).Schema := by
  obtain ⟨⟨hinput, howner, -, -, hintent, ⟨hlow, hhigh⟩, hcreatedAt, hexpiresAt, hsettlement⟩, hlater,
    -, hagrees⟩ := h
  have hrevision : IsSafeInteger record.revision :=
    isSafeInteger_natCast.2 (hhigh.trans (by norm_num))
  have hsupervisor : (record.newTask ports).supervisor.Schema :=
    ⟨ports.supervised.1, ports.supervised.2,
      decide_eq_true (isSafeInteger_of_canonical hdated).2⟩
  cases hnone : record.settlement with
  | none =>
    simp only [QuestionRecord.taskFor, QuestionRecord.taskFrom, hnone, Option.getD_none]
    exact ⟨⟨hinput.1, ⟨hlow, hrevision⟩, howner.1, hsupervisor, decide_eq_true hcreatedAt,
      decide_eq_true hexpiresAt, hintent⟩, ⟨by simp, rfl, rfl⟩, hlater.le, .inl rfl, .inl rfl,
      .inr rfl, .inl (by simp), by simp⟩
  | some settlement =>
    simp only [hnone] at hagrees
    obtain ⟨-, hat, -⟩ := hsettlement settlement hnone
    simp only [QuestionRecord.taskFor, QuestionRecord.taskFrom, hnone, Option.getD_none]
    have hterminal : ProcessTaskTerminal.Agrees
        ⟨settlement.kind.outcome, .none, .questionSettled, none, none, settlement.settledAt, none,
          none⟩ := by
      cases settlement.kind <;> simp [ProcessTaskTerminal.Agrees,
        ProcessTaskTerminal.OrchestrationCompleted, QuestionTerminal.outcome]
    refine ⟨⟨hinput.1, ⟨hlow, hrevision⟩, howner.1, hsupervisor, decide_eq_true hcreatedAt,
      decide_eq_true hexpiresAt, hintent⟩, ⟨by simp, by simp, ?_⟩, hlater.le, .inr ⟨rfl, ?_⟩,
      .inl rfl, .inr rfl, .inl (by simp), ?_⟩
    · rintro terminal ⟨⟩
      exact ⟨⟨by simp, by simp, decide_eq_true hat, by simp⟩, hterminal⟩
    · rintro terminal ⟨⟩
      exact ⟨rfl, rfl, rfl, rfl, rfl⟩
    · rintro terminal ⟨⟩
      exact ⟨hagrees.2.1, .inr ⟨rfl, by simp [ProcessTaskSnapshot.kind, QuestionRecord.newTask]⟩⟩

/-! ## Reading -/

namespace QuestionTables
namespace Consistent

theorem reads (h : tables.Consistent ports handle record) :
    readTaskRow tables.task (some handle) = .ok (record.taskFor ports none) := by
  rw [h.task, readTaskRow_ok]
  refine ⟨⟨taskFor_schema h.schema h.dated, taskFor_revision _ _, ?_⟩, ?_, rfl⟩
  · rw [taskFor_handle, h.identity]
  · rintro _ ⟨⟩
    rw [taskFor_handle, h.identity]

/-- **Tables that tell of one record are read as that record.** -/
theorem load (h : tables.Consistent ports handle record) : tables.load ports handle = .ok record := by
  obtain ⟨change, hchange, hevent⟩ := h.event
  have hverified : verifyTaskEvent (record.taskFor ports none)
      (some ⟨record.revision, change, record.taskFor ports none⟩)
        = .ok (record.taskFor ports none) :=
    verifyTaskEvent_ok.2 ⟨⟨taskFor_schema h.schema h.dated, (taskFor_revision _ _).symm⟩, hchange,
      le_rfl, rfl, rfl⟩
  have hlatest : tables.revisions.lookup (record.request ports).revision = some record := h.latest
  simp only [QuestionTables.load, h.request, hlatest, h.reads, hevent, hverified, except_bind_ok,
    refuseIf_ok, except_pure_ok]
  refine ⟨(), ?_, (), ?_, (), ?_, (), ?_, trivial⟩
  · rw [not_or, not_not]
    exact ⟨not_lt.2 (QuestionRecord.bytes_le h.schema), h.schema⟩
  · simp only [not_or, not_not, ne_eq]
    exact ⟨by rw [h.identity], trivial, h.intent⟩
  · rw [h.identity]
    exact not_not.2 rfl
  · rw [not_or, not_not]
    exact ⟨(fun heq => by cases heq), rfl⟩

theorem unique (h : tables.Consistent ports handle record) (h' : tables.Consistent ports handle next) :
    next = record :=
  Except.ok.inj (h'.load.symm.trans h.load)

theorem events_ne (h : tables.Consistent ports handle record) : tables.events ≠ [] := by
  obtain ⟨change, -, hevent⟩ := h.event
  rintro hnil
  rw [hnil] at hevent
  cases hevent

/-! ## Writing -/

variable {crowded : Bool}

/-- **A question that is created** is one of which the tables tell. -/
theorem create {input : QuestionInput} {owner : QuestionOwner}
    {ownerToken presenterToken : String} {createdAt resourcesExpireAt : ℕ} (hinput : input.handle = handle)
    (h : QuestionTables.empty.create ports
      (newQuestion ports input owner ownerToken presenterToken createdAt resourcesExpireAt) crowded
        = .ok saved) :
    let record := newQuestion ports input owner ownerToken presenterToken createdAt resourcesExpireAt
    saved.Consistent ports handle record ∧ saved.revisions = [(1, record)] := by
  intro record
  simp only [QuestionTables.create, except_bind_ok, refuseIf_ok] at h
  obtain ⟨-, hschema, -, -, -, -, h⟩ := h
  have hschema : record.Schema := not_not.1 (not_or.1 hschema).1
  split at h
  · cases h
  next happend =>
    obtain ⟨hdated, -, -, rfl⟩ := appendTaskEvent_ok.1 happend
    simp only [except_bind_ok, refuseIf_ok, except_pure_ok] at h
    obtain ⟨-, -, rfl⟩ := h
    refine ⟨⟨hschema, hinput, rfl, hdated, rfl, rfl, ?_, ?_, ⟨.created, (by simp), rfl⟩, rfl, ?_, fun _ => rfl,
      fun _ => Nat.le_add_left 1 62⟩, rfl⟩
    · rintro entry hentry
      obtain rfl := List.mem_singleton.1 hentry
      exact le_rfl
    · rw [← hinput]
      rfl
    · rintro event hevent
      obtain rfl := List.mem_singleton.1 hevent
      exact le_rfl

/-- A question is not created twice. -/
theorem not_create (h : tables.Consistent ports handle record) :
    (tables.create ports next crowded).toOption = none := by
  cases hcreate : tables.create ports next crowded with
  | error => rfl
  | ok =>
    simp only [QuestionTables.create, except_bind_ok, refuseIf_ok] at hcreate
    obtain ⟨-, -, -, hempty, -⟩ := hcreate
    exact absurd h.events_ne (not_or.1 hempty).1

theorem lookup_next (h : tables.Consistent ports handle record)
    (hrevision : next.revision = record.revision + 1) : tables.revisions.lookup next.revision = none := by
  rw [List.lookup_eq_none_iff]
  intro entry hentry
  have hold := h.bounded entry hentry
  simp only [bne_iff_ne, ne_eq, hrevision]
  omega

/-- What the store keeps of a change it accepts. -/
theorem save (h : tables.Consistent ports handle record) (hnext : record.Changes ports settledAt next)
    (hschema : next.Schema) {change : TaskChange} (hchange : change ≠ .cleaned) {wake : Option TaskWake}
    (hwake : next.settlement = none → wake = none) :
    let task := next.taskFor ports none
    ({ tables.save next task (tables.events ++ [⟨task.revision, change, task⟩]) with wake }
      : QuestionTables).Consistent ports handle next := by
  have hcontinues := hnext.continues
  have hrevision := hnext.revision
  refine ⟨hschema, hcontinues.input ▸ h.identity, ?_, hcontinues.createdAt ▸ h.dated, ?_, ?_, ?_, ?_,
    ⟨change, hchange, ?_⟩, ?_, ?_, hwake, hnext.room⟩
  · rw [hcontinues.intent, hcontinues.owner, hcontinues.input]
    exact h.intent
  · simp [QuestionTables.save, h.request, QuestionRecord.request, QuestionRecord.ownerIdentity,
      hcontinues.input, hcontinues.owner, hcontinues.ownerKey, hcontinues.expiresAt]
  · simp [QuestionTables.save, List.lookup_append, h.lookup_next hrevision]
  · intro entry hentry
    rcases List.mem_append.1 hentry with hold | hlast
    · exact (h.bounded entry hold).trans (by omega)
    · obtain rfl := List.mem_singleton.1 hlast
      exact le_rfl
  · simp [QuestionTables.save, hcontinues.input, h.identity]
  · have hnone : tables.events.find? (fun event => event.sequence = next.revision) = none := by
      rw [List.find?_eq_none]
      intro event hevent
      have := h.sequences event hevent
      simp
      omega
    simp [QuestionTables.save, List.find?_append, hnone]
  · simp [QuestionTables.save]
  · intro event hevent
    rcases List.mem_append.1 hevent with hold | hlast
    · exact (h.sequences event hold).trans (by omega)
    · obtain rfl := List.mem_singleton.1 hlast
      exact (taskFor_revision _ _).le

/-! ## Changing -/

section
variable {taskStream : ProcessTaskHandle → String}
  {update : QuestionRecord → Except QuestionRefusal QuestionRecord} {kept : QuestionRecord}

theorem change_error (h : tables.Consistent ports handle record) {refusal : QuestionRefusal}
    (hupdate : update record = .error refusal) :
    tables.change ports taskStream handle update = .error refusal := by
  rw [QuestionTables.change, h.load]
  change (update record >>= _) = _
  rw [hupdate]
  rfl

theorem change_same (h : tables.Consistent ports handle record) (hupdate : update record = .ok record) :
    tables.change ports taskStream handle update = .ok (record, tables) := by
  simp only [QuestionTables.change, except_bind_ok]
  refine ⟨record, h.load, record, hupdate, ?_⟩
  rw [if_pos rfl]
  rfl

/-- The time of the event that tells of a change. -/
theorem told_canonical (h : tables.Consistent ports handle record) (hopen : record.settlement = none)
    (hnext : record.Changes ports settledAt next) :
    isCanonicalTime next.told.2 = true ↔ (next.settlement ≠ none → isCanonicalTime settledAt = true) := by
  cases hnext with
  | moved => simp [QuestionRecord.told, hopen, h.dated]
  | settled => simp [QuestionRecord.told, QuestionRecord.settle]

theorem told_change (record : QuestionRecord) :
    record.told.1 = if record.settlement = none then .attachment else .sealed := by
  unfold QuestionRecord.told
  cases record.settlement <;> rfl

/-- **What the store makes of a change** that leads to a record with its schema: it keeps it, unless the
time of the settlement has no text. -/
theorem change_eq (h : tables.Consistent ports handle record) (hopen : record.settlement = none)
    (hnext : record.Changes ports settledAt next) (hupdate : update record = .ok next)
    (hschema : next.Schema) {result : QuestionRecord × QuestionTables} :
    tables.change ports taskStream handle update = .ok result ↔
      (next.settlement ≠ none → isCanonicalTime settledAt = true)
        ∧ result = (next, { tables.save next (next.taskFor ports none)
            (tables.events ++ [⟨(next.taskFor ports none).revision,
              if next.settlement = none then .attachment else .sealed, next.taskFor ports none⟩]) with
            wake := if next.settlement = none then none
              else some ⟨"wake:" ++ taskEventId (taskStream handle) next.revision,
                taskEventId (taskStream handle) next.revision, 0, .pending⟩ }) := by
  have hrevision := hnext.revision
  have hcontinues := hnext.continues
  have hne : next ≠ record := by
    rintro rfl
    omega
  have hguard : ¬ (¬ next.Schema ∨ next.revision ≠ record.revision + 1 ∨ 64 < next.revision
      ∨ next.ownerKey ≠ record.ownerKey ∨ next.presenterKey ≠ record.presenterKey
      ∨ next.intent ≠ record.intent ∨ next.input ≠ record.input ∨ next.expiresAt ≠ record.expiresAt
      ∨ next.owner ≠ record.owner ∨ record.settlement ≠ none) := by
    have hroom := h.room hopen
    simp only [hschema, hrevision, hcontinues.ownerKey, hcontinues.presenterKey, hcontinues.intent,
      hcontinues.input, hcontinues.expiresAt, hcontinues.owner, hopen, ne_eq, not_true_eq_false,
      false_or, or_false, not_lt]
    omega
  have htask : ¬ ((record.taskFor ports none).executionKind ≠ some .question
      ∨ (record.taskFor ports none).revision ≠ record.revision
      ∨ (record.taskFor ports none).state = .terminal) := by
    simp [taskFor_state, hopen]
  have hnew : ¬ (tables.revisions.lookup next.revision ≠ none
      ∨ questionRecordBytes < next.bytes) := by
    rw [not_or, not_not, not_lt]
    exact ⟨h.lookup_next hrevision, QuestionRecord.bytes_le hschema⟩
  simp only [QuestionTables.change, except_bind_ok, h.load, Except.ok.injEq, exists_eq_left', hupdate,
    if_neg hne, refuseIf_ok, hguard, not_false_eq_true, h.reads, htask, exists_const, true_and,
    taskFor_continues hcontinues]
  rw [← h.told_canonical hopen hnext, told_change]
  have hsequence : (next.taskFor ports none).revision = lastSequence tables.events + 1 := by
    rw [taskFor_revision, h.journal, hrevision]
  have happend {time : ℕ} {change : TaskChange} {events : List TaskEvent} :
      appendTaskEvent tables.events (next.taskFor ports none) change time = .ok events ↔
        isCanonicalTime time = true
          ∧ events = tables.events ++ [⟨(next.taskFor ports none).revision, change, next.taskFor ports none⟩] := by
    rw [appendTaskEvent_ok]
    exact ⟨fun h => ⟨h.1, h.2.2.2⟩,
      fun hevents => ⟨hevents.1, taskFor_schema hschema (hcontinues.createdAt ▸ h.dated), hsequence,
        hevents.2⟩⟩
  split
  next hfails =>
    refine ⟨(by simp), fun hcanonical => ?_⟩
    rw [happend.2 ⟨hcanonical.1, rfl⟩] at hfails
    cases hfails
  next events hevents =>
    obtain ⟨htime, rfl⟩ := happend.1 hevents
    simp only [except_bind_ok, refuseIf_ok, hnew, not_false_eq_true, exists_const, true_and, htime]
    by_cases hsettled : next.settlement = none
    · have hwake : tables.wake = none := h.wake hopen
      simp only [if_pos hsettled, except_pure_ok, QuestionTables.save, hwake]
    · simp only [if_neg hsettled, except_bind_ok, refuseIf_ok, h.wake hopen, except_pure_ok,
        taskFor_revision, ne_eq, not_true_eq_false, not_false_eq_true, exists_const, true_and]

/-- **A change that the store accepts** leaves tables that tell of the record after it. -/
theorem change_ok (h : tables.Consistent ports handle record) (hopen : record.settlement = none)
    (hnext : record.Changes ports settledAt next) (hupdate : update record = .ok next)
    (hok : tables.change ports taskStream handle update = .ok (kept, saved)) :
    kept = next ∧ saved.Consistent ports handle next
      ∧ saved.revisions = tables.revisions ++ [(next.revision, next)] := by
  by_cases hschema : next.Schema
  · obtain ⟨-, hresult⟩ := (h.change_eq hopen hnext hupdate hschema).1 hok
    obtain ⟨rfl, rfl⟩ := Prod.mk.inj hresult
    refine ⟨rfl, h.save hnext hschema ?_ ?_, rfl⟩
    · split_ifs <;> exact nofun
    · intro hnone
      rw [if_pos hnone]
  · have hne : next ≠ record := fun heq => hschema (heq ▸ h.schema)
    simp only [QuestionTables.change, except_bind_ok, h.load, Except.ok.injEq, exists_eq_left',
      hupdate, if_neg hne, refuseIf_ok, hschema, not_false_eq_true, true_or, not_true_eq_false,
      false_and, exists_false] at hok

variable (taskStream) in
/-- **A change is accepted**, unless it is a settlement at a time that has no text. -/
theorem change_accepted (h : tables.Consistent ports handle record) (hopen : record.settlement = none)
    (hnext : record.Changes ports settledAt next) (hupdate : update record = .ok next)
    (hcreated : record.createdAt ≤ settledAt) (htime : isCanonicalTime settledAt = true) :
    ∃ saved, tables.change ports taskStream handle update = .ok (next, saved) := by
  have hschema : next.Schema := hnext.schema h.schema hopen (h.room hopen) hcreated fun _ =>
    (isSafeInteger_of_canonical htime).1
  exact ⟨_, (h.change_eq hopen hnext hupdate hschema).2 ⟨fun _ => htime, rfl⟩⟩

end

end Consistent
end QuestionTables

end
end

end Falryn.Orchestration
