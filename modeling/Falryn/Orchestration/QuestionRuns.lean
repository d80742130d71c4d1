import Falryn.Orchestration.QuestionConsistency

/-!
# Runs of a question

Whatever an owner, presenters, the deadline and the end of the owner do to a question, and in whatever
order, its tables tell of one record, which every event leaves as it is or takes one change further.  A
record that is settled is the last one, and one that is not has room for its settlement.
-/

namespace Falryn.Orchestration

open StateMachine

section
variable (ports : QuestionPorts) (taskStream : ProcessTaskHandle → String) (handle : ProcessTaskHandle)

/-- The question stands at one record. -/
structure QuestionSystem.Tells (s : QuestionSystem) (record : QuestionRecord) : Prop where
  consistent : s.tables.Consistent ports handle record
  created : record.createdAt ≤ s.clock
  calls : ∀ call ∈ s.calls, call.Admitted ports record
  /-- Only the last revision is settled. -/
  settled : ∀ entry ∈ s.tables.revisions, entry.2.settlement ≠ none → entry.2 = record

/-- The question stands at one record, or was never created. -/
def QuestionSystem.Sound (s : QuestionSystem) : Prop :=
  (s.tables = .empty ∧ s.calls = []) ∨ ∃ record, s.Tells ports handle record

/-- What an event makes of the record of a question. -/
inductive QuestionSystem.Leads (s : QuestionSystem) (current next : QuestionRecord) :
    QuestionEvent → Prop
  | abandon {now : ℕ} (h : current.closeOpen ports .cancelled now = .ok next) :
      Leads s current next (.abandon now)
  | owner {change : OwnerChange} {credential : Option String} {now later : ℕ}
      (h : ownerChange ports change credential now later current = .ok next) :
      Leads s current next (.owner change credential now later)
  | ownerCloses {credential : Option String} {now : ℕ}
      (h : ownerClosed ports credential now current = .ok next) :
      Leads s current next (.ownerCloses credential now)
  | commit {index now later : ℕ} {call : PresenterCall} (hcall : s.calls[index]? = some call)
      (h : presenterChange ports call now later current = .ok next) :
      Leads s current next (.commit index now later)
  | deadline {now : ℕ} (h : current.closeOpen ports .expired now = .ok next) :
      Leads s current next (.deadline now)

section
variable {ports} {taskStream} {handle} {s t : QuestionSystem} {record next : QuestionRecord}
  {e : QuestionEvent} {call : PresenterCall} {now later : ℕ} {credential : Option String}
  {update : QuestionRecord → Except QuestionRefusal QuestionRecord}

namespace QuestionSystem

theorem Tells.record_eq (h : s.Tells ports handle record) : s.record ports handle = .ok record :=
  h.consistent.load

/-- A record of which nothing more is told, at a later time. -/
theorem Tells.wait (h : s.Tells ports handle record) (hclock : s.clock ≤ later) :
    ({ s with clock := later } : QuestionSystem).Tells ports handle record :=
  ⟨h.consistent, h.created.trans hclock, h.calls, h.settled⟩

theorem Tells.called (h : s.Tells ports handle record) (hcall : call.Admitted ports record) :
    Tells ports handle ⟨s.tables, s.clock, s.calls ++ [call]⟩ record := by
  refine ⟨h.consistent, h.created, fun other hother => ?_, h.settled⟩
  rcases List.mem_append.1 hother with hold | hlast
  · exact h.calls other hold
  · obtain rfl := List.mem_singleton.1 hlast
    exact hcall

/-! ## One change -/

theorem Tells.change_error (h : s.Tells ports handle record) {refusal : QuestionRefusal}
    (hupdate : update record = .error refusal) :
    s.change ports taskStream handle update later = (.error refusal, { s with clock := later }) := by
  rw [change, h.consistent.change_error hupdate]

theorem Tells.change_same (h : s.Tells ports handle record) (hupdate : update record = .ok record) :
    s.change ports taskStream handle update later = (.ok record, { s with clock := later }) := by
  rw [change, h.consistent.change_same hupdate]

/-- A change that was saved tells of the next record. -/
theorem Tells.saved {result : QuestionRecord × QuestionTables}
    (h : s.Tells ports handle record) (hclock : s.clock ≤ later) (hopen : record.settlement = none)
    (hchanges : record.Changes ports later next) (hupdate : update record = .ok next)
    (hresult : s.tables.change ports taskStream handle update = .ok result) :
    result.1 = next ∧ Tells ports handle ⟨result.2, later, s.calls⟩ next := by
  obtain ⟨rfl, hsaved, hrevisions⟩ := h.consistent.change_ok hopen hchanges hupdate hresult
  have hcontinues := hchanges.continues
  refine ⟨rfl, hsaved, ?_, fun call hcall => hcontinues.admitted (h.calls call hcall), ?_⟩
  · exact hcontinues.createdAt ▸ h.created.trans hclock
  · intro entry hentry hsettled
    simp only [hrevisions] at hentry
    rcases List.mem_append.1 hentry with hold | hlast
    · exact absurd (h.settled entry hold hsettled ▸ hopen) hsettled
    · obtain rfl := List.mem_singleton.1 hlast
      rfl

variable (taskStream) in
/-- **A change of a question** leaves it as it is, or takes its record one change further. -/
theorem Tells.change (h : s.Tells ports handle record) (hclock : s.clock ≤ later)
    (hupdate : ∀ next, update record = .ok next →
      next = record ∨ record.settlement = none ∧ record.Changes ports later next) :
    let t := (s.change ports taskStream handle update later).2
    t.clock = later ∧ t.calls = s.calls
      ∧ (t.tables = s.tables ∧ t.Tells ports handle record
        ∨ ∃ next, update record = .ok next ∧ record.settlement = none
          ∧ record.Changes ports later next ∧ t.Tells ports handle next) := by
  cases hnext : update record with
  | error refusal =>
    rw [h.change_error hnext]
    exact ⟨rfl, rfl, .inl ⟨rfl, h.wait hclock⟩⟩
  | ok next =>
    rcases hupdate next hnext with rfl | ⟨hopen, hchanges⟩
    · rw [h.change_same hnext]
      exact ⟨rfl, rfl, .inl ⟨rfl, h.wait hclock⟩⟩
    · cases hresult : s.tables.change ports taskStream handle update with
      | error refusal =>
        rw [QuestionSystem.change, hresult]
        exact ⟨rfl, rfl, .inl ⟨rfl, h.wait hclock⟩⟩
      | ok result =>
        obtain ⟨rfl, htells⟩ := h.saved hclock hopen hchanges hnext hresult
        rw [QuestionSystem.change, hresult]
        exact ⟨rfl, rfl, .inr ⟨result.1, rfl, hopen, hchanges, htells⟩⟩

/-- **A change at a time that has a text** is made. -/
theorem Tells.changed (t : ProcessTaskHandle → String) (h : s.Tells ports handle record)
    (hclock : s.clock ≤ later) (htime : isCanonicalTime later = true) (hopen : record.settlement = none)
    (hchanges : record.Changes ports later next) (hupdate : update record = .ok next) :
    ∃ tables, s.change ports t handle update later = (.ok next, ⟨tables, later, s.calls⟩)
      ∧ Tells ports handle ⟨tables, later, s.calls⟩ next := by
  obtain ⟨saved, hsaved⟩ := h.consistent.change_accepted t hopen hchanges hupdate
    (h.created.trans hclock) htime
  refine ⟨saved, ?_, (h.saved hclock hopen hchanges hupdate hsaved).2⟩
  rw [QuestionSystem.change, hsaved]

/-! ## One event -/

/-- An event whose change of the record is `update`. -/
theorem Tells.leads (h : s.Tells ports handle record) (hclock : s.clock ≤ later)
    (hupdate : ∀ next, update record = .ok next →
      next = record ∨ record.settlement = none ∧ record.Changes ports later next)
    (hlead : ∀ next, update record = .ok next → s.Leads ports record next e) :
    let t := (s.change ports taskStream handle update later).2
    t.tables = s.tables ∧ t.Tells ports handle record
      ∨ ∃ next, s.Leads ports record next e ∧ record.settlement = none
        ∧ t.Tells ports handle next := by
  obtain ⟨-, -, hsame | ⟨next, hok, hopen, -, htells⟩⟩ := h.change taskStream hclock hupdate
  · exact .inl hsame
  · exact .inr ⟨next, hlead next hok, hopen, htells⟩

/-- **What one event does** to a question that was created: its tables stay as they are, or its record
goes one change further. -/
theorem Tells.step (h : s.Tells ports handle record) (hstep : s.step ports taskStream handle e = some t) :
    t.tables = s.tables ∧ t.Tells ports handle record
      ∨ ∃ next, s.Leads ports record next e ∧ record.settlement = none
        ∧ t.Tells ports handle next := by
  cases e with
  | create _ owner _ _ _ _ _ now =>
    simp only [QuestionSystem.step] at hstep
    split_ifs at hstep with hguard
    cases hstep
    rw [h.consistent.not_create]
    exact .inl ⟨rfl, h.wait hguard.1⟩
  | abandon now =>
    simp only [QuestionSystem.step] at hstep
    split_ifs at hstep with hguard
    cases hstep
    exact h.leads hguard (fun next => closeOpen_ok nofun) fun next => .abandon
  | owner _ credential now later =>
    simp only [QuestionSystem.step] at hstep
    split_ifs at hstep with hguard
    cases hstep
    exact h.leads (hguard.1.trans hguard.2) (fun next => ownerChange_ok) fun next => .owner
  | ownerCloses credential now =>
    simp only [QuestionSystem.step] at hstep
    split_ifs at hstep with hguard
    cases hstep
    exact h.leads hguard (fun next => ownerClosed_ok) fun next => .ownerCloses
  | admitAction credential =>
    simp only [QuestionSystem.step, h.record_eq] at hstep
    split at hstep
    · cases hstep
      exact .inl ⟨rfl, h⟩
    next call hcall =>
      cases hstep
      exact .inl ⟨rfl, h.called (admitted_of_presenterCall hcall)⟩
  | commit _ now later =>
    simp only [QuestionSystem.step] at hstep
    split at hstep
    · cases hstep
    next call hcall =>
      split_ifs at hstep with hguard
      cases hstep
      have hadmitted := h.calls call (List.mem_of_getElem? hcall)
      exact h.leads (hguard.1.trans hguard.2) (fun next => presenterChange_ok hadmitted)
        fun next => .commit hcall
  | deadline now =>
    simp only [QuestionSystem.step] at hstep
    split_ifs at hstep with hguard
    cases hstep
    exact h.leads hguard (fun next => closeOpen_ok nofun) fun next => .deadline

theorem change_empty (htables : s.tables = .empty) :
    s.change ports taskStream handle update later = (.error .notFound, { s with clock := later }) := by
  rw [QuestionSystem.change, htables]
  rfl

/-- **What one event does** to a question that was not created: it creates it, or nothing. -/
theorem step_empty (htables : s.tables = .empty) (hcalls : s.calls = [])
    (hstep : s.step ports taskStream handle e = some t) :
    t.tables = .empty ∧ t.calls = []
      ∨ ∃ record, t.Tells ports handle record ∧ record.state = .created ∧ record.settlement = none := by
  cases e with
  | create input owner ownerToken presenterToken createdAt resourcesExpireAt crowded now =>
    simp only [QuestionSystem.step] at hstep
    split_ifs at hstep with hguard
    cases hstep
    rw [htables]
    cases hcreate : QuestionTables.empty.create ports
        (newQuestion ports input owner ownerToken presenterToken createdAt resourcesExpireAt) crowded with
    | error => exact .inl ⟨rfl, hcalls⟩
    | ok =>
      obtain ⟨hconsistent, hrevisions⟩ := QuestionTables.Consistent.create hguard.2.2 hcreate
      refine .inr ⟨_, ⟨hconsistent, hguard.2.1, ?_, ?_⟩, rfl, rfl⟩
      · simp [hcalls]
      · rintro entry hentry -
        obtain rfl := List.mem_singleton.1 (hrevisions ▸ hentry)
        rfl
  | admitAction =>
    simp only [QuestionSystem.step, QuestionSystem.record, htables] at hstep
    cases hstep
    exact .inl ⟨htables, hcalls⟩
  | commit _ now =>
    simp [QuestionSystem.step, hcalls] at hstep
  | _ =>
    simp only [QuestionSystem.step, change_empty htables] at hstep
    split_ifs at hstep
    cases hstep
    exact .inl ⟨htables, hcalls⟩

theorem Sound.step (h : s.Sound ports handle) (hstep : s.step ports taskStream handle e = some t) :
    t.Sound ports handle := by
  rcases h with ⟨htables, hcalls⟩ | ⟨record, h⟩
  · refine (step_empty htables hcalls hstep).imp_right ?_
    rintro ⟨record, htells, -⟩
    exact ⟨record, htells⟩
  · rcases h.step hstep with ⟨-, htells⟩ | ⟨next, -, -, htells⟩
    · exact .inr ⟨record, htells⟩
    · exact .inr ⟨next, htells⟩

/-- **Every question that was created stands at one record**, whatever happened to it. -/
theorem sound_of_run {es : List QuestionEvent}
    (h : run (QuestionSystem.step ports taskStream handle) .initial es = some s) : s.Sound ports handle :=
  run_invariant (fun _ _ _ hs hstep => hs.step hstep) (.inl ⟨rfl, rfl⟩) h

end QuestionSystem
end
end

end Falryn.Orchestration
