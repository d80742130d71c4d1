import Falryn.Orchestration.EditScopeLaunches

/-!
# Edit scopes exclude each other

In a run whose steps are all careful, an agent that stands for something has its row, unreleased and
with its own scope, and the row is unlinked or linked to the only task of the agent that holds a scope.
So a reservation finds every such row active, and is refused by one that overlaps.
-/

namespace Falryn.Orchestration

section
variable {taskStream : ProcessTaskHandle → String} {tables tables' : TaskTables}
  {handle : ProcessTaskHandle} {agent agent' : EditAgent}

/-! ## Tasks that hold a scope -/

/-- A task that holds a scope after a move held it before. -/
theorem holds_of_moves (hsound : tables.Sound taskStream)
    (hmoves : TaskTables.Moves taskStream tables tables') (hjournal : tables.journal taskStream handle ≠ [])
    (h : tables'.Holds handle) : tables.Holds handle := by
  obtain ⟨row', hrow', rfl, hkeeps⟩ := h
  rcases moves_row hsound hmoves hrow' with ⟨row, hrow, hhandle, hadvances⟩ | hnil
  · refine ⟨row, hrow, hhandle.symm, ?_⟩
    by_cases hterminal : row.snapshot.state = .terminal
    · rwa [← hadvances.sealed hterminal]
    · exact .inl hterminal
  · exact absurd hnil hjournal

theorem journal_of_moves (hmoves : TaskTables.Moves taskStream tables tables')
    (hjournal : tables.journal taskStream handle ≠ []) : tables'.journal taskStream handle ≠ [] :=
  (moves_events hmoves _).ne_nil hjournal

/-- A row linked to a task that holds a scope is active. -/
theorem active_of_holds (hsound : tables.Sound taskStream) (h : tables.Holds handle) {row : EditScopeRow}
    (hrow : row.task = some handle) (now : ℤ) : row.active tables now = true := by
  obtain ⟨taskRow, htaskRow, hhandle, hkeeps⟩ := h
  have hload : tables.loadTask handle = .ok taskRow.snapshot :=
    loadTask_ok.2 ⟨taskRow, htaskRow, (hsound.rows _ _ htaskRow).reads, hhandle, rfl⟩
  simp [EditScopeRow.active, hrow, hload, hkeeps]

/-- Every task of an agent has a journal, so that it is never created again. -/
def EditAgent.Journalled (taskStream : ProcessTaskHandle → String) (tables : TaskTables)
    (agent : EditAgent) : Prop :=
  ∀ task ∈ agent.tasks, tables.journal taskStream task ≠ []

theorem EditAgent.Journalled.moves (h : agent.Journalled taskStream tables)
    (hmoves : TaskTables.Moves taskStream tables tables') : agent.Journalled taskStream tables' :=
  fun task htask => journal_of_moves hmoves (h task htask)

theorem EditAgent.Holds.of_moves (hsound : tables.Sound taskStream)
    (hmoves : TaskTables.Moves taskStream tables tables') (hjournalled : agent.Journalled taskStream tables)
    (h : agent.Holds tables') : agent.Holds tables := by
  obtain ⟨task, htask, hholds⟩ := h
  exact ⟨task, htask, holds_of_moves hsound hmoves (hjournalled task htask) hholds⟩

end

namespace EditSystem

section
variable {taskStream : ProcessTaskHandle → String} {system system' : EditSystem} {taskId : String}
  {agent agent' : EditAgent} {tables : TaskTables} {row : EditScopeRow} {now : ℤ}

/-! ## The invariant -/

/-- A row guards an agent: it has its scope and is not released, is linked to no other task than one
that holds a scope, and to none while a launch is in flight. -/
structure Guards (tables : TaskTables) (agent : EditAgent) (row : EditScopeRow) : Prop where
  workspace : row.workspaceId = agent.workspaceId
  scope : row.scope = agent.editScope
  free : row.released = false
  linked : ∀ task ∈ agent.tasks, tables.Holds task → row.task = some task ∨ row.task = none
  unlinked : agent.phase.InFlight → row.task = none

/-- While a launch is in flight, no task of an agent holds a scope but the one it has admitted. -/
def Alone (tables : TaskTables) (agent : EditAgent) : Prop :=
  agent.phase.InFlight → ∀ task ∈ agent.tasks, tables.Holds task → agent.phase = .admitted task

/-- The invariant of the system. -/
structure Guarded (taskStream : ProcessTaskHandle → String) (system : EditSystem) : Prop where
  sound : system.tables.Sound taskStream
  journalled : ∀ taskId agent, system.agents.get taskId = some agent →
    agent.Journalled taskStream system.tables
  rows : ∀ taskId row, system.scopes.get taskId = some row →
    ∃ agent, system.agents.get taskId = some agent ∧ row.workspaceId = agent.workspaceId
  alone : ∀ taskId agent, system.agents.get taskId = some agent → agent.mutates = true →
    Alone system.tables agent
  guards : ∀ taskId agent, system.agents.get taskId = some agent → agent.mutates = true →
    system.Stands agent → ∃ row, system.scopes.get taskId = some row ∧ Guards system.tables agent row
  apart : ∀ taskId agent taskId' agent', system.agents.get taskId = some agent →
    system.agents.get taskId' = some agent' → taskId ≠ taskId' → agent.mutates = true →
    agent'.mutates = true → agent.workspaceId = agent'.workspaceId → system.Stands agent →
    system.Stands agent' → editScopesOverlap agent.editScope agent'.editScope = false

theorem Guarded.exclusive (h : system.Guarded taskStream) : system.Exclusive := by
  intro taskId agent taskId' agent' hagent hagent' hne hmutates hmutates' hworkspace hoverlap hholds
  have hapart := h.apart taskId agent taskId' agent' hagent hagent' hne hmutates hmutates' hworkspace
    (.inr hholds.1) (.inr hholds.2)
  simp [hoverlap] at hapart

/-! ## What a step changes -/

variable {cleaned : List String}

/-- A move of the tasks: what stands afterwards stood before. -/
theorem Stands.of_moves (h : system.Guarded taskStream)
    (hmoves : TaskTables.Moves taskStream system.tables tables)
    (hagent : system.agents.get taskId = some agent)
    (hstands : Stands { system with tables, cleaned } agent) : system.Stands agent :=
  hstands.imp_right fun hholds => hholds.of_moves h.sound hmoves (h.journalled taskId agent hagent)

theorem Guarded.moves (h : system.Guarded taskStream)
    (hmoves : TaskTables.Moves taskStream system.tables tables) :
    Guarded taskStream { system with tables, cleaned } where
  sound := sound_moves h.sound hmoves
  journalled taskId agent hagent := (h.journalled taskId agent hagent).moves hmoves
  rows := h.rows
  alone taskId agent hagent hmutates hflight task htask hholds :=
    h.alone taskId agent hagent hmutates hflight task htask
      (holds_of_moves h.sound hmoves (h.journalled taskId agent hagent task htask) hholds)
  guards taskId agent hagent hmutates hstands := by
    obtain ⟨row, hrow, hguards⟩ :=
      h.guards taskId agent hagent hmutates (Stands.of_moves h hmoves hagent hstands)
    refine ⟨row, hrow, hguards.workspace, hguards.scope, hguards.free, fun task htask hholds => ?_,
      hguards.unlinked⟩
    exact hguards.linked task htask
      (holds_of_moves h.sound hmoves (h.journalled taskId agent hagent task htask) hholds)
  apart taskId agent taskId' agent' hagent hagent' hne hmutates hmutates' hworkspace hstands hstands' :=
    h.apart taskId agent taskId' agent' hagent hagent' hne hmutates hmutates' hworkspace
      (Stands.of_moves h hmoves hagent hstands) (Stands.of_moves h hmoves hagent' hstands')

variable {scopes : EditScopeRows}

/-- Rows that stand for nothing may change. -/
theorem Guarded.setScopes (h : system.Guarded taskStream)
    (hrows : ∀ taskId row, scopes.get taskId = some row →
      ∃ prior, system.scopes.get taskId = some prior ∧ row.workspaceId = prior.workspaceId)
    (hkeep : ∀ taskId agent, system.agents.get taskId = some agent → agent.mutates = true →
      system.Stands agent → scopes.get taskId = system.scopes.get taskId) :
    Guarded taskStream { system with scopes, cleaned } where
  sound := h.sound
  journalled := h.journalled
  rows taskId row hrow := by
    obtain ⟨prior, hprior, hworkspace⟩ := hrows taskId row hrow
    rw [hworkspace]
    exact h.rows taskId prior hprior
  alone := h.alone
  guards taskId agent hagent hmutates hstands := by
    obtain ⟨row, hrow, hguards⟩ := h.guards taskId agent hagent hmutates hstands
    exact ⟨row, (hkeep taskId agent hagent hmutates hstands).trans hrow, hguards⟩
  apart := h.apart

/-- **One agent changes**, and its row with it: it is guarded if it stands for something, and overlaps
no other that does. -/
theorem Guarded.update (h : system.Guarded taskStream)
    (hworkspace : ∀ prior ∈ system.agents.get taskId, prior.workspaceId = agent.workspaceId)
    (hjournalled : agent.Journalled taskStream system.tables)
    (halone : agent.mutates = true → Alone system.tables agent)
    (hrows : ∀ taskId' row, scopes.get taskId' = some row →
      (taskId' = taskId ∧ row.workspaceId = agent.workspaceId)
        ∨ ∃ prior, system.scopes.get taskId' = some prior ∧ row.workspaceId = prior.workspaceId)
    (hkeep : ∀ taskId' other, system.agents.get taskId' = some other → other.mutates = true →
      system.Stands other → taskId' ≠ taskId → scopes.get taskId' = system.scopes.get taskId')
    (hown : agent.mutates = true → system.Stands agent →
      ∃ row, scopes.get taskId = some row ∧ Guards system.tables agent row)
    (hapart : ∀ taskId' other, system.agents.get taskId' = some other → taskId' ≠ taskId →
      agent.mutates = true → other.mutates = true → other.workspaceId = agent.workspaceId →
      system.Stands agent → system.Stands other →
      editScopesOverlap other.editScope agent.editScope = false) :
    Guarded taskStream ({ system with scopes }.setAgent taskId agent) := by
  have hget : ∀ {taskId' found}, (system.agents.set taskId agent).get taskId' = some found →
      (taskId' = taskId ∧ found = agent) ∨ (taskId' ≠ taskId ∧ system.agents.get taskId' = some found) := by
    intro taskId' found hfound
    rw [OrderedMap.get_set] at hfound
    split_ifs at hfound with hid
    · exact .inl ⟨hid, (Option.some.inj hfound).symm⟩
    · exact .inr ⟨hid, hfound⟩
  refine ⟨h.sound, fun taskId' found hfound => ?_, fun taskId' row hrow => ?_,
    fun taskId' found hfound hmutates => ?_, fun taskId' found hfound hmutates hstands => ?_,
    fun first found second found' hfound hfound' hne hmutates hmutates' hsame hstands hstands' => ?_⟩
  · rcases hget hfound with ⟨-, rfl⟩ | ⟨-, hfound⟩
    · exact hjournalled
    · exact h.journalled taskId' found hfound
  · by_cases hid : taskId' = taskId
    · refine ⟨agent, by rw [hid]; exact OrderedMap.get_set_self _ _ _, ?_⟩
      rcases hrows taskId' row hrow with ⟨-, hrow⟩ | ⟨prior, hprior, hrow⟩
      · exact hrow
      · obtain ⟨other, hother, hprior⟩ := h.rows taskId' prior hprior
        rw [hrow, hprior, hworkspace other (hid ▸ hother)]
    · rcases hrows taskId' row hrow with ⟨rfl, -⟩ | ⟨prior, hprior, hrow⟩
      · exact absurd rfl hid
      · obtain ⟨other, hother, hprior⟩ := h.rows taskId' prior hprior
        exact ⟨other, (OrderedMap.get_set_ne _ _ hid).trans hother, hrow.trans hprior⟩
  · rcases hget hfound with ⟨-, rfl⟩ | ⟨-, hfound⟩
    · exact halone hmutates
    · exact h.alone taskId' found hfound hmutates
  · rcases hget hfound with ⟨rfl, rfl⟩ | ⟨hid, hfound⟩
    · exact hown hmutates hstands
    · obtain ⟨row, hrow, hguards⟩ := h.guards taskId' found hfound hmutates hstands
      exact ⟨row, (hkeep taskId' found hfound hmutates hstands hid).trans hrow, hguards⟩
  · rcases hget hfound with ⟨rfl, rfl⟩ | ⟨hid, hother⟩
    · rcases hget hfound' with ⟨rfl, rfl⟩ | ⟨hid', hother'⟩
      · exact absurd rfl hne
      · rw [editScopesOverlap_comm]
        exact hapart second found' hother' hid' hmutates hmutates' hsame.symm hstands hstands'
    · rcases hget hfound' with ⟨rfl, rfl⟩ | ⟨hid', hother'⟩
      · exact hapart first found hother hid hmutates' hmutates hsame hstands' hstands
      · exact h.apart first found second found' hother hother' hne hmutates hmutates' hsame hstands
          hstands'

/-- An agent goes on without standing for more than it did, and its row changes with it. -/
theorem Guarded.advance (h : system.Guarded taskStream)
    (hagent : system.agents.get taskId = some agent) (hworkspace : agent'.workspaceId = agent.workspaceId)
    (hmutates : agent'.mutates = agent.mutates) (hscope : agent'.editScope = agent.editScope)
    (hjournalled : agent'.Journalled taskStream system.tables)
    (halone : agent'.mutates = true → Alone system.tables agent')
    (hscopes : ∀ taskId', taskId' ≠ taskId → scopes.get taskId' = system.scopes.get taskId')
    (hrow : ∀ row, scopes.get taskId = some row →
      ∃ prior, system.scopes.get taskId = some prior ∧ row.workspaceId = prior.workspaceId)
    (hstands : agent'.mutates = true → system.Stands agent' → system.Stands agent)
    (hown : ∀ row, agent'.mutates = true → system.Stands agent' → system.scopes.get taskId = some row →
      Guards system.tables agent row →
      ∃ row', scopes.get taskId = some row' ∧ Guards system.tables agent' row') :
    Guarded taskStream ({ system with scopes }.setAgent taskId agent') := by
  refine h.update ?_ hjournalled halone (fun taskId' row hget => .inr ?_)
    (fun taskId' _ _ _ _ hid => hscopes taskId' hid) (fun hwrites hstands' => ?_)
    fun taskId' other hother hid hwrites hwrites' hsame hstands' hother' => ?_
  · intro prior hprior
    rw [hagent] at hprior
    rw [hworkspace, Option.some.inj hprior]
  · by_cases hid : taskId' = taskId
    · rw [hid] at hget ⊢
      exact hrow row hget
    · exact ⟨row, (hscopes taskId' hid).symm.trans hget, rfl⟩
  · obtain ⟨row, hget, hguards⟩ :=
      h.guards taskId agent hagent (hmutates ▸ hwrites) (hstands hwrites hstands')
    exact hown row hwrites hstands' hget hguards
  · rw [hscope]
    exact h.apart taskId' other taskId agent hother hagent hid hwrites' (hmutates ▸ hwrites)
      (hsame.trans hworkspace) hother' (hstands hwrites hstands')

/-! ## Reservations -/

variable {input : EditScopeReservation} {conflict : Option EditScopeConflict}
  {task : ProcessTaskSnapshot}

/-- **The row of an agent that stands for something is active** for a reservation that takes no such
row for expired. -/
theorem Guards.active (h : system.Guarded taskStream)
    (hagent : system.agents.get taskId = some agent) (hstands : system.Stands agent)
    (hguards : Guards system.tables agent row) (hrival : (taskId, row) ∈ system.scopes.rivals input)
    (hexpires : system.ExpiresIdle input) : row.active system.tables input.now = true := by
  cases htask : row.task with
  | none =>
    have hfresh : row.Fresh input.now := by
      by_contra hexpired
      exact hexpires taskId row agent hrival htask hexpired hagent hstands
    simp [EditScopeRow.active, htask, hfresh]
  | some linked =>
    rcases hstands with hflight | ⟨task, hmem, hholds⟩
    · rw [hguards.unlinked hflight] at htask
      cases htask
    · refine active_of_holds h.sound hholds ?_ input.now
      exact (hguards.linked task hmem hholds).resolve_right (by simp [htask])

/-- A reservation leaves the row of another agent that stands for something alone. -/
theorem Guarded.get_reserved (h : system.Guarded taskStream) (hexpires : system.ExpiresIdle input)
    (hreserve : system.scopes.reserveEditScope system.tables input = (scopes, conflict))
    (hagent : system.agents.get taskId = some agent) (hmutates : agent.mutates = true)
    (hstands : system.Stands agent) (hid : taskId ≠ input.taskId) :
    scopes.get taskId = system.scopes.get taskId := by
  refine (EditScopeRows.get_visited_ne hid hreserve).resolve_right ?_
  rintro ⟨row, hrow, hworkspace, hfree, hinactive, -⟩
  obtain ⟨row', hrow', hguards⟩ := h.guards taskId agent hagent hmutates hstands
  rw [hrow] at hrow'
  cases hrow'
  have hactive := hguards.active h hagent hstands
    (EditScopeRows.mem_rivals.2 ⟨hrow, hworkspace, hfree, hid⟩) hexpires
  simp [hinactive] at hactive

/-- The rows after a reservation are of the workspaces they were of. -/
theorem reserved_workspace
    (hreserve : system.scopes.reserveEditScope system.tables input = (scopes, conflict))
    (hid : taskId ≠ input.taskId) (hrow : scopes.get taskId = some row) :
    ∃ prior, system.scopes.get taskId = some prior ∧ row.workspaceId = prior.workspaceId := by
  rcases EditScopeRows.get_visited_ne hid hreserve with hsame | ⟨prior, hprior, -, -, -, hreleased⟩
  · exact ⟨row, hsame ▸ hrow, rfl⟩
  · rw [hrow] at hreleased
    exact ⟨prior, hprior, by rw [Option.some.inj hreleased]⟩

/-- **A reservation keeps the invariant**, granted or refused. -/
theorem Guarded.reserve (h : system.Guarded taskStream)
    (hworkspace : ∀ prior ∈ system.agents.get taskId, prior.workspaceId = agent.workspaceId)
    (hjournalled : agent.Journalled taskStream system.tables)
    (hidle : agent.mutates = true → ¬ agent.Holds system.tables)
    (hexpires : agent.mutates = true → system.ExpiresIdle (reservation taskId agent now)) :
    Guarded taskStream (system.reserve taskId agent now) := by
  have halone : agent.mutates = true → Alone system.tables agent :=
    fun hmutates _ task htask hholds => absurd ⟨task, htask, hholds⟩ (hidle hmutates)
  unfold EditSystem.reserve
  by_cases hmutates : agent.mutates = true
  · rw [if_neg (by simp [hmutates])]
    obtain ⟨scopes, conflict, hreserve⟩ : ∃ scopes conflict, system.scopes.reserveEditScope
        system.tables (reservation taskId agent now) = (scopes, conflict) := ⟨_, _, rfl⟩
    rw [hreserve]
    cases conflict with
    | some =>
      refine h.setScopes (fun taskId' row hrow => ?_) fun taskId' other hother hwrites hstands => ?_
      · by_cases hid : taskId' = taskId
        · rw [hid] at hrow ⊢
          exact ⟨row, (EditScopeRows.get_refused_self hreserve).symm.trans hrow, rfl⟩
        · exact reserved_workspace hreserve hid hrow
      · by_cases hid : taskId' = taskId
        · rw [hid]
          exact EditScopeRows.get_refused_self hreserve
        · exact h.get_reserved (hexpires hmutates) hreserve hother hwrites hstands hid
    | none =>
      have hown : ∀ row ∈ system.scopes.get taskId, row.workspaceId = agent.workspaceId := by
        intro row hrow
        obtain ⟨prior, hprior, hsame⟩ := h.rows taskId row hrow
        exact hsame.trans (hworkspace prior hprior)
      obtain ⟨hrow, hoverlap⟩ := EditScopeRows.reserveEditScope_ok hreserve hown
      refine h.update hworkspace hjournalled halone (fun taskId' row hget => ?_)
        (fun taskId' other hother hwrites hstands hid =>
          h.get_reserved (hexpires hmutates) hreserve hother hwrites hstands hid)
        (fun _ _ => ⟨_, hrow, rfl, rfl, rfl, fun _ _ _ => .inr rfl, fun _ => rfl⟩)
        fun taskId' other hother hid _ hwrites hsame _ hstands => ?_
      · by_cases hid : taskId' = taskId
        · rw [hid] at hget
          exact .inl ⟨hid, by rw [Option.some.inj (hget.symm.trans hrow)]; rfl⟩
        · exact .inr (reserved_workspace hreserve hid hget)
      · obtain ⟨row, hget, hguards⟩ := h.guards taskId' other hother hwrites hstands
        have hinput : row.workspaceId = (reservation taskId agent now).workspaceId :=
          hguards.workspace.trans hsame
        rw [← hguards.scope]
        exact hoverlap taskId' row hget hinput hguards.free hid (hguards.active h hother hstands
          (EditScopeRows.mem_rivals.2 ⟨hget, hinput, hguards.free, hid⟩) (hexpires hmutates))
  · rw [if_pos (by simpa using hmutates)]
    exact h.update hworkspace hjournalled halone (fun _ row hrow => .inr ⟨row, hrow, rfl⟩)
      (fun _ _ _ _ _ _ => rfl) (fun hwrites => absurd hwrites hmutates)
      fun _ _ _ _ hwrites => absurd hwrites hmutates

/-! ## Steps -/

theorem journal_of_create (h : system.tables.create taskStream task = .ok tables) :
    tables.journal taskStream task.handle ≠ [] := by
  simp only [TaskTables.create, except_bind_ok, except_pure_ok, appendTaskEvent_ok] at h
  obtain ⟨-, -, -, -, -, -, events, ⟨-, -, -, rfl⟩, rfl⟩ := h
  change Function.update system.tables.events (taskStream task.handle) _ (taskStream task.handle) ≠ []
  simp

theorem inFlight_reserved : LaunchPhase.reserved.InFlight := by decide

theorem inFlight_admitted (task : ProcessTaskHandle) : (LaunchPhase.admitted task).InFlight := by
  simp [LaunchPhase.InFlight]

theorem not_inFlight_linked : ¬ LaunchPhase.linked.InFlight := by decide

theorem not_inFlight_settled : ¬ LaunchPhase.settled.InFlight := by decide

/-- While a launch has no task yet, no task of the agent holds a scope. -/
theorem Guarded.not_holds (h : system.Guarded taskStream) (hagent : system.agents.get taskId = some agent)
    (hphase : agent.phase = .reserved) (hmutates : agent.mutates = true) :
    ¬ agent.Holds system.tables := by
  rintro ⟨task, htask, hholds⟩
  have hadmitted := h.alone taskId agent hagent hmutates (hphase ▸ inFlight_reserved) task htask hholds
  simp [hphase] at hadmitted

theorem Guarded.admitTask (h : system.Guarded taskStream) (hagent : system.agents.get taskId = some agent)
    (hphase : agent.phase = .reserved)
    (hjournal : system.tables.journal taskStream task.handle ≠ []) :
    Guarded taskStream (system.setAgent taskId
      { agent with phase := .admitted task.handle, tasks := agent.tasks ++ [task.handle] }) := by
  have hflight : agent.phase.InFlight := hphase ▸ inFlight_reserved
  refine h.advance hagent rfl rfl rfl (fun found hfound => ?_) (fun hmutates _ found hfound hholds => ?_)
    (fun _ _ => rfl) (fun row hrow => ⟨row, hrow, rfl⟩) (fun _ _ => .inl hflight)
    fun row _ _ hrow hguards => ⟨row, hrow, hguards.workspace, hguards.scope, hguards.free,
      fun _ _ _ => .inr (hguards.unlinked hflight), fun _ => hguards.unlinked hflight⟩
  · rcases List.mem_append.1 hfound with hfound | hfound
    · exact h.journalled taskId agent hagent found hfound
    · rwa [List.mem_singleton.1 hfound]
  · rcases List.mem_append.1 hfound with hfound | hfound
    · exact absurd ⟨found, hfound, hholds⟩ (h.not_holds hagent hphase hmutates)
    · rw [List.mem_singleton.1 hfound]

theorem Guarded.link (h : system.Guarded taskStream) (hagent : system.agents.get taskId = some agent)
    {task : ProcessTaskHandle} (hphase : agent.phase = .admitted task) :
    Guarded taskStream ({ system with
        scopes := if agent.mutates then system.scopes.linkEditScope taskId task else system.scopes
      }.setAgent taskId { agent with phase := .linked }) := by
  have hflight : agent.phase.InFlight := hphase ▸ inFlight_admitted task
  refine h.advance hagent rfl rfl rfl (h.journalled taskId agent hagent)
    (fun _ hlinked => absurd hlinked not_inFlight_linked) (fun taskId' hid => ?_) (fun row hrow => ?_)
    (fun _ _ => .inl hflight) fun row hmutates _ hrow hguards => ?_
  · rw [apply_ite (OrderedMap.get · taskId'), EditScopeRows.get_linkEditScope, if_neg hid, ite_self]
  · split_ifs at hrow
    · rw [EditScopeRows.get_linkEditScope, if_pos rfl] at hrow
      obtain ⟨prior, hprior, rfl⟩ := Option.map_eq_some_iff.1 hrow
      exact ⟨prior, hprior, by split_ifs <;> rfl⟩
    · exact ⟨row, hrow, rfl⟩
  · refine ⟨{ row with task := some task }, ?_, hguards.workspace, hguards.scope, hguards.free,
      fun found hfound hholds => .inl ?_, fun hlinked => absurd hlinked not_inFlight_linked⟩
    · have hwrites : agent.mutates = true := hmutates
      simp [hwrites, EditScopeRows.get_linkEditScope, hrow, hguards.free]
    · have hfound := h.alone taskId agent hagent hmutates hflight found hfound hholds
      rw [hphase] at hfound
      exact congrArg some (LaunchPhase.admitted.inj hfound)

theorem Guarded.settle (h : system.Guarded taskStream)
    (hagent : system.agents.get taskId = some agent) :
    Guarded taskStream (system.setAgent taskId { agent with phase := .settled }) :=
  h.advance hagent rfl rfl rfl (h.journalled taskId agent hagent)
    (fun _ hsettled => absurd hsettled not_inFlight_settled) (fun _ _ => rfl)
    (fun row hrow => ⟨row, hrow, rfl⟩)
    (fun _ hstands => hstands.imp_left fun hsettled => absurd hsettled not_inFlight_settled)
    fun row _ _ hrow hguards => ⟨row, hrow, hguards.workspace, hguards.scope, hguards.free,
      hguards.linked, fun hsettled => absurd hsettled not_inFlight_settled⟩

/-- The row of an agent that stands for nothing is released. -/
theorem Guarded.release (h : system.Guarded taskStream)
    (hidle : ∀ agent ∈ system.agents.get taskId, agent.mutates = true → ¬ system.Stands agent) :
    Guarded taskStream
      { system with scopes := system.scopes.releaseEditScope taskId, cleaned } := by
  refine h.setScopes (fun taskId' row hrow => ?_) fun taskId' agent hagent hmutates hstands => ?_
  · rw [EditScopeRows.releaseEditScope, EditScopeRows.get_release] at hrow
    split_ifs at hrow
    · obtain ⟨prior, hprior, rfl⟩ := Option.map_eq_some_iff.1 hrow
      exact ⟨prior, hprior, rfl⟩
    · exact ⟨row, hrow, rfl⟩
  · rw [EditScopeRows.releaseEditScope, EditScopeRows.get_release, if_neg]
    rintro rfl
    exact hidle agent hagent hmutates hstands

/-- **A careful step keeps the invariant.** -/
theorem Guarded.step {event : EditEvent} (h : system.Guarded taskStream)
    (hcareful : system.Careful event) (hstep : system.step taskStream event = some system') :
    system'.Guarded taskStream := by
  cases event with
  | launch taskId _ _ _ now =>
    simp only [EditSystem.step, Option.ite_none_left_eq_some, Option.some.injEq, not_not] at hstep
    obtain ⟨hnew, rfl⟩ := hstep
    refine h.reserve (by simp [hnew]) (fun _ htask => absurd htask List.not_mem_nil)
      (fun _ hholds => ?_) hcareful
    obtain ⟨task, htask, -⟩ := hholds
    exact absurd htask List.not_mem_nil
  | «continue» taskId now =>
    simp only [EditSystem.step, Option.bind_eq_bind, Option.bind_eq_some_iff,
      Option.ite_none_left_eq_some, Option.some.injEq] at hstep
    obtain ⟨agent, hagent, -, rfl⟩ := hstep
    exact h.reserve (fun _ hprior => by rw [hagent] at hprior; rw [← Option.some.inj hprior]; rfl)
      (h.journalled taskId agent hagent) (fun hmutates => (hcareful agent hagent hmutates).1)
      fun hmutates => (hcareful agent hagent hmutates).2
  | admitTask taskId task =>
    simp only [EditSystem.step, Option.bind_eq_bind, Option.bind_eq_some_iff,
      Option.ite_none_left_eq_some, Option.some.injEq, not_not] at hstep
    obtain ⟨agent, hagent, hphase, tables, htables, rfl⟩ := hstep
    have hcreate := toOption_eq_some.1 htables
    exact (h.moves (moves_of_create hcreate)).admitTask hagent hphase (journal_of_create hcreate)
  | link taskId =>
    simp only [EditSystem.step, Option.bind_eq_bind, Option.bind_eq_some_iff] at hstep
    obtain ⟨agent, hagent, hstep⟩ := hstep
    split at hstep
    next task hphase =>
      obtain rfl := Option.some.inj hstep
      exact h.link hagent hphase
    · cases hstep
  | refuse taskId =>
    simp only [EditSystem.step, Option.bind_eq_bind, Option.bind_eq_some_iff,
      Option.ite_none_left_eq_some, Option.some.injEq, not_not] at hstep
    obtain ⟨agent, hagent, hphase, rfl⟩ := hstep
    -- The agent stands for nothing once its launch is settled, so its row can go.
    refine (h.settle hagent).release fun _ hfound hmutates hstands => ?_
    rw [EditSystem.setAgent, OrderedMap.get_set_self] at hfound
    cases hfound
    have hidle := h.not_holds hagent hphase hmutates
    exact hstands.elim not_inFlight_settled hidle
  | settle taskId =>
    simp only [EditSystem.step, Option.bind_eq_bind, Option.bind_eq_some_iff,
      Option.some.injEq] at hstep
    obtain ⟨agent, hagent, rfl⟩ := hstep
    exact h.settle hagent
  | cleanup taskId _ _ now =>
    simp only [EditSystem.step, Option.map_eq_some_iff] at hstep
    obtain ⟨tables, htables, rfl⟩ := hstep
    exact h.moves (moves_of_cleanup (toOption_eq_some.1 htables))
  | release taskId =>
    simp only [EditSystem.step, Option.ite_none_left_eq_some, Option.some.injEq] at hstep
    obtain ⟨-, rfl⟩ := hstep
    exact h.release hcareful
  | task =>
    simp only [EditSystem.step, Option.map_eq_some_iff] at hstep
    obtain ⟨tables, htables, rfl⟩ := hstep
    exact h.moves (moves_of_step hcareful htables)

theorem guarded_empty : EditSystem.empty.Guarded taskStream where
  sound := sound_empty
  journalled _ _ h := by cases h
  rows _ _ h := by cases h
  alone _ _ h := by cases h
  guards _ _ h := by cases h
  apart _ _ _ _ h := by cases h

/-- **Edit scopes exclude each other** in every state of a run whose steps are all careful. -/
theorem exclusive_of_careful {events : List EditEvent}
    (hcareful : StateMachine.Along (EditSystem.step taskStream) EditSystem.Careful .empty events)
    (hrun : StateMachine.run (EditSystem.step taskStream) .empty events = some system) :
    system.Exclusive :=
  (StateMachine.run_along_preserves (I := fun reached : EditSystem => reached.Guarded taskStream)
    (fun _ _ _ hguarded hcareful hstep => hguarded.step hcareful hstep) guarded_empty hcareful hrun).exclusive

end

/-! ## A continuation that is refused -/

/-- The task of an agent. -/
def agentTask (taskId : String) (createdAt : ℕ) : ProcessTaskSnapshot :=
  { queuedProcess with
    executionKind := some .agent
    handle := ⟨taskId, "generation-1"⟩
    supervisor := ⟨"run-1", some ⟨.linux, 4242, "birth-1"⟩, createdAt + 15000⟩
    createdAt }

/-- The end of an agent that was interrupted. -/
def interrupted (sealedAt : ℕ) : ProcessTaskTerminal :=
  ⟨.uncertain, .uncertain, .agentFailed, none, none, sealedAt, none, some true⟩

/-- A writer ends with an uncertain effect, its continuation is refused for want of a task, and then
another writer is launched on the same path. -/
def refusedContinuation : List EditEvent :=
  [.launch "agent-a" "workspace-1" true (some ["src"]) 0, .admitTask "agent-a" (agentTask "task-a" 0),
    .link "agent-a", .task (.transition ⟨⟨"task-a", "generation-1"⟩, "run-1", 1⟩ (.started none) 1 true),
    .task (.transition ⟨⟨"task-a", "generation-1"⟩, "run-1", 2⟩ .settling 2 true),
    .task (.transition ⟨⟨"task-a", "generation-1"⟩, "run-1", 3⟩ (.sealed (interrupted 3)) 3 true),
    .settle "agent-a", .continue "agent-a" 4, .refuse "agent-a",
    .launch "agent-b" "workspace-1" true (some ["src"]) 5, .admitTask "agent-b" (agentTask "task-b" 5),
    .link "agent-b"]

/-- **A refused continuation lets another writer in**: the row that is released stands for the task of
the earlier generation as well. -/
theorem not_exclusive :
    ∃ events system, StateMachine.run (EditSystem.step plainStream) .empty events = some system
      ∧ ¬ system.Exclusive := by
  have hrun : (StateMachine.run (EditSystem.step plainStream) .empty refusedContinuation).any
      (fun system => decide (∃ agent ∈ system.agents.get "agent-a", ∃ agent' ∈ system.agents.get "agent-b",
        (agent.mutates = true ∧ agent'.mutates = true ∧ agent.workspaceId = agent'.workspaceId)
          ∧ editScopesOverlap agent.editScope agent'.editScope = true
          ∧ agent.Holds system.tables ∧ agent'.Holds system.tables)) = true := by
    decide +kernel
  obtain ⟨system, hsystem, hfound⟩ := Option.any_eq_true _ _ |>.1 hrun
  obtain ⟨agent, hagent, agent', hagent', ⟨hmutates, hmutates', hworkspace⟩, hoverlap, hholds⟩ :=
    of_decide_eq_true hfound
  exact ⟨refusedContinuation, system, hsystem, fun hexclusive =>
    hexclusive "agent-a" agent "agent-b" agent' hagent hagent' (by decide) hmutates hmutates' hworkspace
      hoverlap hholds⟩

/-- A writer, one that is refused for it and one on another path. -/
def writersApart : List EditEvent :=
  [.launch "agent-a" "workspace-1" true (some ["src"]) 0, .admitTask "agent-a" (agentTask "task-a" 0),
    .link "agent-a", .launch "agent-b" "workspace-1" true (some ["src/lib"]) 1,
    .launch "agent-c" "workspace-1" true (some ["docs"]) 2, .admitTask "agent-c" (agentTask "task-c" 2)]

/-- Two of the writers have a task, and they exclude each other. -/
theorem exclusive_of_careful_apart :
    ∃ system, StateMachine.run (EditSystem.step plainStream) .empty writersApart = some system
      ∧ (∀ agent ∈ system.agents.get "agent-a", agent.Holds system.tables)
      ∧ (∀ agent ∈ system.agents.get "agent-c", agent.Holds system.tables) ∧ system.agents.size = 2
      ∧ system.Exclusive := by
  have hrun : (StateMachine.run (EditSystem.step plainStream) .empty writersApart).any
      (fun system => decide ((∀ agent ∈ system.agents.get "agent-a", agent.Holds system.tables)
        ∧ (∀ agent ∈ system.agents.get "agent-c", agent.Holds system.tables)
        ∧ system.agents.size = 2)) = true := by
    decide +kernel
  have hcareful : StateMachine.Along (EditSystem.step plainStream) EditSystem.Careful .empty
      writersApart := by
    decide +kernel
  obtain ⟨system, hsystem, hfound⟩ := Option.any_eq_true _ _ |>.1 hrun
  obtain ⟨hfirst, hthird, hsize⟩ := of_decide_eq_true hfound
  exact ⟨system, hsystem, hfirst, hthird, hsize, exclusive_of_careful hcareful hsystem⟩

end EditSystem

end Falryn.Orchestration
