import Falryn.Orchestration.EditScopeStore

/-!
# Launches that reserve an edit scope

The agents of any number of hosts over one store (`delegation.ts`): a launch or a continuation reserves
the scope of its agent, then its task is admitted and linked to the row, and the row is released when
the launch is refused or when a task of the agent was cleaned up.  Each of these is one call of the
store, and the calls of different hosts come in any order; between them the tasks go on by themselves.
The id of an agent is new, its authority stays what it was at its launch, and one host holds the agent.
-/

namespace Falryn.Orchestration

/-- A task is kept by the store and not over, or it ended with an uncertain effect. -/
def TaskTables.Holds (tables : TaskTables) (task : ProcessTaskHandle) : Prop :=
  ∃ row ∈ tables.tasks.get task.taskId, row.snapshot.handle = task ∧ row.snapshot.KeepsScope

instance (tables : TaskTables) (task : ProcessTaskHandle) : Decidable (tables.Holds task) := by
  unfold TaskTables.Holds
  infer_instance

/-- How far the latest launch of an agent has come. -/
inductive LaunchPhase where
  /-- The launch was accepted and no task is admitted yet. -/
  | reserved
  /-- The task is created; `onAdmitted` has still to be called. -/
  | admitted (task : ProcessTaskHandle)
  | linked
  /-- `running` is false. -/
  | settled
  deriving DecidableEq

/-- A launch that may still link a task to the row of its agent. -/
def LaunchPhase.InFlight (phase : LaunchPhase) : Prop := phase ≠ .linked ∧ phase ≠ .settled

instance (phase : LaunchPhase) : Decidable phase.InFlight := by
  unfold LaunchPhase.InFlight
  infer_instance

/-- What of an agent that a host holds bears on its edit scope, and the tasks that were ever admitted
for it. -/
structure EditAgent where
  workspaceId : String
  /-- `authority.effects.includes("mutation")`. -/
  mutates : Bool
  editScope : EditScope
  generation : ℕ
  phase : LaunchPhase
  tasks : List ProcessTaskHandle

/-- A task of an agent is not over, or ended with an uncertain effect and was not cleaned up. -/
def EditAgent.Holds (agent : EditAgent) (tables : TaskTables) : Prop :=
  ∃ task ∈ agent.tasks, tables.Holds task

instance (agent : EditAgent) (tables : TaskTables) : Decidable (agent.Holds tables) := by
  unfold EditAgent.Holds
  infer_instance

/-- What the hosts share, and the agents they hold. -/
structure EditSystem where
  tables : TaskTables
  scopes : EditScopeRows
  agents : OrderedMap String EditAgent
  /-- The agents a task was cleaned up in the name of, until their rows are released. -/
  cleaned : List String

inductive EditEvent where
  | launch (taskId workspaceId : String) (mutates : Bool) (editScope : EditScope) (now : ℤ)
  | «continue» (taskId : String) (now : ℤ)
  | admitTask (taskId : String) (task : ProcessTaskSnapshot)
  | link (taskId : String)
  | refuse (taskId : String)
  /-- The promise of a launch is settled, or its host is gone. -/
  | settle (taskId : String)
  /-- A host cleans a task up in the name of an agent.  That it is the task of that agent is checked
  only where the host holds the agent or the task was registered. -/
  | cleanup (taskId : String) (handle : ProcessTaskHandle) (expectedRevision : ℕ) (now : ℤ)
      (needed joined : Bool)
  | release (taskId : String)
  /-- Any call of the store of process tasks. -/
  | task (call : TaskCall)

namespace EditSystem

/-- A new store, and no agents. -/
def empty : EditSystem := ⟨.empty, .empty, .empty, []⟩

def setAgent (system : EditSystem) (taskId : String) (agent : EditAgent) : EditSystem :=
  { system with agents := system.agents.set taskId agent }

/-- What `reserve` asks the store for. -/
def reservation (taskId : String) (agent : EditAgent) (now : ℤ) : EditScopeReservation :=
  ⟨taskId, agent.generation, agent.workspaceId, agent.editScope, now⟩

/-- `reserve`, and the launch that it lets through.  Only an agent that writes reserves. -/
def reserve (system : EditSystem) (taskId : String) (agent : EditAgent) (now : ℤ) : EditSystem :=
  if agent.mutates = false then system.setAgent taskId agent
  else
    match system.scopes.reserveEditScope system.tables (reservation taskId agent now) with
    | (scopes, none) => { system with scopes }.setAgent taskId agent
    | (scopes, some _) => { system with scopes }

/-- The next generation of an agent, as `continue` makes it. -/
def next (agent : EditAgent) : EditAgent :=
  { agent with generation := agent.generation + 1, phase := .reserved }

/-- What one event does, if it can happen.  `taskStream` is a digest of a handle. -/
def step (taskStream : ProcessTaskHandle → String) (system : EditSystem) :
    EditEvent → Option EditSystem
  | .launch taskId workspaceId mutates editScope now =>
    if system.agents.get taskId ≠ none then none
    else some (system.reserve taskId ⟨workspaceId, mutates, editScope, 1, .reserved, []⟩ now)
  | .continue taskId now => do
    let agent ← system.agents.get taskId
    if agent.phase ≠ .settled ∨ 64 ≤ agent.generation then none
    else some (system.reserve taskId (next agent) now)
  | .admitTask taskId task => do
    let agent ← system.agents.get taskId
    if agent.phase ≠ .reserved then none
    else
      let tables ← (system.tables.create taskStream task).toOption
      some ({ system with tables }.setAgent taskId
        { agent with phase := .admitted task.handle, tasks := agent.tasks ++ [task.handle] })
  | .link taskId => do
    let agent ← system.agents.get taskId
    match agent.phase with
    | .admitted task =>
      some ({ system with
        scopes := if agent.mutates then system.scopes.linkEditScope taskId task else system.scopes
        }.setAgent taskId { agent with phase := .linked })
    | _ => none
  | .refuse taskId => do
    let agent ← system.agents.get taskId
    if agent.phase ≠ .reserved then none
    else
      some ({ system with scopes := system.scopes.releaseEditScope taskId }.setAgent taskId
        { agent with phase := .settled })
  | .settle taskId => do
    let agent ← system.agents.get taskId
    some (system.setAgent taskId { agent with phase := .settled })
  | .cleanup taskId handle expectedRevision now needed joined =>
    (system.tables.cleanup taskStream handle expectedRevision now needed joined).toOption.map
      fun tables => { system with tables, cleaned := taskId :: system.cleaned }
  | .release taskId =>
    if taskId ∉ system.cleaned then none
    else
      some { system with
        scopes := system.scopes.releaseEditScope taskId, cleaned := system.cleaned.erase taskId }
  | .task call => (system.tables.step taskStream call).map fun tables => { system with tables }

/-- **Edit scopes exclude each other**: no two agents that write, in one workspace and with scopes that
overlap, both have a task that is not over or that ended with an uncertain effect and was not cleaned
up. -/
def Exclusive (system : EditSystem) : Prop :=
  ∀ taskId agent taskId' agent', system.agents.get taskId = some agent →
    system.agents.get taskId' = some agent' → taskId ≠ taskId' → agent.mutates = true →
    agent'.mutates = true → agent.workspaceId = agent'.workspaceId →
    editScopesOverlap agent.editScope agent'.editScope = true →
    ¬ (agent.Holds system.tables ∧ agent'.Holds system.tables)

/-- An agent stands for something: a launch is in flight, or a task holds its scope. -/
def Stands (system : EditSystem) (agent : EditAgent) : Prop :=
  agent.phase.InFlight ∨ agent.Holds system.tables

instance (system : EditSystem) (agent : EditAgent) : Decidable (system.Stands agent) := by
  unfold Stands
  infer_instance

/-- A reservation takes no unlinked row for expired whose agent still stands for something. -/
def ExpiresIdle (system : EditSystem) (input : EditScopeReservation) : Prop :=
  ∀ taskId row agent, (taskId, row) ∈ system.scopes.rivals input → row.task = none →
    ¬ row.Fresh input.now → system.agents.get taskId = some agent → ¬ system.Stands agent

/-- **What a step has to meet** for edit scopes to exclude each other: a reservation drops no unlinked
row whose launch is still in flight or has a task; an agent is not continued while a task of an
earlier generation holds its scope; a cleanup does not release the row of an agent that has another
launch in flight or another such task; and no lease is renewed past the last safe integer. -/
def Careful (system : EditSystem) : EditEvent → Prop
  | .launch taskId workspaceId mutates editScope now =>
    mutates = true → system.ExpiresIdle ⟨taskId, 1, workspaceId, editScope, now⟩
  | .continue taskId now => ∀ agent ∈ system.agents.get taskId, agent.mutates = true →
    ¬ agent.Holds system.tables ∧ system.ExpiresIdle (reservation taskId (next agent) now)
  | .release taskId => ∀ agent ∈ system.agents.get taskId, agent.mutates = true →
    ¬ system.Stands agent
  | .task call => system.tables.RenewsSafely call
  | _ => True

instance (system : EditSystem) (input : EditScopeReservation) : Decidable (system.ExpiresIdle input) :=
  decidable_of_iff (∀ entry ∈ system.scopes.rivals input, entry.2.task = none →
      ¬ entry.2.Fresh input.now → ∀ agent ∈ system.agents.get entry.1, ¬ system.Stands agent)
    ⟨fun h _ row agent hrival htask hexpired hagent => h (_, row) hrival htask hexpired agent hagent,
      fun h entry hentry htask hexpired agent hagent =>
        h entry.1 entry.2 agent hentry htask hexpired hagent⟩

instance (system : EditSystem) (event : EditEvent) : Decidable (system.Careful event) := by
  cases event <;> (unfold Careful; infer_instance)

end EditSystem

end Falryn.Orchestration
