import Falryn.Orchestration.Outcome

/-!
# Process tasks

The record of an execution that outlives the call that started it (`process-task.ts`): a captured
process, an agent, a workflow or a question.  A snapshot says who owns the task, which supervisor runs
it until when its lease lasts, and how far it has come; `transitionProcessTask` is what its supervisor
may do to it.  A schema is a proposition about a record, its field formats first and then the rules
between its fields.
-/

namespace Falryn

/-- `Number.isSafeInteger`, for an integer.  A reading of a clock that is no integer at all is refused
wherever an unsafe one is. -/
def IsSafeInteger (n : ℤ) : Prop := |n| ≤ 2 ^ 53 - 1

instance (n : ℤ) : Decidable (IsSafeInteger n) := by
  unfold IsSafeInteger
  infer_instance

theorem isSafeInteger_natCast {n : ℕ} : IsSafeInteger n ↔ n ≤ 2 ^ 53 - 1 := by
  rw [IsSafeInteger, Nat.abs_cast]
  norm_num

namespace Orchestration

/-! ## Field formats -/

/-- `identity`: 1 to 128 characters of `[a-zA-Z0-9._:-]`. -/
def isIdentity (text : String) : Bool :=
  decide (1 ≤ text.length) && decide (text.length ≤ 128)
    && text.toList.all fun c => c.isAlphanum || ['.', '_', ':', '-'].contains c

/-- `/^[a-f0-9]{64}$/`. -/
def isHex64 (text : List Char) : Bool :=
  text.length == 64 && text.all fun c => c.isDigit || (decide ('a' ≤ c) && decide (c ≤ 'f'))

/-- `/^sha-256:[a-f0-9]{64}$/`. -/
def isDigestText (text : String) : Bool :=
  "sha-256:".toList.isPrefixOf text.toList && isHex64 (text.toList.drop 8)

/-! ## The records -/

/-- `executionKind`. -/
inductive ExecutionKind where
  | process
  | agent
  | question
  | workflow
  deriving DecidableEq

namespace ExecutionKind

/-- Agents and workflows: they run without a process of their own. -/
def Orchestrated (kind : ExecutionKind) : Prop := kind = agent ∨ kind = workflow

instance (kind : ExecutionKind) : Decidable kind.Orchestrated := by
  unfold Orchestrated
  infer_instance

end ExecutionKind

/-- `processTaskHandleSchema`. -/
structure ProcessTaskHandle where
  taskId : String
  generation : String
  deriving DecidableEq

/-- `processTaskOwnerSchema`. -/
structure ProcessTaskOwner where
  sessionId : String
  workspaceId : String
  turnId : String
  invocationId : String
  attemptId : String
  configurationGeneration : ℕ
  resourceTaskId : String
  deriving DecidableEq

inductive Platform where
  | linux
  | darwin
  deriving DecidableEq

/-- `processBirthIdentitySchema`. -/
structure ProcessBirthIdentity where
  platform : Platform
  pid : ℕ
  birth : String
  deriving DecidableEq

/-- `processTaskSupervisorSchema`. -/
structure ProcessTaskSupervisor where
  runId : String
  process : Option ProcessBirthIdentity
  leaseExpiresAt : ℕ
  deriving DecidableEq

/-- `processTaskArtifactSchema`. -/
structure ProcessTaskArtifact where
  artifactId : String
  digest : String
  byteLength : ℕ
  deriving DecidableEq

/-- `TERMINAL_OUTCOME_KINDS`. -/
inductive TerminalOutcomeKind where
  | completed
  | failed
  | cancelled
  | timedOut
  | uncertain
  deriving DecidableEq

/-- The reasons of a terminal. -/
inductive TerminalReason where
  | exited
  | spawnFailed
  | cancelled
  | timedOut
  | captureExceeded
  | persistenceUnavailable
  | unconfirmedExit
  | supervisorVanished
  | supervisorReplaced
  | supervisorUnreachable
  | ownershipUncertain
  | agentCompleted
  | agentFailed
  | workflowCompleted
  | workflowFailed
  | questionSettled
  deriving DecidableEq

/-- A terminal before it is checked. -/
structure ProcessTaskTerminal where
  outcome : TerminalOutcomeKind
  effect : EffectCertainty
  reason : TerminalReason
  exitCode : Option ℤ
  signal : Option String
  sealedAt : ℕ
  result : Option ProcessTaskArtifact
  outputComplete : Option Bool
  deriving DecidableEq

inductive TaskAttachment where
  | foreground
  | background
  deriving DecidableEq

inductive TaskOutputMode where
  | raw
  | hush
  deriving DecidableEq

/-- The states of a task. -/
inductive ProcessTaskState where
  | queued
  | running
  | settling
  | terminal
  deriving DecidableEq

/-- A snapshot of a task before it is checked. -/
structure ProcessTaskSnapshot where
  /-- Omitted in existing captured-process records. -/
  executionKind : Option ExecutionKind
  handle : ProcessTaskHandle
  revision : ℕ
  owner : ProcessTaskOwner
  supervisor : ProcessTaskSupervisor
  attachment : TaskAttachment
  createdAt : ℕ
  deadline : ℕ
  inputDigest : String
  outputMode : TaskOutputMode
  state : ProcessTaskState
  process : Option ProcessBirthIdentity
  terminal : Option ProcessTaskTerminal
  deriving DecidableEq

/-- `executionKind ?? "process"`. -/
def ProcessTaskSnapshot.kind (task : ProcessTaskSnapshot) : ExecutionKind :=
  task.executionKind.getD .process

/-! ## Schemas -/

/-- `timestamp`. -/
def isTimestamp (n : ℕ) : Bool := decide (IsSafeInteger n)

/-- `processTaskHandleSchema`. -/
def ProcessTaskHandle.Schema (handle : ProcessTaskHandle) : Prop :=
  isIdentity handle.taskId ∧ isIdentity handle.generation

instance (handle : ProcessTaskHandle) : Decidable handle.Schema := by
  unfold ProcessTaskHandle.Schema
  infer_instance

/-- `processTaskOwnerSchema`. -/
def ProcessTaskOwner.Schema (owner : ProcessTaskOwner) : Prop :=
  isIdentity owner.sessionId ∧ isIdentity owner.workspaceId ∧ isIdentity owner.turnId
    ∧ isIdentity owner.invocationId ∧ isIdentity owner.attemptId
    ∧ IsSafeInteger owner.configurationGeneration ∧ isIdentity owner.resourceTaskId

instance (owner : ProcessTaskOwner) : Decidable owner.Schema := by
  unfold ProcessTaskOwner.Schema
  infer_instance

/-- `processBirthIdentitySchema`. -/
def ProcessBirthIdentity.Schema (process : ProcessBirthIdentity) : Prop :=
  1 ≤ process.pid ∧ IsSafeInteger process.pid ∧ isIdentity process.birth

instance (process : ProcessBirthIdentity) : Decidable process.Schema := by
  unfold ProcessBirthIdentity.Schema
  infer_instance

/-- `processTaskSupervisorSchema`. -/
def ProcessTaskSupervisor.Schema (supervisor : ProcessTaskSupervisor) : Prop :=
  isIdentity supervisor.runId ∧ (∀ process ∈ supervisor.process, process.Schema)
    ∧ isTimestamp supervisor.leaseExpiresAt

instance (supervisor : ProcessTaskSupervisor) : Decidable supervisor.Schema := by
  unfold ProcessTaskSupervisor.Schema
  infer_instance

/-- `processTaskArtifactSchema`. -/
def ProcessTaskArtifact.Schema (artifact : ProcessTaskArtifact) : Prop :=
  isIdentity artifact.artifactId ∧ isDigestText artifact.digest ∧ IsSafeInteger artifact.byteLength

instance (artifact : ProcessTaskArtifact) : Decidable artifact.Schema := by
  unfold ProcessTaskArtifact.Schema
  infer_instance

namespace ProcessTaskTerminal

/-- The fields of a terminal have their formats. -/
def Formats (terminal : ProcessTaskTerminal) : Prop :=
  (∀ code ∈ terminal.exitCode, IsSafeInteger code) ∧ (∀ signal ∈ terminal.signal, isIdentity signal)
    ∧ isTimestamp terminal.sealedAt ∧ ∀ artifact ∈ terminal.result, artifact.Schema

/-- The reasons of an agent or a workflow that completed. -/
def OrchestrationCompleted (terminal : ProcessTaskTerminal) : Prop :=
  terminal.reason = .agentCompleted ∨ terminal.reason = .workflowCompleted

instance (terminal : ProcessTaskTerminal) : Decidable terminal.OrchestrationCompleted := by
  unfold OrchestrationCompleted
  infer_instance

/-- The rules between the fields of a terminal. -/
def Agrees (terminal : ProcessTaskTerminal) : Prop :=
  if terminal.OrchestrationCompleted ∧ terminal.outcome ≠ .completed then False
  else if terminal.outcome = .uncertain then terminal.effect = .uncertain
  else if terminal.outcome ≠ .completed then True
  else if terminal.reason = .questionSettled then
    terminal.effect = .none ∧ terminal.exitCode = none ∧ terminal.signal = none
      ∧ terminal.result = none
  else if terminal.OrchestrationCompleted then
    terminal.effect ≠ .uncertain ∧ terminal.exitCode = none ∧ terminal.signal = none
      ∧ terminal.result ≠ none
  else
    terminal.effect = .completed ∧ terminal.reason = .exited ∧ terminal.exitCode = some 0
      ∧ terminal.signal = none ∧ terminal.result ≠ none

instance (terminal : ProcessTaskTerminal) : Decidable terminal.Agrees := by
  unfold Agrees
  infer_instance

/-- `processTaskTerminalSchema`. -/
def Schema (terminal : ProcessTaskTerminal) : Prop := terminal.Formats ∧ terminal.Agrees

instance (terminal : ProcessTaskTerminal) : Decidable terminal.Schema := by
  unfold Schema Formats
  infer_instance

end ProcessTaskTerminal

/-- The reason with which an execution of a kind that is not a process completes. -/
def ExecutionKind.completedReason : ExecutionKind → TerminalReason
  | .process => .exited
  | .agent => .agentCompleted
  | .question => .questionSettled
  | .workflow => .workflowCompleted

namespace ProcessTaskSnapshot

/-- The fields all states have in common have their formats. -/
def Formats (task : ProcessTaskSnapshot) : Prop :=
  task.handle.Schema ∧ (1 ≤ task.revision ∧ IsSafeInteger task.revision) ∧ task.owner.Schema
    ∧ task.supervisor.Schema ∧ isTimestamp task.createdAt ∧ isTimestamp task.deadline
    ∧ isHex64 task.inputDigest.toList

/-- The fields that depend on the state. -/
def Shape (task : ProcessTaskSnapshot) : Prop :=
  (∀ process ∈ task.process, process.Schema)
    ∧ match task.state with
      | .queued => task.process = none ∧ task.terminal = none
      | .running | .settling => task.terminal = none
      | .terminal => task.terminal ≠ none ∧ ∀ terminal ∈ task.terminal, terminal.Schema

/-- What a question that settled leaves in its terminal. -/
def SettledQuestion (terminal : ProcessTaskTerminal) : Prop :=
  terminal.reason = .questionSettled ∧ terminal.effect = .none ∧ terminal.exitCode = none
    ∧ terminal.signal = none ∧ terminal.result = none

instance (terminal : ProcessTaskTerminal) : Decidable (SettledQuestion terminal) := by
  unfold SettledQuestion
  infer_instance

/-- A terminal that completed says so for the kind of its task. -/
def CompletesAs (task : ProcessTaskSnapshot) (terminal : ProcessTaskTerminal) : Prop :=
  terminal.outcome ≠ .completed ∨ terminal.reason = task.kind.completedReason
    ∧ (task.kind = .process → task.process ≠ none)

instance (task : ProcessTaskSnapshot) (terminal : ProcessTaskTerminal) :
    Decidable (task.CompletesAs terminal) := by
  unfold CompletesAs
  infer_instance

/-- The rules between the fields of a snapshot. -/
def Agrees (task : ProcessTaskSnapshot) : Prop :=
  task.createdAt ≤ task.deadline
    ∧ (if task.kind = .question then
        task.state = .queued
          ∨ task.state = .terminal ∧ ∀ terminal ∈ task.terminal, SettledQuestion terminal
      else ∀ terminal ∈ task.terminal, terminal.reason ≠ .questionSettled)
    ∧ (task.kind = .question ∨ task.supervisor.process ≠ none)
    ∧ (task.kind = .process ∨ task.process = none)
    ∧ (task.state ≠ .running ∨ task.kind.Orchestrated ∨ task.process ≠ none)
    ∧ ∀ terminal ∈ task.terminal, task.createdAt ≤ terminal.sealedAt ∧ task.CompletesAs terminal

/-- `processTaskSnapshotSchema`. -/
def Schema (task : ProcessTaskSnapshot) : Prop := task.Formats ∧ task.Shape ∧ task.Agrees

instance (task : ProcessTaskSnapshot) : Decidable task.Shape := by
  unfold Shape
  cases task.state <;> infer_instance

instance (task : ProcessTaskSnapshot) : Decidable task.Schema := by
  unfold Schema Formats Agrees
  infer_instance

end ProcessTaskSnapshot

/-! ## Transitions -/

inductive ProcessTaskTransition where
  | started (process : Option ProcessBirthIdentity)
  | attachment (attachment : TaskAttachment)
  | settling
  | sealed (terminal : ProcessTaskTerminal)

structure ProcessTaskFence where
  handle : ProcessTaskHandle
  supervisorRunId : String
  expectedRevision : ℕ

/-- The codes with which a transition is refused. -/
inductive TransitionRefusal where
  | staleGeneration
  | staleRevision
  | ownershipUnavailable
  | invalidTransition
  | sealed
  deriving DecidableEq

namespace ProcessTaskSnapshot

/-- What a transition asks of the task. -/
def MayChange (current : ProcessTaskSnapshot) (now : ℤ) : ProcessTaskTransition → Prop
  | .started process =>
    current.state = .queued ∧ now < current.deadline ∧ (current.kind.Orchestrated ↔ process = none)
  | .attachment _ => current.state ≠ .settling ∧ now < current.deadline
  | .settling => current.state ≠ .settling
  | .sealed terminal =>
    current.state = .settling ∧ (terminal.sealedAt : ℤ) = now ∧ terminal.Schema
      ∧ (terminal.outcome ≠ .completed
        ∨ if current.kind.Orchestrated then terminal.reason = current.kind.completedReason
          else current.process ≠ none ∧ terminal.reason = .exited)

instance (current : ProcessTaskSnapshot) (now : ℤ) (change : ProcessTaskTransition) :
    Decidable (current.MayChange now change) := by
  cases change <;> (unfold MayChange; infer_instance)

/-- What a transition makes of the task. -/
def changed (current : ProcessTaskSnapshot) : ProcessTaskTransition → ProcessTaskSnapshot
  | .started process => { current with
      revision := current.revision + 1, state := .running, process, terminal := none }
  | .attachment attachment => { current with revision := current.revision + 1, attachment }
  | .settling => { current with
      revision := current.revision + 1, state := .settling, terminal := none }
  | .sealed terminal => { current with
      revision := current.revision + 1, state := .terminal, terminal := some terminal }

section
variable (current : ProcessTaskSnapshot) (change : ProcessTaskTransition)

@[simp] theorem changed_kind : (current.changed change).kind = current.kind := by
  cases change <;> rfl

@[simp] theorem changed_handle : (current.changed change).handle = current.handle := by
  cases change <;> rfl

@[simp] theorem changed_revision : (current.changed change).revision = current.revision + 1 := by
  cases change <;> rfl

@[simp] theorem changed_owner : (current.changed change).owner = current.owner := by
  cases change <;> rfl

end

end ProcessTaskSnapshot

def transitionProcessTask (current : ProcessTaskSnapshot) (fence : ProcessTaskFence)
    (change : ProcessTaskTransition) (now : ℤ) : Except TransitionRefusal ProcessTaskSnapshot :=
  if current.handle ≠ fence.handle then .error .staleGeneration
  else if current.revision ≠ fence.expectedRevision ∨ 2 ^ 53 - 1 ≤ current.revision then
    .error .staleRevision
  else if current.supervisor.runId ≠ fence.supervisorRunId
      ∨ (current.supervisor.leaseExpiresAt : ℤ) ≤ now then
    .error .ownershipUnavailable
  else if current.state = .terminal then .error .sealed
  else if ¬ IsSafeInteger now ∨ now < current.createdAt then .error .invalidTransition
  else if current.MayChange now change then .ok (current.changed change)
  else .error .invalidTransition

/-- Who asks for a transition, and when, is not refused. -/
structure ProcessTaskFence.Admits (fence : ProcessTaskFence) (current : ProcessTaskSnapshot)
    (now : ℤ) : Prop where
  handle : current.handle = fence.handle
  revision : current.revision = fence.expectedRevision
  below : current.revision < 2 ^ 53 - 1
  runId : current.supervisor.runId = fence.supervisorRunId
  leased : now < current.supervisor.leaseExpiresAt
  unsealed : current.state ≠ .terminal
  safe : IsSafeInteger now
  created : (current.createdAt : ℤ) ≤ now

/-- **A transition is taken where its fence admits it and the task may change so.** -/
theorem transitionProcessTask_ok {current next : ProcessTaskSnapshot} {fence : ProcessTaskFence}
    {change : ProcessTaskTransition} {now : ℤ} :
    transitionProcessTask current fence change now = .ok next ↔
      fence.Admits current now ∧ current.MayChange now change ∧ next = current.changed change := by
  constructor
  · intro h
    simp only [transitionProcessTask] at h
    split_ifs at h with h₁ h₂ h₃ h₄ h₅ h₆
    push Not at h₁ h₂ h₃ h₅
    exact ⟨⟨h₁, h₂.1, h₂.2, h₃.1, h₃.2, h₄, h₅.1, h₅.2⟩, h₆, (Except.ok.inj h).symm⟩
  · rintro ⟨⟨h₁, h₂, h₃, h₄, h₅, h₆, h₇, h₈⟩, hmay, rfl⟩
    rw [transitionProcessTask, if_neg (not_not.2 h₁),
      if_neg (not_or.2 ⟨not_not.2 h₂, h₃.not_ge⟩), if_neg (not_or.2 ⟨not_not.2 h₄, h₅.not_ge⟩),
      if_neg h₆, if_neg (not_or.2 ⟨not_not.2 h₇, h₈.not_gt⟩), if_pos hmay]

end Orchestration
end Falryn
