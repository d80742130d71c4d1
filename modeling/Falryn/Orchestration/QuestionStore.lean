import Falryn.Orchestration.Question
import Falryn.Orchestration.TaskStore

/-!
# The store of questions

`createQuestionStore` (`question-store.ts`), as far as one question goes: its request, its revisions,
and the row, the stream and the wake of the process task that stands for it.  They are written in one
transaction, and none of them is believed without the others: a question is read only where all of them
tell the same.  Digests are a parameter; a digest is 64 hexadecimal digits long, whatever it is a
digest of.
-/

namespace Falryn.Orchestration

/-- `action` of a presenter. -/
inductive PresenterAction where
  | connect
  | disconnect
  | answer
  | refuse
  deriving DecidableEq

/-- The values of which questions keep a digest. -/
inductive QuestionDigested where
  | token (token : String)
  | intent (owner : QuestionOwner) (input : QuestionInput)
  | ownerIdentity (sessionId resourceTaskId generation : String)
  | handle (handle : ProcessTaskHandle)
  | closing (kind : QuestionTerminal) (intent : String)
  | action (action : PresenterAction) (presenter : QuestionPresenter) (answer : Option QuestionAnswer)

/-- What a store of questions is given. -/
structure QuestionPorts where
  /-- `hash`, which is also the `digest` of the store. -/
  hash : QuestionDigested → String
  hex : ∀ value, isHex64 (hash value).toList = true
  /-- `localeCompare`: whether a text does not come after another. -/
  precedes : String → String → Bool
  total : ∀ a b, precedes a b = true ∨ precedes b a = true
  trans : ∀ a b c, precedes a b = true → precedes b c = true → precedes a c = true
  antisymm : ∀ a b, precedes a b = true → precedes b a = true → a = b
  /-- The supervisor under whose name the task of a question runs. -/
  runId : String
  process : Option ProcessBirthIdentity
  supervised : isIdentity runId = true ∧ ∀ birth ∈ process, birth.Schema

/-- The codes with which a call about a question is refused. -/
inductive QuestionRefusal where
  | malformed
  | denied
  | notFound
  | corrupt
  | staleGeneration
  | resourceExhausted
  | invalidTransition
  | storageUnavailable
  | conflictingAnswer
  | notPublished
  | disconnectedPresenter
  deriving DecidableEq

/-- A row of `question_requests`. -/
structure QuestionRequest where
  generation : String
  revision : ℕ
  ownerKey : String
  ownerIdentity : String
  expiresAt : ℕ
  terminal : Bool
  deriving DecidableEq

/-- What the tables hold under the task id of one question. -/
structure QuestionTables where
  request : Option QuestionRequest
  /-- `question_revisions`, oldest first. -/
  revisions : List (ℕ × QuestionRecord)
  task : Option TaskRow
  events : List TaskEvent
  wake : Option TaskWake

/-- The tables before the question is created. -/
def QuestionTables.empty : QuestionTables := ⟨none, [], none, [], none⟩

/-! ## The size of a record -/

/-- The bytes of an owner. -/
def QuestionOwner.bytes (owner : QuestionOwner) : ℕ :=
  jsonObjectBytes
    [("sessionId", jsonStringBytes owner.task.sessionId),
      ("workspaceId", jsonStringBytes owner.task.workspaceId),
      ("turnId", jsonStringBytes owner.task.turnId),
      ("invocationId", jsonStringBytes owner.task.invocationId),
      ("attemptId", jsonStringBytes owner.task.attemptId),
      ("configurationGeneration", jsonNatBytes owner.task.configurationGeneration),
      ("resourceTaskId", jsonStringBytes owner.task.resourceTaskId),
      ("generation", jsonStringBytes owner.generation)]

/-- The name of a way to settle. -/
def QuestionTerminal.name : QuestionTerminal → String
  | answered => "answered"
  | refused => "refused"
  | expired => "expired"
  | cancelled => "cancelled"
  | unavailable => "unavailable"

/-- The bytes of a settlement. -/
def QuestionSettlement.bytes (settlement : QuestionSettlement) : ℕ :=
  jsonObjectBytes
    [("id", jsonStringBytes settlement.id), ("kind", jsonStringBytes settlement.kind.name),
      ("at", jsonNatBytes settlement.settledAt), ("digest", jsonStringBytes settlement.digest),
      ("answer", (settlement.answer.map QuestionAnswer.bytes).getD 4),
      ("retained", if settlement.retained then 4 else 5), ("effectAuthority", 5)]

/-- The name of a state. -/
def QuestionState.name : QuestionState → String
  | created => "created"
  | published => "published"
  | waiting => "waiting"
  | settled kind => kind.name

/-- The name of a state of the presenter. -/
def PresenterState.name : PresenterState → String
  | unavailable => "unavailable"
  | connected => "connected"
  | disconnected => "disconnected"

/-- The bytes of a record. -/
def QuestionRecord.bytes (record : QuestionRecord) : ℕ :=
  jsonObjectBytes
    [("input", record.input.bytes), ("owner", record.owner.bytes),
      ("ownerKey", jsonStringBytes record.ownerKey),
      ("presenterKey", jsonStringBytes record.presenterKey), ("intent", jsonStringBytes record.intent),
      ("revision", jsonNatBytes record.revision), ("createdAt", jsonNatBytes record.createdAt),
      ("expiresAt", jsonNatBytes record.expiresAt), ("state", jsonStringBytes record.state.name),
      ("presenter", jsonStringBytes record.presenter.name),
      ("settlement", (record.settlement.map QuestionSettlement.bytes).getD 4)]

/-- The bound on the text of a record. -/
def questionRecordBytes : ℕ := 65536

/-! ## The task of a question -/

/-- `outcome` of the task of a question that settled. -/
def QuestionTerminal.outcome : QuestionTerminal → TerminalOutcomeKind
  | answered => .completed
  | expired => .timedOut
  | cancelled | refused => .cancelled
  | unavailable => .failed

/-- `taskFor`, of a question that has no task yet. -/
def QuestionRecord.newTask (record : QuestionRecord) (ports : QuestionPorts) : ProcessTaskSnapshot where
  executionKind := some .question
  handle := record.input.handle
  revision := 1
  owner := record.owner.task
  supervisor := ⟨ports.runId, ports.process, record.createdAt + processTaskLeaseMs⟩
  attachment := .background
  createdAt := record.createdAt
  deadline := record.expiresAt
  inputDigest := record.intent
  outputMode := .raw
  state := .queued
  process := none
  terminal := none

/-- `taskFor`, of a question that goes on. -/
def QuestionRecord.taskFrom (record : QuestionRecord) (base : ProcessTaskSnapshot) :
    ProcessTaskSnapshot :=
  match record.settlement with
  | none =>
    { base with revision := record.revision, state := .queued, process := none, terminal := none }
  | some settlement =>
    { base with
      revision := record.revision
      state := .terminal
      process := none
      terminal := some
        { outcome := settlement.kind.outcome, effect := .none, reason := .questionSettled
          exitCode := none, signal := none, sealedAt := settlement.settledAt, result := none
          outputComplete := none } }

def QuestionRecord.taskFor (record : QuestionRecord) (ports : QuestionPorts)
    (existing : Option ProcessTaskSnapshot) : ProcessTaskSnapshot :=
  record.taskFrom (existing.getD (record.newTask ports))

/-- The change and the time of the event that tells of a record after a change. -/
def QuestionRecord.told (record : QuestionRecord) : TaskChange × ℕ :=
  match record.settlement with
  | none => (.attachment, record.createdAt)
  | some settlement => (.sealed, settlement.settledAt)

section
variable (ports : QuestionPorts)

def QuestionRecord.ownerIdentity (record : QuestionRecord) : String :=
  ports.hash (.ownerIdentity record.owner.task.sessionId record.owner.task.resourceTaskId
    record.owner.generation)

/-- The request row of a record. -/
def QuestionRecord.request (record : QuestionRecord) : QuestionRequest :=
  ⟨record.input.handle.generation, record.revision, record.ownerKey, record.ownerIdentity ports,
    record.expiresAt, record.settlement.isSome⟩

namespace QuestionTables

def load (tables : QuestionTables) (handle : ProcessTaskHandle) :
    Except QuestionRefusal QuestionRecord :=
  match tables.request with
  | none => .error .notFound
  | some request =>
    match tables.revisions.lookup request.revision with
    | none => .error .notFound
    | some record => do
      refuseIf (questionRecordBytes < record.bytes ∨ ¬ record.Schema) .corrupt
      refuseIf (record.input.handle.taskId ≠ handle.taskId ∨ record.request ports ≠ request
        ∨ record.intent ≠ ports.hash (.intent record.owner record.input)) .corrupt
      refuseIf (handle.generation ≠ record.input.handle.generation) .staleGeneration
      match readTaskRow tables.task (some handle) with
      | .error _ => .error .corrupt
      | .ok task =>
        let event := tables.events.find? fun event => event.sequence = record.revision
        refuseIf ((verifyTaskEvent task event).toOption = none
          ∨ { record.taskFor ports none with supervisor := task.supervisor } ≠ task) .corrupt
        return record

/-- `save` and `updateTaskRow`, after the event. -/
def save (tables : QuestionTables) (record : QuestionRecord) (task : ProcessTaskSnapshot)
    (events : List TaskEvent) : QuestionTables :=
  { tables with
    request := tables.request.map fun request =>
      { request with revision := record.revision, terminal := record.settlement.isSome }
    revisions := tables.revisions ++ [(record.revision, record)]
    task := some ⟨task.handle.taskId, task.handle.generation, task.revision, task⟩
    events }

/-- `create`.  `crowded` says that there are too many tasks or too many questions of the owner. -/
def create (tables : QuestionTables) (record : QuestionRecord) (crowded : Bool) :
    Except QuestionRefusal QuestionTables := do
  refuseIf (¬ record.Schema ∨ record.state ≠ .created ∨ record.revision ≠ 1) .malformed
  refuseIf (tables.events ≠ [] ∨ tables.task ≠ none) .staleGeneration
  refuseIf (crowded = true) .resourceExhausted
  let task := record.taskFor ports none
  match appendTaskEvent tables.events task .created record.createdAt with
  | .error _ => .error .storageUnavailable
  | .ok events =>
    refuseIf (tables.request ≠ none ∨ tables.revisions.lookup 1 ≠ none
      ∨ questionRecordBytes < record.bytes) .storageUnavailable
    return { tables with request := some (record.request ports) }.save record task events

def change (taskStream : ProcessTaskHandle → String) (tables : QuestionTables)
    (handle : ProcessTaskHandle) (update : QuestionRecord → Except QuestionRefusal QuestionRecord) :
    Except QuestionRefusal (QuestionRecord × QuestionTables) := do
  let loaded ← tables.load ports handle
  let record ← update loaded
  if record = loaded then return (loaded, tables)
  else
    refuseIf (¬ record.Schema ∨ record.revision ≠ loaded.revision + 1 ∨ 64 < record.revision
      ∨ record.ownerKey ≠ loaded.ownerKey ∨ record.presenterKey ≠ loaded.presenterKey
      ∨ record.intent ≠ loaded.intent ∨ record.input ≠ loaded.input
      ∨ record.expiresAt ≠ loaded.expiresAt ∨ record.owner ≠ loaded.owner ∨ loaded.settlement ≠ none)
      .invalidTransition
    match readTaskRow tables.task (some handle) with
    | .error _ => .error .corrupt
    | .ok existing =>
      refuseIf (existing.executionKind ≠ some .question ∨ existing.revision ≠ loaded.revision
        ∨ existing.state = .terminal) .corrupt
      let task := record.taskFor ports (some existing)
      match appendTaskEvent tables.events task record.told.1 record.told.2 with
      | .error _ => .error .storageUnavailable
      | .ok events =>
        refuseIf (tables.revisions.lookup record.revision ≠ none ∨ questionRecordBytes < record.bytes)
          .storageUnavailable
        let saved := tables.save record task events
        if record.settlement = none then return (record, saved)
        else
          refuseIf (tables.wake ≠ none) .storageUnavailable
          let eventId := taskEventId (taskStream handle) task.revision
          return (record, { saved with wake := some ⟨"wake:" ++ eventId, eventId, 0, .pending⟩ })

end QuestionTables
end

end Falryn.Orchestration
