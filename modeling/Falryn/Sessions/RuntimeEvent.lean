import Falryn.Foundation.Identity
import Falryn.Foundation.Json

/-!
# Runtime events

The envelope of a runtime event (`domain/sessions/event.ts`), its wire object (`toWireEvent` of
`domain/sessions/wire.ts`) and the shape it is persisted in (`toStoredEvent` of
`domain/sessions/stored-event.ts`).  The payload is the object the producer put into the event, with
its fields in their order; what the wire object takes of it depends on the kind.
-/

namespace Falryn.Sessions

/-! ## The envelope -/

/-- The value of a branded identifier. -/
abbrev Identifier := { text : String // isIdentifier text = true }

/-- `Sequence`: a safe integer from `FIRST_SEQUENCE` on. -/
abbrev Sequence := { n : ℕ // 1 ≤ n ∧ n ≤ 2 ^ 53 - 1 }

/-- `sequence.parse`. -/
def parseSequence (n : ℕ) : Option Sequence := if h : 1 ≤ n ∧ n ≤ 2 ^ 53 - 1 then some ⟨n, h⟩ else none

/-- `parse` of the codec of an identifier. -/
def parseIdentifier (text : String) : Option Identifier :=
  if h : isIdentifier text = true then some ⟨text, h⟩ else none

@[simp] theorem parseSequence_val (n : Sequence) : parseSequence n.1 = some n := by
  rw [parseSequence, dif_pos n.2]

@[simp] theorem parseIdentifier_val (id : Identifier) : parseIdentifier id.1 = some id := by
  rw [parseIdentifier, dif_pos id.2]

/-- `EVENT_KINDS`. -/
inductive EventKind where
  | sessionStarted
  | turnStarted
  | turnCompleted
  | modelAttemptStarted
  | modelAttemptCompleted
  | capabilityInvocationStarted
  | capabilityInvocationCompleted
  | configurationGenerationChanged
  | executionProfileSelected
  | processTaskChanged
  | workspaceTrustReviewed
  | workQueueChanged
  | workflowChanged
  | historyRecorded
  | modelProcessingRecorded
  | configurationTransitionRecorded
  | instructionsResolved
  | instructionsRevoked
  | instructionsRejected
  | scheduleSettled
  | extensionSuggestionRecorded
  deriving DecidableEq

/-- The word for a kind. -/
def EventKind.text : EventKind → String
  | sessionStarted => "session.started"
  | turnStarted => "turn.started"
  | turnCompleted => "turn.completed"
  | modelAttemptStarted => "model.attempt.started"
  | modelAttemptCompleted => "model.attempt.completed"
  | capabilityInvocationStarted => "capability.invocation.started"
  | capabilityInvocationCompleted => "capability.invocation.completed"
  | configurationGenerationChanged => "configuration.generation.changed"
  | executionProfileSelected => "execution.profile.selected"
  | processTaskChanged => "process.task.changed"
  | workspaceTrustReviewed => "workspace.trust.reviewed"
  | workQueueChanged => "work.queue.changed"
  | workflowChanged => "workflow.changed"
  | historyRecorded => "history.recorded"
  | modelProcessingRecorded => "model.processing.recorded"
  | configurationTransitionRecorded => "configuration.transition.recorded"
  | instructionsResolved => "instructions.resolved"
  | instructionsRevoked => "instructions.revoked"
  | instructionsRejected => "instructions.rejected"
  | scheduleSettled => "schedule.settled"
  | extensionSuggestionRecorded => "extension.suggestion.recorded"

def EventKind.isModelEvent (kind : EventKind) : Bool :=
  kind ∈ [modelAttemptStarted, modelAttemptCompleted, modelProcessingRecorded]

def EventKind.isToolEvent (kind : EventKind) : Bool :=
  kind ∈ [capabilityInvocationStarted, capabilityInvocationCompleted]

/-- `SessionCorrelation`, and `TurnCorrelation` where there is a turn.  `order` lists the keys in the
order in which the object holds them. -/
structure Correlation where
  workspaceId : Identifier
  sessionId : Identifier
  turnId : Option Identifier
  traceId : Identifier
  configurationGeneration : ℕ
  order : List String

/-- `RuntimeEvent`.  Only a model event has an attempt, only a tool event an invocation and a
capability. -/
structure RuntimeEvent where
  eventId : Identifier
  streamId : Identifier
  sequence : Sequence
  kind : EventKind
  schemaVersion : ℕ
  minimumReaderSchemaVersion : ℕ
  occurredAt : String
  idempotencyKey : Identifier
  modelAttemptId : Option Identifier := none
  invocationId : Option Identifier := none
  capabilityId : Option Identifier := none
  correlation : Correlation
  payload : List (String × JsValue)

/-! ## The wire object -/

/-- A field that may be missing. -/
def optionalField (id : Option Identifier) : JsValue :=
  match id with
  | none => .undefined
  | some id => .string id.1

namespace Correlation

/-- One field of the object. -/
def field (correlation : Correlation) (key : String) : JsValue :=
  if key = "workspaceId" then .string correlation.workspaceId.1
  else if key = "sessionId" then .string correlation.sessionId.1
  else if key = "turnId" then optionalField correlation.turnId
  else if key = "traceId" then .string correlation.traceId.1
  else if key = "configurationGeneration" then .number correlation.configurationGeneration
  else .undefined

/-- The object itself. -/
def value (correlation : Correlation) : JsValue :=
  .object (correlation.order.map fun key => (key, correlation.field key))

/-- `correlationToJson`. -/
def toJson (correlation : Correlation) : List (String × JsValue) :=
  [("workspaceId", .string correlation.workspaceId.1),
    ("sessionId", .string correlation.sessionId.1),
    ("turnId", optionalField correlation.turnId),
    ("traceId", .string correlation.traceId.1),
    ("configurationGeneration", .number correlation.configurationGeneration)]

end Correlation

def outcomeToJson (outcome : JsValue) : JsValue :=
  if (outcome.field "kind").isString "completed" then .object [("kind", outcome.field "kind")]
  else .object [("kind", outcome.field "kind"), ("effect", outcome.field "effect")]

/-- The fields with these names. -/
def picked (payload : JsValue) (names : List String) : List (String × JsValue) :=
  names.map fun name => (name, payload.field name)

/-- `payloadToJson`.  A copy `{ ...payload }` has the same fields in the same order. -/
def payloadToJson (kind : EventKind) (payload : JsValue) : JsValue :=
  match kind with
  | .historyRecorded | .instructionsRejected | .instructionsRevoked | .instructionsResolved
  | .configurationTransitionRecorded | .workspaceTrustReviewed | .workQueueChanged
  | .scheduleSettled | .workflowChanged | .extensionSuggestionRecorded => payload
  | .sessionStarted => .object (picked payload ["extensionCatalog"])
  | .processTaskChanged => .object (picked payload ["change", "task"])
  | .modelAttemptStarted => .object (picked payload ["binding"])
  | .capabilityInvocationStarted =>
    .object (picked payload ["composition", "capabilityVersion", "inputDigest"])
  | .turnCompleted => .object [("outcome", outcomeToJson (payload.field "outcome"))]
  | .modelProcessingRecorded => .object (picked payload ["receipt"])
  | .modelAttemptCompleted =>
    .object (("outcome", outcomeToJson (payload.field "outcome"))
      :: picked payload ["admissions", "generation"])
  | .capabilityInvocationCompleted =>
    .object (picked payload ["composition"]
      ++ ("outcome", outcomeToJson (payload.field "outcome"))
      :: picked payload ["admission", "sandbox", "skillResources", "historyId", "observedStatus",
        "degradation"])
  | .configurationGenerationChanged => .object (picked payload ["generation", "applicationClass"])
  | .executionProfileSelected =>
    .object (picked payload
      ["selectionId", "profileId", "profileVersion", "completion", "applicationClass"])
  | .turnStarted => .object []

namespace RuntimeEvent

/-- The identities that model and tool events carry besides the envelope. -/
def identities (event : RuntimeEvent) : List (String × JsValue) :=
  (if event.kind.isModelEvent then [("modelAttemptId", optionalField event.modelAttemptId)] else [])
    ++ if event.kind.isToolEvent then
        [("invocationId", optionalField event.invocationId),
          ("capabilityId", optionalField event.capabilityId)]
      else []

def toWireEvent (event : RuntimeEvent) : List (String × JsValue) :=
  [("eventId", .string event.eventId.1),
    ("streamId", .string event.streamId.1),
    ("sequence", .number event.sequence.1),
    ("kind", .string event.kind.text),
    ("schemaVersion", .number event.schemaVersion),
    ("minimumReaderSchemaVersion", .number event.minimumReaderSchemaVersion),
    ("occurredAt", .string event.occurredAt),
    ("idempotencyKey", .string event.idempotencyKey.1)]
  ++ event.identities
  ++ [("correlation", .object event.correlation.toJson),
    ("payload", payloadToJson event.kind (.object event.payload))]

/-- `COLUMN_FIELDS`. -/
def columnFields : List String :=
  ["eventId", "streamId", "sequence", "kind", "schemaVersion", "occurredAt"]

/-- `omit`. -/
def omitKeys (source : List (String × JsValue)) (keys : List String) : List (String × JsValue) :=
  source.filter fun entry => entry.1 ∉ keys

/-- What `toStoredEvent` keeps of the correlation: the trace has its own column. -/
def storedCorrelation (event : RuntimeEvent) : JsValue :=
  .object (omitKeys event.correlation.toJson ["traceId"])

/-- The payload of `toStoredEvent`: what is left of the wire object without the columns, and the
correlation. -/
def storedPayload (event : RuntimeEvent) : JsValue :=
  .object (omitKeys event.toWireEvent (columnFields ++ ["correlation"])
    ++ [("correlation", event.storedCorrelation)])

end RuntimeEvent

end Falryn.Sessions
