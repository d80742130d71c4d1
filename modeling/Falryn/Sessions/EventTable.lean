import Falryn.Sessions.EventStore
import Falryn.Sessions.RuntimeEvent

/-!
# The durable event store

The `events` table with the constraints of its schema (`data/sqlite/schema.ts`) and the transaction
that appends to it (`resolveAppend` and `appendRuntimeEventInTransaction` of
`data/sessions/event-store.ts`).  A statement that a constraint refuses throws, and a transaction that
throws is rolled back.  What validates an event against its schema is an argument, and so are the
artifacts the table of that name holds when the transaction runs.
-/

namespace Falryn.Sessions.Journal

/-! ## The table -/

/-- A row of `events`. -/
structure EventRow where
  eventId : String
  streamId : String
  sequence : ℕ
  kind : EventKind
  schemaVersion : ℕ
  occurredAt : String
  traceId : String
  idempotencyKey : String
  payload : Json

/-- The `events` table.  No rows break a constraint of the schema. -/
structure EventTable where
  rows : List EventRow
  /-- `event_id TEXT PRIMARY KEY`. -/
  primaryKey : (rows.map EventRow.eventId).Nodup
  /-- `UNIQUE (stream_id, sequence)`. -/
  uniqueSequences : (rows.map fun row => (row.streamId, row.sequence)).Nodup
  /-- `UNIQUE (stream_id, idempotency_key)`. -/
  uniqueKeys : (rows.map fun row => (row.streamId, row.idempotencyKey)).Nodup
  /-- `CHECK (sequence >= 1)` and `CHECK (schema_version >= 1)`. -/
  checked : ∀ row ∈ rows, 1 ≤ row.sequence ∧ 1 ≤ row.schemaVersion

namespace EventTable

/-- The table without rows. -/
def empty : EventTable := ⟨[], List.nodup_nil, List.nodup_nil, List.nodup_nil, fun _ h => nomatch h⟩

/-- A row that no constraint refuses. -/
def Fits (table : EventTable) (row : EventRow) : Prop :=
  row.eventId ∉ table.rows.map EventRow.eventId
    ∧ (row.streamId, row.sequence) ∉ table.rows.map (fun row => (row.streamId, row.sequence))
    ∧ (row.streamId, row.idempotencyKey)
      ∉ table.rows.map (fun row => (row.streamId, row.idempotencyKey))
    ∧ 1 ≤ row.sequence ∧ 1 ≤ row.schemaVersion

instance (table : EventTable) (row : EventRow) : Decidable (table.Fits row) := by
  unfold Fits
  infer_instance

theorem nodup_map_concat {α β : Type} {f : α → β} {l : List α} {a : α} (h : (l.map f).Nodup)
    (ha : f a ∉ l.map f) : ((l ++ [a]).map f).Nodup := by
  rw [List.map_append, List.map_singleton]
  exact h.append (List.nodup_singleton _) (List.disjoint_singleton.2 ha)

/-- `INSERT_EVENT`.  It throws where this is `none`. -/
def insert (table : EventTable) (row : EventRow) : Option EventTable :=
  if h : table.Fits row then
    some
      { rows := table.rows ++ [row]
        primaryKey := nodup_map_concat table.primaryKey h.1
        uniqueSequences := nodup_map_concat table.uniqueSequences h.2.1
        uniqueKeys := nodup_map_concat table.uniqueKeys h.2.2.1
        checked := fun row' hmem => by
          rcases List.mem_append.1 hmem with hold | hnew
          · exact table.checked row' hold
          · rw [List.mem_singleton.1 hnew]
            exact h.2.2.2 }
  else none

/-- The rows of a stream, as they were inserted. -/
def stream (table : EventTable) (streamId : String) : List EventRow :=
  table.rows.filter fun row => row.streamId = streamId

/-- `SELECT_BY_IDEMPOTENCY_KEY`, of which the first row is read. -/
def byIdempotencyKey (table : EventTable) (streamId key : String) : Option EventRow :=
  table.rows.find? fun row => row.streamId = streamId ∧ row.idempotencyKey = key

/-- `SELECT_EVENT_ID` finds a row. -/
def holdsEventId (table : EventTable) (eventId : String) : Bool :=
  table.rows.any fun row => row.eventId = eventId

/-- `SELECT_LAST_SEQUENCE`: `COALESCE(MAX(sequence), 0)`. -/
def lastSequence (table : EventTable) (streamId : String) : ℕ :=
  ((table.stream streamId).map EventRow.sequence).foldr max 0

/-- `SELECT_FROM_CURSOR`. -/
def selectFromCursor (table : EventTable) (streamId : String) (afterSequence limit : ℕ) :
    List EventRow :=
  (((table.stream streamId).filter fun row => afterSequence < row.sequence).insertionSort
    fun a b => a.sequence ≤ b.sequence).take limit

end EventTable

/-! ## Errors -/

inductive SequenceError where
  | sequenceOutOfOrder (streamId : String) (expectedSequence observedSequence : ℕ)
  | sequenceGap (streamId : String) (expectedSequence observedSequence : ℕ)
  | idempotencyConflict (streamId idempotencyKey recordedEventId observedEventId : String)
  | eventIdConflict (streamId eventId : String)
  | ledgerCapacityExceeded (streamId : String) (maximumTrackedEvents : ℕ)
  deriving DecidableEq

inductive CodecError where
  | oversizedEvent (byteLength maximumBytes : ℕ)
  | malformedEncoding
  | malformedJson
  | notAnObject
  | unknownEventKind (observedKind : String)
  | unsupportedSchemaVersion (observed minimumCompatible reader : ℕ)
  | retiredSchemaVersion (observed minimumSupported : ℕ)
  | invalidEnvelope (issues : List (String × String))
  deriving DecidableEq

/-- `EventStoreError`, of an append. -/
inductive EventStoreError where
  | sequence (error : SequenceError)
  | codec (error : CodecError)
  /-- The transaction did not commit. -/
  | storage
  deriving DecidableEq

inductive AppendReceipt where
  | appended (sequence : ℕ)
  | duplicate (sequence : ℕ)
  deriving DecidableEq

inductive AppendResolution where
  | appended (sequence : ℕ)
  | duplicate (sequence : ℕ)
  | rejected (error : SequenceError)
  | malformedRow (path : String)

/-! ## Encoding -/

/-- `RUNTIME_EVENT_SCHEMA_VERSION`. -/
def runtimeEventSchemaVersion : ℕ := 2

/-- `RUNTIME_EVENT_MINIMUM_SCHEMA_VERSION`. -/
def runtimeEventMinimumSchemaVersion : ℕ := 1

/-- `checkSchemaVersion`, of the wire object of an event. -/
def checkSchemaVersion (event : RuntimeEvent) : Option CodecError :=
  if event.schemaVersion < 1 then some (.invalidEnvelope [("schemaVersion", "invalid_type")])
  else if event.schemaVersion < runtimeEventMinimumSchemaVersion then
    some (.retiredSchemaVersion event.schemaVersion runtimeEventMinimumSchemaVersion)
  else if event.minimumReaderSchemaVersion < 1 then
    some (.invalidEnvelope [("minimumReaderSchemaVersion", "invalid_type")])
  else if runtimeEventSchemaVersion < event.minimumReaderSchemaVersion then
    some (.unsupportedSchemaVersion event.schemaVersion event.minimumReaderSchemaVersion
      runtimeEventSchemaVersion)
  else none

/-- Why `encodeRuntimeEvent` refuses an event, if it does.  `validate` is the answer of the schema and
of the byte bound. -/
def encodeRefusal (validate : RuntimeEvent → Option CodecError) (event : RuntimeEvent) :
    Option CodecError :=
  match checkSchemaVersion event with
  | some error => some error
  | none => validate event

/-! ## Artifacts -/

/-- A row of `artifacts`, as far as it is read here. -/
structure Artifact where
  digest : String
  byteLength : ℕ
  availability : String
  sensitivity : String

/-- The `artifacts` table. -/
abbrev Artifacts := String → Option Artifact

/-- The items of an array. -/
def itemsOf : JsValue → List JsValue
  | .array items => items
  | _ => []

def historyReferences (payload : JsValue) : List JsValue :=
  (payload.field "evidence" :: itemsOf (payload.field "references")).filter fun evidence =>
    (evidence.field "availability").isString "retained"

/-- A checkpoint that is published may only refer to what the user may see. -/
def isPublishedCheckpoint (payload : JsValue) : Bool :=
  (payload.field "type").isString "checkpoint" && !(payload.field "publication").isUndefined

/-- A value is a given number. -/
def isNumber (value : JsValue) (n : ℕ) : Bool :=
  match value with
  | .number found => found = n
  | _ => false

/-- The artifact a piece of evidence refers to is there as the evidence says. -/
def artifactMatches (payload evidence : JsValue) (artifact : Artifact) : Bool :=
  artifact.availability = "available"
    && (evidence.field "digest").isString artifact.digest
    && isNumber (evidence.field "byteLength") artifact.byteLength
    && !(isPublishedCheckpoint payload
      && artifact.sensitivity ≠ "public" && artifact.sensitivity ≠ "user-content")

/-- The artifact of a reference can be used. -/
def referenceAvailable (artifacts : Artifacts) (payload evidence : JsValue) : Bool :=
  match evidence.field "artifactId" with
  | .string artifactId => (artifacts artifactId).any (artifactMatches payload evidence)
  | _ => false

/-- Every artifact an event refers to can be used. -/
def referencesAvailable (artifacts : Artifacts) (event : RuntimeEvent) : Bool :=
  event.kind ≠ .historyRecorded
    || (historyReferences (.object event.payload)).all
      (referenceAvailable artifacts (.object event.payload))

/-! ## Appending -/

/-- The text in the `payload` column. -/
def payloadText (event : RuntimeEvent) : Json := event.storedPayload.stringify.getD .null

/-- The row of an event. -/
def rowOf (event : RuntimeEvent) : EventRow :=
  { eventId := event.eventId.1
    streamId := event.streamId.1
    sequence := event.sequence.1
    kind := event.kind
    schemaVersion := event.schemaVersion
    occurredAt := event.occurredAt
    traceId := event.correlation.traceId.1
    idempotencyKey := event.idempotencyKey.1
    payload := payloadText event }

/-- The recorded row is about something else than the event: only a history record is compared by
its content. -/
def differs (recorded : EventRow) (event : RuntimeEvent) : Bool :=
  recorded.eventId ≠ event.eventId.1
    || ((event.kind = .historyRecorded || recorded.kind = .historyRecorded)
      && (recorded.kind ≠ event.kind || recorded.payload ≠ payloadText event))

/-- The answer where the idempotency key is recorded. -/
def resolveRecorded (recorded : EventRow) (event : RuntimeEvent) : AppendResolution :=
  match parseIdentifier recorded.eventId, parseSequence recorded.sequence with
  | some recordedEventId, some recordedSequence =>
    if differs recorded event then
      .rejected (.idempotencyConflict event.streamId.1 event.idempotencyKey.1 recordedEventId.1
        event.eventId.1)
    else .duplicate recordedSequence.1
  | _, _ => .malformedRow "events.event_id"

/-- The sequence the next event of a stream has to carry, if the last one can be read. -/
def expectedSequence (lastSequence : ℕ) : Option ℕ :=
  if lastSequence = 0 then some firstSequence
  else (parseSequence lastSequence).map fun highest => nextSequence highest.1

/-- `resolveAppend`.  It throws where this is `none`. -/
def resolveAppend (table : EventTable) (artifacts : Artifacts) (event : RuntimeEvent) :
    Option (AppendResolution × EventTable) :=
  match table.byIdempotencyKey event.streamId.1 event.idempotencyKey.1 with
  | some recorded => some (resolveRecorded recorded event, table)
  | none =>
    if table.holdsEventId event.eventId.1 then
      some (.rejected (.eventIdConflict event.streamId.1 event.eventId.1), table)
    else
      match expectedSequence (table.lastSequence event.streamId.1) with
      | none => some (.malformedRow "events.sequence", table)
      | some expected =>
        if event.sequence.1 < expected then
          some (.rejected (.sequenceOutOfOrder event.streamId.1 expected event.sequence.1), table)
        else if expected < event.sequence.1 then
          some (.rejected (.sequenceGap event.streamId.1 expected event.sequence.1), table)
        else if referencesAvailable artifacts event = false then
          some (.malformedRow "history.evidence.artifact-reference-unavailable", table)
        else
          (table.insert (rowOf event)).map fun table' => (.appended event.sequence.1, table')

/-- What `appendRuntimeEventInTransaction` makes of a resolution. -/
def receiptOf : AppendResolution → Except EventStoreError AppendReceipt
  | .appended sequence => .ok (.appended sequence)
  | .duplicate sequence => .ok (.duplicate sequence)
  | .rejected error => .error (.sequence error)
  | .malformedRow path => .error (.codec (.invalidEnvelope [(path, "custom")]))

/-- One transaction of an append.  `faulted` says that the store did not let it commit, for a reason
of its own. -/
structure Append where
  event : RuntimeEvent
  artifacts : Artifacts
  faulted : Bool := false

/-- `performAppend`: `appendRuntimeEventInTransaction` in a transaction of the store. -/
def performAppend (validate : RuntimeEvent → Option CodecError) (table : EventTable)
    (append : Append) : Except EventStoreError AppendReceipt × EventTable :=
  if append.faulted then (.error .storage, table)
  else
    match encodeRefusal validate append.event with
    | some error => (.error (.codec error), table)
    | none =>
      match resolveAppend table append.artifacts append.event with
      | none => (.error .storage, table)
      | some (resolution, table') => (receiptOf resolution, table')

end Falryn.Sessions.Journal
