import Falryn.Lib.OrderedMap
import Falryn.Sessions.EventHistory

/-!
# The in-memory event store

`createStreamSequencer` (`domain/foundation/sequence.ts`) and `append` of `createInMemoryEventStore`
(`domain/sessions/event-store.ts`), and how far they decide like the durable store.  The durable store
holds an event id to one stream, on purpose; the sequencer looks at one stream at a time.  The
in-memory store finds the earlier history record under the joined text of stream and key and compares
the correlation as the producer wrote it.
-/

namespace Falryn.Sessions.Journal

/-! ## The sequencer -/

structure TrackedEvent where
  eventId : String
  sequence : ℕ

structure StreamState where
  lastSequence : ℕ
  byIdempotencyKey : OrderedMap String TrackedEvent
  eventIds : OrderedMap String String

inductive AppendDecision where
  | appended (sequence : ℕ)
  | duplicate (sequence : ℕ)
  | rejected (error : SequenceError)

/-- The streams of `createStreamSequencer`. -/
abbrev StreamSequencer := OrderedMap String StreamState

def rejectFirstSequence (event : RuntimeEvent) : AppendDecision :=
  .rejected (if event.sequence.1 < firstSequence then
    .sequenceOutOfOrder event.streamId.1 firstSequence event.sequence.1
    else .sequenceGap event.streamId.1 firstSequence event.sequence.1)

/-- A stream with its first event. -/
def firstState (event : RuntimeEvent) : StreamState :=
  ⟨event.sequence.1,
    OrderedMap.empty.set event.idempotencyKey.1 ⟨event.eventId.1, event.sequence.1⟩,
    OrderedMap.empty.set event.eventId.1 event.idempotencyKey.1⟩

/-- A stream with one event more. -/
def StreamState.track (state : StreamState) (event : RuntimeEvent) : StreamState :=
  ⟨event.sequence.1,
    state.byIdempotencyKey.set event.idempotencyKey.1 ⟨event.eventId.1, event.sequence.1⟩,
    state.eventIds.set event.eventId.1 event.idempotencyKey.1⟩

/-- What a stream that has events decides. -/
def StreamState.resolve (state : StreamState) (event : RuntimeEvent) : AppendDecision :=
  match state.byIdempotencyKey.get event.idempotencyKey.1 with
  | some recorded =>
    if recorded.eventId ≠ event.eventId.1 then
      .rejected (.idempotencyConflict event.streamId.1 event.idempotencyKey.1 recorded.eventId
        event.eventId.1)
    else .duplicate recorded.sequence
  | none =>
    if (state.eventIds.get event.eventId.1).isSome then
      .rejected (.eventIdConflict event.streamId.1 event.eventId.1)
    else if maxTrackedEventsPerStream ≤ state.eventIds.size then
      .rejected (.ledgerCapacityExceeded event.streamId.1 maxTrackedEventsPerStream)
    else if event.sequence.1 < nextSequence state.lastSequence then
      .rejected (.sequenceOutOfOrder event.streamId.1 (nextSequence state.lastSequence)
        event.sequence.1)
    else if nextSequence state.lastSequence < event.sequence.1 then
      .rejected (.sequenceGap event.streamId.1 (nextSequence state.lastSequence) event.sequence.1)
    else .appended event.sequence.1

/-- `append` of the sequencer. -/
def StreamSequencer.append (streams : StreamSequencer) (event : RuntimeEvent) :
    AppendDecision × StreamSequencer :=
  match streams.get event.streamId.1 with
  | none =>
    if event.sequence.1 ≠ firstSequence then (rejectFirstSequence event, streams)
    else (.appended event.sequence.1, streams.set event.streamId.1 (firstState event))
  | some state =>
    match state.resolve event with
    | .appended sequence => (.appended sequence, streams.set event.streamId.1 (state.track event))
    | decision => (decision, streams)

/-! ## The store -/

/-- `createInMemoryEventStore`, as far as an append reads it. -/
structure InMemoryStore where
  sequencer : StreamSequencer
  historyKeys : OrderedMap String RuntimeEvent

/-- A store without events. -/
def InMemoryStore.empty : InMemoryStore := ⟨OrderedMap.empty, OrderedMap.empty⟩

/-- The key under which an event is remembered: stream and idempotency key, joined. -/
def joinedKey (event : RuntimeEvent) : String :=
  event.streamId.1 ++ ":" ++ event.idempotencyKey.1

/-- The earlier event under a key is another history record than the one that comes. -/
def otherRecord (prior event : RuntimeEvent) : Bool :=
  (prior.kind = .historyRecorded || event.kind = .historyRecorded)
    && (prior.kind ≠ event.kind
      || (JsValue.object prior.payload).stringify ≠ (JsValue.object event.payload).stringify
      || prior.correlation.value.stringify ≠ event.correlation.value.stringify)

/-- What an append makes of a decision of the sequencer. -/
def receiptOfDecision : AppendDecision → Except EventStoreError AppendReceipt
  | .appended sequence => .ok (.appended sequence)
  | .duplicate sequence => .ok (.duplicate sequence)
  | .rejected error => .error (.sequence error)

/-- The store after a decision: an appended event is remembered under its key. -/
def InMemoryStore.after (store : InMemoryStore) (event : RuntimeEvent) :
    AppendDecision × StreamSequencer → InMemoryStore
  | (.appended _, sequencer) => ⟨sequencer, store.historyKeys.set (joinedKey event) event⟩
  | (_, sequencer) => ⟨sequencer, store.historyKeys⟩

def InMemoryStore.append (validate : RuntimeEvent → Option CodecError) (store : InMemoryStore)
    (event : RuntimeEvent) : Except EventStoreError AppendReceipt × InMemoryStore :=
  match encodeRefusal validate event with
  | some error => (.error (.codec error), store)
  | none =>
    let known := store.historyKeys.get (joinedKey event)
    match known.filter (otherRecord · event) with
    | some prior =>
      (.error (.sequence (.idempotencyConflict event.streamId.1 event.idempotencyKey.1
        prior.eventId.1 event.eventId.1)), store)
    | none =>
      let decision := store.sequencer.append event
      (receiptOfDecision decision.1, store.after event decision)

end Falryn.Sessions.Journal
