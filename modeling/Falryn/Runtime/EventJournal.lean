import Falryn.Lib.StateMachine
import Falryn.Sessions.EventStore

/-!
# The turn-event journal

`createTurnEventJournal` (`application/runtime/turn-event-journal.ts`) over one stream it alone writes.
The journal queues its writes, so a `persist` runs to its end before the next one starts; what
the signal and the store do to each of its steps is the `Call`.  A `replay` is not queued: every page
it reads may see a longer stream than the one before.
-/

namespace Falryn.Runtime

open Sessions StateMachine

/-- What happens to one step of a call: the signal was aborted before it, or the store refuses it. -/
structure StepAnswer where
  aborted : Bool
  refusal : Option String

/-- What the signal, the store and the clock do to one call. -/
structure Call where
  /-- When the cursor is asked for. -/
  start : StepAnswer
  /-- When a page is read to find the end of the stream. -/
  page : ℕ → StepAnswer
  /-- When a fact is appended. -/
  fact : ℕ → StepAnswer
  clock : ℕ → ℕ

/-- Nothing gets in the way of the call. -/
def Call.quiet (instant : ℕ) : Call where
  start := ⟨false, none⟩
  page := fun _ => ⟨false, none⟩
  fact := fun _ => ⟨false, none⟩
  clock := fun _ => instant

/-- A listener: how long the stream was when it subscribed, and what it was handed since. -/
structure Subscriber where
  id : ℕ
  since : ℕ
  received : List StreamEvent

/-- The journal with its stream.  `hasHead` says whether the store can tell the head of a stream. -/
structure TurnEventJournal where
  hasHead : Bool
  next : Option ℕ
  stream : EventStream
  subscribers : List Subscriber

/-- `PersistTurnEventsOutcome`, with `stale` and the case of an exception. -/
inductive PersistTurnEventsOutcome where
  | persisted (events : List StreamEvent) (receipts : List AppendReceipt)
  | cancelled (events : List StreamEvent) (receipts : List AppendReceipt)
  | storeError (error : EventStoreError) (events : List StreamEvent) (receipts : List AppendReceipt)
  | stale
  | threw

namespace TurnEventJournal

/-! ## The cursor -/

/-- What the discovery of the cursor answers. -/
inductive Discovered where
  | found (next : ℕ)
  | error (error : EventStoreError)
  | cancelled

/-- The sequence after the last one that was seen. -/
def following (last : Option ℕ) : ℕ := last.elim firstSequence nextSequence

/-- The loop of `discoverNextSequence`: pages are read until one is not full. -/
def discoverPages (stream : EventStream) (page : ℕ → StepAnswer) (k : ℕ) (last : Option ℕ) :
    Discovered :=
  if (page k).aborted then
    .cancelled
  else
    match (page k).refusal with
    | some code => .error (.refused code)
    | none =>
      match h : (stream.readFrom last maxStreamReadLimit).getLast? with
      | none => .found (following last)
      | some tail =>
        if (stream.readFrom last maxStreamReadLimit).length < maxStreamReadLimit then
          .found (following (some tail.sequence))
        else
          discoverPages stream page (k + 1) (some tail.sequence)
termination_by stream.head - last.getD 0
decreasing_by
  have hmem : tail ∈ stream.readFrom last maxStreamReadLimit := List.mem_of_getLast? h
  have hlast := EventStream.readFrom_getLast h
  have hpos := List.length_pos_of_mem hmem
  have hle := (EventStream.sequence_bounds (List.mem_of_mem_filter (List.mem_of_mem_take hmem))).2
  simp only [Option.getD_some]
  omega

def discoverNextSequence (j : TurnEventJournal) (call : Call) : Discovered :=
  if call.start.aborted then
    .cancelled
  else
    match j.next with
    | some next => .found next
    | none =>
      if j.hasHead then
        match call.start.refusal with
        | some code => .error (.refused code)
        | none =>
          .found (following (if j.stream.head = 0 then none else some j.stream.head))
      else
        discoverPages j.stream call.page 0 none

/-! ## Writing -/

/-- Every listener is handed an event. -/
def notify (event : StreamEvent) (subscribers : List Subscriber) : List Subscriber :=
  subscribers.map fun subscriber => { subscriber with received := subscriber.received ++ [event] }

/-- The loop of `persistFacts`. -/
def appendFacts (call : Call) : TurnEventJournal → ℕ → ℕ → List RecordedFact → List StreamEvent →
    List AppendReceipt → TurnEventJournal × PersistTurnEventsOutcome
  | j, _, _, [], events, receipts => (j, .persisted events receipts)
  | j, sequence, i, fact :: facts, events, receipts =>
    if (call.fact i).aborted then
      (j, .cancelled events receipts)
    else if isIdentifier fact.identity = false then
      (j, .threw)
    else
      let event : StreamEvent := ⟨fact, sequence, call.clock i⟩
      match j.stream.append event (call.fact i).refusal with
      | .error error => (j, .storeError error events receipts)
      | .ok (.appended stored, stream) =>
        let sequence := nextSequence sequence
        appendFacts call
          { j with stream, next := some sequence, subscribers := notify event j.subscribers }
          sequence (i + 1) facts (events ++ [event]) (receipts ++ [.appended stored])
      | .ok (.duplicate stored, stream) =>
        -- an old receipt must not rewind the cursor
        let sequence := if stored < sequence then sequence else nextSequence stored
        appendFacts call { j with stream, next := some sequence } sequence (i + 1) facts
          (events ++ [event]) (receipts ++ [.duplicate stored])

def persistFacts (j : TurnEventJournal) (facts : List RecordedFact) (call : Call)
    (expectedSequence : Option ℕ) : TurnEventJournal × PersistTurnEventsOutcome :=
  if facts = [] then
    (j, .persisted [] [])
  else
    match expectedSequence with
    | some expected => appendFacts call j expected 0 facts [] []
    | none =>
      match j.discoverNextSequence call with
      | .cancelled => (j, .cancelled [] [])
      | .error error => (j, .storeError error [] [])
      | .found next => appendFacts call { j with next := some next } next 0 facts [] []

def persist (j : TurnEventJournal) (facts : List RecordedFact) (call : Call) :
    TurnEventJournal × PersistTurnEventsOutcome :=
  j.persistFacts facts call none

/-- `compareAndPersist`; `current` is what the callback answers when the call's turn has come. -/
def compareAndPersist (j : TurnEventJournal) (fact : RecordedFact) (expectedHead : ℕ)
    (current : Bool) (call : Call) : TurnEventJournal × PersistTurnEventsOutcome :=
  if current = false then
    (j, .stale)
  else
    j.persistFacts [fact] call (some (nextSequence expectedHead))

def subscribe (j : TurnEventJournal) (id : ℕ) : TurnEventJournal :=
  if id ∈ j.subscribers.map Subscriber.id then
    j
  else
    { j with subscribers := j.subscribers ++ [⟨id, j.stream.head, []⟩] }

/-- What `subscribe` returns. -/
def unsubscribe (j : TurnEventJournal) (id : ℕ) : TurnEventJournal :=
  { j with subscribers := j.subscribers.filter fun subscriber => subscriber.id ≠ id }

/-- What a caller can do. -/
inductive Operation where
  | persist (facts : List RecordedFact) (call : Call)
  | compareAndPersist (fact : RecordedFact) (expectedHead : ℕ) (current : Bool) (call : Call)
  | subscribe (id : ℕ)
  | unsubscribe (id : ℕ)

/-- The journal after an operation. -/
def apply (j : TurnEventJournal) : Operation → TurnEventJournal
  | .persist facts call => (j.persist facts call).1
  | .compareAndPersist fact expectedHead current call =>
    (j.compareAndPersist fact expectedHead current call).1
  | .subscribe id => j.subscribe id
  | .unsubscribe id => j.unsubscribe id

/-- Every operation can happen at any time. -/
def step (j : TurnEventJournal) (operation : Operation) : Option TurnEventJournal :=
  some (j.apply operation)

/-- The journal after some operations. -/
def applyAll (j : TurnEventJournal) (operations : List Operation) : TurnEventJournal :=
  operations.foldl apply j

/-- `createTurnEventJournal` over a stream. -/
def create (hasHead : Bool) (stream : EventStream) : TurnEventJournal :=
  { hasHead, next := none, stream, subscribers := [] }

/-! ## Reading -/

/-- What `readAllEvents` answers; `lastRead` counts the reads it made before the last one. -/
inductive ReadAll where
  | ok (events : List StreamEvent) (truncated : Bool) (lastRead : ℕ)
  | error (error : EventStoreError)
  | cancelled

/-- The loop of `readAllEvents`, where the `k`-th read sees the stream `seen k`. -/
def readPages (maxEvents : ℕ) (answer : ℕ → StepAnswer) (seen : ℕ → EventStream) (k : ℕ)
    (events : List StreamEvent) (afterSequence : Option ℕ) : ReadAll :=
  if (answer k).aborted then
    .cancelled
  else if _hfull : maxEvents ≤ events.length then
    .ok events true k
  else
    match (answer k).refusal with
    | some code => .error (.refused code)
    | none =>
      match _hpage : ((seen k).readFrom afterSequence
          (min maxStreamReadLimit (maxEvents - events.length))).getLast? with
      | none => .ok events false k
      | some tail =>
        let page := (seen k).readFrom afterSequence
          (min maxStreamReadLimit (maxEvents - events.length))
        if page.length < min maxStreamReadLimit (maxEvents - events.length) then
          .ok (events ++ page) false k
        else if maxEvents ≤ (events ++ page).length then
          match (answer (k + 1)).refusal with
          | some code => .error (.refused code)
          | none =>
            let peek := (seen (k + 1)).readFrom (some tail.sequence) 1
            .ok (events ++ page) (0 < peek.length) (k + 1)
        else
          readPages maxEvents answer seen (k + 1) (events ++ page) (some tail.sequence)
termination_by maxEvents - events.length
decreasing_by
  have hpos := List.length_pos_of_mem (List.mem_of_getLast? _hpage)
  rw [List.length_append]
  omega

def readAllEvents (maxEvents : ℕ) (answer : ℕ → StepAnswer) (seen : ℕ → EventStream) : ReadAll :=
  readPages maxEvents answer seen 0 [] none

/-- `ReplayTurnEventsOutcome`, without the turns. -/
inductive ReplayTurnEventsOutcome where
  | rebuilt (events : List StreamEvent) (lastRead : ℕ)
  | empty
  | corrupt (events : List StreamEvent) (truncated : Bool)
  | partial_ (events : List StreamEvent)
  | cancelled
  | storeError (error : EventStoreError)

def replay (maxEvents : ℕ) (answer : ℕ → StepAnswer) (seen : ℕ → EventStream) :
    ReplayTurnEventsOutcome :=
  match readAllEvents maxEvents answer seen with
  | .cancelled => .cancelled
  | .error error => .storeError error
  | .ok events truncated lastRead =>
    match classifyTurnReplay events with
    | .empty => .empty
    | .corrupt => .corrupt events truncated
    | .rebuilt => if truncated then .partial_ events else .rebuilt events lastRead

end TurnEventJournal
end Falryn.Runtime
