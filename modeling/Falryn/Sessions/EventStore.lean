import Falryn.Foundation.Identity

/-!
# One stream of the event store

`EventStorePort` (`domain/sessions/event-store.ts`) for one stream, as `resolveAppend` of the durable
store (`data/sessions/event-store.ts`) and `createStreamSequencer` (`domain/foundation/sequence.ts`)
decide it.  A stream holds its events under the sequences `1, 2, 3, …` and no idempotency key twice,
and nothing else can be built.  What makes a store refuse for reasons of its own (closed, busy, an
event that does not encode, an event id that another stream uses, an artifact that is missing) is an
argument of the append; a refusal stores nothing.
-/

namespace Falryn.Sessions

/-- `FIRST_SEQUENCE`. -/
def firstSequence : ℕ := 1

def nextSequence (current : ℕ) : ℕ := current + 1

/-- `MAX_STREAM_READ_LIMIT`. -/
def maxStreamReadLimit : ℕ := 1000

/-- `MAX_TRACKED_EVENTS_PER_STREAM`. -/
def maxTrackedEventsPerStream : ℕ := 100000

/-- What the journal and the store read of a lifecycle fact: its identity, whether its kind is
`history.recorded`, and its payload as it is stored. -/
structure RecordedFact where
  identity : String
  historic : Bool
  payload : String

/-- A `RuntimeEvent` built from a fact.  The event id and the idempotency key are the identity of the
fact. -/
structure StreamEvent where
  fact : RecordedFact
  sequence : ℕ
  occurredAt : ℕ

/-- `SequenceError`, as far as one stream of facts can meet it. -/
inductive SequenceError where
  | sequenceOutOfOrder (expectedSequence observedSequence : ℕ)
  | sequenceGap (expectedSequence observedSequence : ℕ)
  | idempotencyConflict (idempotencyKey : String)
  | ledgerCapacityExceeded (maximumTrackedEvents : ℕ)

inductive EventStoreError where
  | sequence (error : SequenceError)
  /-- The store refuses for a reason of its own. -/
  | refused (code : String)

/-- The error is about the sequence of the event. -/
def EventStoreError.IsAboutSequence : EventStoreError → Prop
  | .sequence (.sequenceOutOfOrder _ _) | .sequence (.sequenceGap _ _) => True
  | _ => False

inductive AppendReceipt where
  | appended (sequence : ℕ)
  | duplicate (sequence : ℕ)

/-- The committed events of a stream. -/
structure EventStream where
  events : List StreamEvent
  /-- The sequences are `1, 2, 3, …`. -/
  sequenced : events.map StreamEvent.sequence = List.range' firstSequence events.length
  /-- No idempotency key is used twice. -/
  distinct : (events.map fun event => event.fact.identity).Nodup

namespace EventStream

/-- The stream without events. -/
def empty : EventStream := ⟨[], rfl, List.nodup_nil⟩

/-- The sequence of the last event, and `0` if there is none. -/
def head (s : EventStream) : ℕ := s.events.length

/-- The one event that holds an idempotency key. -/
def recorded (s : EventStream) (identity : String) : Option StreamEvent :=
  s.events.find? fun event => event.fact.identity = identity

/-- The key was used before by something else: only a history fact is compared by its content. -/
def conflicts (recorded observed : RecordedFact) : Bool :=
  (observed.historic || recorded.historic) &&
    (recorded.historic ≠ observed.historic || recorded.payload ≠ observed.payload)

variable {s : EventStream} {identity : String}

theorem recorded_eq_none :
    s.recorded identity = none ↔ identity ∉ s.events.map fun event => event.fact.identity := by
  rw [recorded, List.find?_eq_none, List.mem_map]
  simp

/-- The stream with one event more. -/
def push (s : EventStream) (event : StreamEvent) (hseq : event.sequence = nextSequence s.head)
    (hnew : s.recorded event.fact.identity = none) : EventStream where
  events := s.events ++ [event]
  sequenced := by
    rw [List.map_append, s.sequenced, List.map_singleton, hseq, List.length_append,
      List.length_singleton, List.range'_1_concat, nextSequence, head, firstSequence, Nat.add_comm]
  distinct := by
    rw [List.map_append, List.map_singleton]
    exact s.distinct.append (List.nodup_singleton _)
      (List.disjoint_singleton.2 (recorded_eq_none.1 hnew))

/-- `append`: the key first, then the sequence. -/
def append (s : EventStream) (event : StreamEvent) (refusal : Option String) :
    Except EventStoreError (AppendReceipt × EventStream) :=
  match refusal with
  | some code => .error (.refused code)
  | none =>
    match hrecorded : s.recorded event.fact.identity with
    | some recorded =>
      if conflicts recorded.fact event.fact then
        .error (.sequence (.idempotencyConflict event.fact.identity))
      else
        .ok (.duplicate recorded.sequence, s)
    | none =>
      let expected := nextSequence s.head
      if hlow : event.sequence < expected then
        .error (.sequence (.sequenceOutOfOrder expected event.sequence))
      else if hhigh : expected < event.sequence then
        .error (.sequence (.sequenceGap expected event.sequence))
      else
        .ok (.appended event.sequence,
          s.push event (Nat.le_antisymm (Nat.not_lt.1 hhigh) (Nat.not_lt.1 hlow)) hrecorded)

/-- `readFrom`: at most `limit` events after a cursor. -/
def readFrom (s : EventStream) (afterSequence : Option ℕ) (limit : ℕ) : List StreamEvent :=
  (s.events.filter fun event => afterSequence.getD 0 < event.sequence).take limit

/-! ## What the operations do -/

variable {event : StreamEvent}

theorem mem_of_recorded (h : s.recorded identity = some event) :
    event ∈ s.events ∧ event.fact.identity = identity :=
  ⟨List.mem_of_find?_eq_some h, by simpa using List.find?_some h⟩

theorem sequence_bounds (h : event ∈ s.events) :
    firstSequence ≤ event.sequence ∧ event.sequence ≤ s.head := by
  have hmem : event.sequence ∈ s.events.map StreamEvent.sequence := List.mem_map_of_mem h
  rw [s.sequenced, List.mem_range'_1] at hmem
  rw [head]
  rw [firstSequence] at hmem ⊢
  omega

variable {refusal : Option String} {error : EventStoreError}

/-- **What an append can do.**  It finds the key and answers with a receipt, or it finds the sequence
in order and stores the event. -/
theorem append_ok {s' : EventStream}
    {receipt : AppendReceipt} (h : s.append event refusal = .ok (receipt, s')) :
    refusal = none ∧
    ((∃ recorded, s.recorded event.fact.identity = some recorded ∧
        conflicts recorded.fact event.fact = false ∧
        receipt = .duplicate recorded.sequence ∧ s' = s) ∨
      (s.recorded event.fact.identity = none ∧ event.sequence = nextSequence s.head ∧
        receipt = .appended event.sequence ∧ s'.events = s.events ++ [event])) := by
  unfold append at h
  split at h
  · cases h
  · refine ⟨rfl, ?_⟩
    split at h
    next recorded hrecorded =>
      split at h
      · cases h
      next hconflict =>
        cases h
        exact .inl ⟨recorded, hrecorded, by simpa using hconflict, rfl, rfl⟩
    next hrecorded =>
      dsimp only at h
      split at h
      · cases h
      next hlow =>
        split at h
        · cases h
        next hhigh =>
          cases h
          exact .inr ⟨hrecorded, Nat.le_antisymm (Nat.not_lt.1 hhigh) (Nat.not_lt.1 hlow), rfl, rfl⟩

/-- **Why an append can fail.**  The store refuses, the key belongs to something else, or the event is
new and its sequence is not the next one. -/
theorem append_error (h : s.append event refusal = .error error) :
    (∃ code, refusal = some code ∧ error = .refused code) ∨
    (∃ recorded, s.recorded event.fact.identity = some recorded ∧
      conflicts recorded.fact event.fact = true ∧
      error = .sequence (.idempotencyConflict event.fact.identity)) ∨
    (s.recorded event.fact.identity = none ∧ event.sequence ≠ nextSequence s.head ∧
      error.IsAboutSequence) := by
  unfold append at h
  split at h
  next code =>
    cases h
    exact .inl ⟨code, rfl, rfl⟩
  · split at h
    next recorded hrecorded =>
      split at h
      next hconflict =>
        cases h
        exact .inr (.inl ⟨recorded, hrecorded, hconflict, rfl⟩)
      · cases h
    next hrecorded =>
      dsimp only at h
      split at h
      next hlow =>
        cases h
        exact .inr (.inr ⟨hrecorded, hlow.ne, trivial⟩)
      · split at h
        next hhigh =>
          cases h
          exact .inr (.inr ⟨hrecorded, hhigh.ne', trivial⟩)
        · cases h

/-- An event is refused for its sequence only if that is not the next one. -/
theorem sequence_ne_of_append_error
    (h : s.append event refusal = .error error) (habout : error.IsAboutSequence) :
    event.sequence ≠ nextSequence s.head := by
  rcases append_error h with ⟨_, -, rfl⟩ | ⟨_, -, -, rfl⟩ | ⟨-, hseq, -⟩
  · cases habout
  · cases habout
  · exact hseq

/-! ## Pages -/

/-- In a list that is numbered from `first` on, what comes after a number is what is left when so many
are dropped. -/
theorem filter_lt_eq_drop {α : Type*} (f : α → ℕ) (k : ℕ) :
    ∀ (l : List α) (first : ℕ), l.map f = List.range' first l.length →
      l.filter (fun x => k < f x) = l.drop (k + 1 - first) := by
  intro l
  induction l with
  | nil => exact fun first _ => by simp
  | cons x l ih =>
    intro first h
    rw [List.map_cons, List.length_cons, List.range'_succ, List.cons.injEq] at h
    have hrest := ih (first + 1) h.2
    by_cases hx : k < f x
    · rw [List.filter_cons_of_pos (by simpa using hx), hrest]
      have h0 : k + 1 - (first + 1) = 0 := by omega
      have h1 : k + 1 - first = 0 := by omega
      rw [h0, h1, List.drop_zero, List.drop_zero]
    · rw [List.filter_cons_of_neg (by simpa using hx), hrest]
      have h1 : k + 1 - first = (k + 1 - (first + 1)) + 1 := by omega
      rw [h1, List.drop_succ_cons]

theorem readFrom_eq (s : EventStream) (afterSequence : Option ℕ) (limit : ℕ) :
    s.readFrom afterSequence limit = (s.events.drop (afterSequence.getD 0)).take limit := by
  rw [readFrom, filter_lt_eq_drop StreamEvent.sequence _ s.events firstSequence s.sequenced,
    firstSequence, Nat.add_sub_cancel]

/-- The last event of a page has the sequence up to which the stream was read. -/
theorem readFrom_getLast {afterSequence : Option ℕ} {limit : ℕ}
    {tail : StreamEvent} (h : (s.readFrom afterSequence limit).getLast? = some tail) :
    tail.sequence = afterSequence.getD 0 + (s.readFrom afterSequence limit).length := by
  rw [readFrom_eq] at h ⊢
  generalize hpage : (s.events.drop (afterSequence.getD 0)).take limit = page at h ⊢
  have hmap : page.map StreamEvent.sequence =
      List.range' (firstSequence + afterSequence.getD 0) page.length := by
    rw [← hpage, List.map_take, List.map_drop, s.sequenced, List.length_take, List.length_drop]
    refine List.ext_getElem (by simp) fun _ _ _ => ?_
    rw [List.getElem_take, List.getElem_drop, List.getElem_range', List.getElem_range']
    omega
  rw [List.getLast?_eq_some_iff] at h
  obtain ⟨before, rfl⟩ := h
  rw [List.map_append, List.map_singleton, List.length_append, List.length_singleton,
    List.range'_1_concat] at hmap
  have hlast := (List.append_inj' hmap rfl).2
  rw [List.cons.injEq, firstSequence] at hlast
  rw [hlast.1, List.length_append, List.length_singleton]
  omega

end EventStream

/-! ## Inspecting a replay -/

/-- What `createStreamSequencer` keeps of one stream. -/
structure StreamState where
  lastSequence : Option ℕ
  keys : List String

/-- `append` of the sequencer: the error it rejects an event with, if it does. -/
def StreamState.append (state : StreamState) (event : StreamEvent) :
    Option SequenceError × StreamState :=
  match state.lastSequence with
  | none =>
    if event.sequence < firstSequence then
      (some (.sequenceOutOfOrder firstSequence event.sequence), state)
    else if firstSequence < event.sequence then
      (some (.sequenceGap firstSequence event.sequence), state)
    else
      (none, ⟨some event.sequence, [event.fact.identity]⟩)
  | some lastSequence =>
    if event.fact.identity ∈ state.keys then
      (none, state)
    else if maxTrackedEventsPerStream ≤ state.keys.length then
      (some (.ledgerCapacityExceeded maxTrackedEventsPerStream), state)
    else if event.sequence < nextSequence lastSequence then
      (some (.sequenceOutOfOrder (nextSequence lastSequence) event.sequence), state)
    else if nextSequence lastSequence < event.sequence then
      (some (.sequenceGap (nextSequence lastSequence) event.sequence), state)
    else
      (none, ⟨some event.sequence, event.fact.identity :: state.keys⟩)

/-- The anomalies `inspectReplay` reports. -/
def replayAnomalies : StreamState → List StreamEvent → List SequenceError
  | _, [] => []
  | state, event :: events =>
    let (error, after) := state.append event
    error.toList ++ replayAnomalies after events

/-- `classifyTurnReplay`, without the turns it rebuilds. -/
inductive TurnReplayClassification where
  | empty
  | corrupt
  | rebuilt

def classifyTurnReplay (events : List StreamEvent) : TurnReplayClassification :=
  if events.length = 0 then
    .empty
  else if 0 < (replayAnomalies ⟨none, []⟩ events).length then
    .corrupt
  else
    .rebuilt

end Falryn.Sessions
