import Falryn.Sessions.EventSequencer

/-!
# Two event stores

The in-memory store and the durable one answer the same list of appends.  `Mirrors` relates them to the
list of events both have stored; while it holds, one more append gets the same answer from both and
they go on mirroring each other, unless its event id is held by another stream, where the durable store
refuses it on purpose.
-/

namespace Falryn.Sessions.Journal

/-! ## History records -/

theorem storedPayload_history {event : RuntimeEvent} (h : event.kind = .historyRecorded) :
    event.storedPayload = .object
      [("minimumReaderSchemaVersion", .number event.minimumReaderSchemaVersion),
        ("idempotencyKey", .string event.idempotencyKey.1),
        ("payload", .object event.payload),
        ("correlation", event.storedCorrelation)] := by
  have hidentities : event.identities = [] := by
    rw [RuntimeEvent.identities, h]
    rfl
  rw [RuntimeEvent.storedPayload, RuntimeEvent.toWireEvent, hidentities, h]
  rfl

/-- What the durable store compares of two history records under one key. -/
theorem payloadText_eq_iff {e f : RuntimeEvent} (he : e.kind = .historyRecorded)
    (hf : f.kind = .historyRecorded) (hkey : e.idempotencyKey.1 = f.idempotencyKey.1) :
    payloadText e = payloadText f ↔
      (JsValue.object e.payload).stringify = (JsValue.object f.payload).stringify
        ∧ e.minimumReaderSchemaVersion = f.minimumReaderSchemaVersion
        ∧ e.storedCorrelation.stringify = f.storedCorrelation.stringify := by
  rw [payloadText, payloadText, storedPayload_history he, storedPayload_history hf, hkey]
  simp [JsValue.stringify, JsValue.stringifyFields, RuntimeEvent.storedCorrelation]
  tauto

/-- Two history records with one payload differ in what both stores look at, or in nothing that one
of them looks at.  The durable store looks at the reader version and at the correlation without its
trace, the in-memory store at the correlation as it was written. -/
def AgreesOnRetry (prior event : RuntimeEvent) : Prop :=
  (JsValue.object prior.payload).stringify = (JsValue.object event.payload).stringify →
    (prior.correlation.value.stringify = event.correlation.value.stringify ↔
      prior.minimumReaderSchemaVersion = event.minimumReaderSchemaVersion
        ∧ prior.storedCorrelation.stringify = event.storedCorrelation.stringify)

/-! ## Conditions -/

/-- A request that the two stores can be asked to agree on, after the requests for some earlier
events. -/
structure Comparable (table : EventTable) (earlier : List RuntimeEvent) (request : Append) : Prop where
  /-- The transaction commits if nothing speaks against the event. -/
  commits : request.faulted = false
  /-- The artifacts of a history record can be used. -/
  artifacts : referencesAvailable request.artifacts request.event = true
  /-- The stream is short enough to be tracked. -/
  tracked : (table.stream request.event.streamId.1).length < maxTrackedEventsPerStream
  /-- Stream and key can be told from their joined text. -/
  keys : ∀ event ∈ earlier, joinedKey event = joinedKey request.event →
    event.streamId.1 = request.event.streamId.1
      ∧ event.idempotencyKey.1 = request.event.idempotencyKey.1
  /-- A history record that comes again differs in what both stores look at, or not at all. -/
  retries : ∀ event ∈ earlier, event.streamId.1 = request.event.streamId.1 →
    event.idempotencyKey.1 = request.event.idempotencyKey.1 → event.kind = .historyRecorded →
    request.event.kind = .historyRecorded → AgreesOnRetry event request.event

/-- No other stream holds the id of an event. -/
def OwnEventId (table : EventTable) (event : RuntimeEvent) : Prop :=
  ∀ row ∈ table.rows, row.eventId = event.eventId.1 → row.streamId = event.streamId.1

/-! ## The relation -/

/-- What the sequencer knows of a stream. -/
structure Tracks (events : List RuntimeEvent) (state : StreamState) : Prop where
  lastSequence : state.lastSequence = events.length
  keys : ∀ key tracked, state.byIdempotencyKey.get key = some tracked ↔
    ∃ event ∈ events, event.idempotencyKey.1 = key
      ∧ tracked = ⟨event.eventId.1, event.sequence.1⟩
  ids : ∀ id, (state.eventIds.get id).isSome ↔ ∃ event ∈ events, event.eventId.1 = id
  size : state.eventIds.size = events.length

/-- The events of a stream. -/
def streamOf (log : List RuntimeEvent) (streamId : String) : List RuntimeEvent :=
  log.filter fun event => event.streamId.1 = streamId

/-- Both stores hold the events of a log. -/
structure Mirrors (log : List RuntimeEvent) (table : EventTable) (store : InMemoryStore) :
    Prop where
  gapless : Gapless table
  rows : table.rows = log.map rowOf
  untracked : ∀ streamId, store.sequencer.get streamId = none → streamOf log streamId = []
  tracked : ∀ streamId state, store.sequencer.get streamId = some state →
    Tracks (streamOf log streamId) state
  recalled : ∀ key event, store.historyKeys.get key = some event → event ∈ log ∧ joinedKey event = key
  remembered : ∀ event ∈ log, store.historyKeys.get (joinedKey event) = some event

section Relation

variable {log : List RuntimeEvent} {table : EventTable} {store : InMemoryStore}

theorem mirrors_empty : Mirrors [] .empty .empty :=
  ⟨gapless_empty, rfl, fun _ _ => rfl, fun _ _ h => (nomatch h), fun _ _ h => (nomatch h),
    fun _ h => (nomatch h)⟩

variable {event : RuntimeEvent}

theorem mem_streamOf {streamId : String} :
    event ∈ streamOf log streamId ↔ event ∈ log ∧ event.streamId.1 = streamId := by
  rw [streamOf, List.mem_filter, decide_eq_true_eq]

theorem streamOf_concat (event : RuntimeEvent) (streamId : String) :
    streamOf (log ++ [event]) streamId
      = streamOf log streamId ++ if event.streamId.1 = streamId then [event] else [] := by
  rw [streamOf, List.filter_append, ← streamOf]
  by_cases hstream : event.streamId.1 = streamId
  · rw [if_pos hstream, List.filter_cons_of_pos (by simpa using hstream), List.filter_nil]
  · rw [if_neg hstream, List.filter_cons_of_neg (by simpa using hstream), List.filter_nil]

theorem length_stream (h : Mirrors log table store) (streamId : String) :
    (table.stream streamId).length = (streamOf log streamId).length := by
  rw [EventTable.stream, h.rows, List.filter_map, List.length_map]
  rfl

/-- A recorded key is the key of an event of the log, and the other way round. -/
theorem byIdempotencyKey_mirrors (h : Mirrors log table store) (streamId key : String) :
    (table.byIdempotencyKey streamId key = none ∧
        ∀ event ∈ log, ¬ (event.streamId.1 = streamId ∧ event.idempotencyKey.1 = key))
      ∨ ∃ prior ∈ log, prior.streamId.1 = streamId ∧ prior.idempotencyKey.1 = key
        ∧ table.byIdempotencyKey streamId key = some (rowOf prior) := by
  cases hfound : table.byIdempotencyKey streamId key with
  | none =>
    refine .inl ⟨rfl, fun event hmem hkey => ?_⟩
    refine byIdempotencyKey_none.1 hfound ?_
    rw [h.rows, List.map_map]
    exact List.mem_map.2 ⟨event, hmem, Prod.ext hkey.1 hkey.2⟩
  | some row =>
    obtain ⟨hmem, hstream, hkey⟩ := byIdempotencyKey_some.1 hfound
    rw [h.rows] at hmem
    obtain ⟨prior, hprior, rfl⟩ := List.mem_map.1 hmem
    exact .inr ⟨prior, hprior, hstream, hkey, rfl⟩

theorem holdsEventId_mirrors (h : Mirrors log table store) {eventId : String} :
    table.holdsEventId eventId = true ↔ ∃ event ∈ log, event.eventId.1 = eventId := by
  rw [holdsEventId_iff, h.rows, List.map_map, List.mem_map]
  rfl

/-- Tracking one event more. -/
theorem tracks_concat {events : List RuntimeEvent} {state : StreamState}
    (h : Tracks events state) (hnext : event.sequence.1 = events.length + 1)
    (hkey : ∀ e ∈ events, e.idempotencyKey.1 ≠ event.idempotencyKey.1)
    (hid : ∀ e ∈ events, e.eventId.1 ≠ event.eventId.1) :
    Tracks (events ++ [event]) (state.track event) := by
  have hfresh : event.eventId.1 ∉ state.eventIds.keys := by
    intro hmem
    obtain ⟨key, hget⟩ := OrderedMap.mem_keys.1 hmem
    obtain ⟨e, he, heq⟩ := (h.ids event.eventId.1).1 (by rw [hget]; rfl)
    exact hid e he heq
  refine ⟨?_, fun key tracked => ?_, fun id => ?_, ?_⟩
  · rw [List.length_append, List.length_singleton]
    exact hnext
  · show (state.byIdempotencyKey.set _ _).get key = some tracked ↔ _
    rw [OrderedMap.get_set]
    by_cases hk : key = event.idempotencyKey.1
    · rw [if_pos hk, Option.some.injEq]
      constructor
      · rintro rfl
        exact ⟨event, List.mem_append_right _ (List.mem_singleton_self _), hk.symm, rfl⟩
      · rintro ⟨e, hmem, hekey, rfl⟩
        rcases List.mem_append.1 hmem with hold | hnew
        · exact absurd (hekey.trans hk) (hkey e hold)
        · rw [List.mem_singleton.1 hnew]
    · rw [if_neg hk, h.keys]
      constructor
      · rintro ⟨e, hmem, hrest⟩
        exact ⟨e, List.mem_append_left _ hmem, hrest⟩
      · rintro ⟨e, hmem, hekey, htracked⟩
        rcases List.mem_append.1 hmem with hold | hnew
        · exact ⟨e, hold, hekey, htracked⟩
        · rw [List.mem_singleton.1 hnew] at hekey
          exact absurd hekey.symm hk
  · show ((state.eventIds.set _ _).get id).isSome = true ↔ _
    rw [OrderedMap.get_set]
    by_cases hi : id = event.eventId.1
    · rw [if_pos hi]
      exact iff_of_true rfl
        ⟨event, List.mem_append_right _ (List.mem_singleton_self _), hi.symm⟩
    · rw [if_neg hi, h.ids]
      constructor
      · rintro ⟨e, hmem, heq⟩
        exact ⟨e, List.mem_append_left _ hmem, heq⟩
      · rintro ⟨e, hmem, heq⟩
        rcases List.mem_append.1 hmem with hold | hnew
        · exact ⟨e, hold, heq⟩
        · rw [List.mem_singleton.1 hnew] at heq
          exact absurd heq.symm hi
  · show (state.eventIds.set _ _).size = _
    rw [← OrderedMap.length_keys, OrderedMap.keys_set_of_not_mem _ hfresh, List.length_append,
      OrderedMap.length_keys, h.size, List.length_append]
    rfl

/-- What the sequencer knows of a stream, whether it has a state for it or not. -/
theorem tracks_state (h : Mirrors log table store) (streamId : String) :
    Tracks (streamOf log streamId)
      ((store.sequencer.get streamId).getD ⟨0, OrderedMap.empty, OrderedMap.empty⟩) := by
  cases hstate : store.sequencer.get streamId with
  | none =>
    rw [h.untracked streamId hstate]
    exact ⟨rfl, fun key tracked => by simp, fun id => by simp, rfl⟩
  | some state => exact h.tracked streamId state hstate

/-- Both stores take in one event more. -/
theorem mirrors_concat {table' : EventTable} (h : Mirrors log table store)
    (hrows : table'.rows = table.rows ++ [rowOf event])
    (hnext : event.sequence.1 = nextSequence (table.stream event.streamId.1).length)
    (hkey : ∀ e ∈ log, ¬ (e.streamId.1 = event.streamId.1
      ∧ e.idempotencyKey.1 = event.idempotencyKey.1))
    (hid : ∀ e ∈ log, e.eventId.1 ≠ event.eventId.1)
    (hjoined : ∀ e ∈ log, joinedKey e ≠ joinedKey event) {state' : StreamState}
    (hstate : state' = ((store.sequencer.get event.streamId.1).getD
      ⟨0, OrderedMap.empty, OrderedMap.empty⟩).track event) :
    Mirrors (log ++ [event]) table'
      ⟨store.sequencer.set event.streamId.1 state',
        store.historyKeys.set (joinedKey event) event⟩ := by
  refine ⟨gapless_concat h.gapless hrows hnext, ?_, fun streamId hget => ?_,
    fun streamId state hget => ?_, fun key e hget => ?_, fun e hmem => ?_⟩
  · rw [hrows, h.rows, List.map_append, List.map_singleton]
  · rw [OrderedMap.get_set] at hget
    by_cases hstream : streamId = event.streamId.1
    · rw [if_pos hstream] at hget
      cases hget
    · rw [if_neg hstream] at hget
      rw [streamOf_concat, if_neg (Ne.symm hstream), List.append_nil]
      exact h.untracked streamId hget
  · rw [OrderedMap.get_set] at hget
    by_cases hstream : streamId = event.streamId.1
    · rw [if_pos hstream, Option.some.injEq] at hget
      rw [streamOf_concat, if_pos hstream.symm, ← hget, hstate, hstream]
      refine tracks_concat (tracks_state h event.streamId.1) ?_ (fun e he hsame => ?_)
        fun e he => hid e (mem_streamOf.1 he).1
      · rw [hnext, length_stream h, nextSequence]
      · exact hkey e (mem_streamOf.1 he).1 ⟨(mem_streamOf.1 he).2, hsame⟩
    · rw [if_neg hstream] at hget
      rw [streamOf_concat, if_neg (Ne.symm hstream), List.append_nil]
      exact h.tracked streamId state hget
  · rw [OrderedMap.get_set] at hget
    by_cases hk : key = joinedKey event
    · rw [if_pos hk, Option.some.injEq] at hget
      rw [← hget]
      exact ⟨List.mem_append_right _ (List.mem_singleton_self _), hk.symm⟩
    · rw [if_neg hk] at hget
      obtain ⟨hmem, hjoin⟩ := h.recalled key e hget
      exact ⟨List.mem_append_left _ hmem, hjoin⟩
  · rcases List.mem_append.1 hmem with hold | hnew
    · rw [OrderedMap.get_set_ne _ _ (hjoined e hold)]
      exact h.remembered e hold
    · rw [List.mem_singleton.1 hnew]
      exact OrderedMap.get_set_self _ _ _

end Relation

/-! ## One append -/

section OneAppend

variable {validate : RuntimeEvent → Option CodecError} {log : List RuntimeEvent}
  {table : EventTable} {store : InMemoryStore} {request : Append}

variable {event : RuntimeEvent} {prior : RuntimeEvent} {decision : AppendDecision}
  {earlier : List RuntimeEvent}

/-- Under a recorded key the two stores compare alike. -/
theorem otherRecord_eq_differs (hid : prior.eventId.1 = event.eventId.1)
    (hkey : prior.idempotencyKey.1 = event.idempotencyKey.1)
    (hagrees : prior.kind = .historyRecorded → event.kind = .historyRecorded →
      AgreesOnRetry prior event) : otherRecord prior event = differs (rowOf prior) event := by
  have hrow : (rowOf prior).eventId = event.eventId.1 := hid
  by_cases hprior : prior.kind = .historyRecorded
  · by_cases hevent : event.kind = .historyRecorded
    · have hiff := payloadText_eq_iff hprior hevent hkey
      have hagree := hagrees hprior hevent
      rw [AgreesOnRetry] at hagree
      rw [Bool.eq_iff_iff]
      simp only [otherRecord, differs, hrow, hprior, hevent, show (rowOf prior).kind = prior.kind
        from rfl, show (rowOf prior).payload = payloadText prior from rfl, decide_true,
        Bool.true_or, Bool.true_and, ne_eq, not_true_eq_false, decide_false, Bool.false_or,
        Bool.or_eq_true, decide_eq_true_eq]
      rw [hiff]
      tauto
    · simp [otherRecord, differs, hrow, hprior, hevent, Ne.symm hevent,
        show (rowOf prior).kind = prior.kind from rfl]
  · by_cases hevent : event.kind = .historyRecorded
    · simp [otherRecord, differs, hrow, hprior, hevent,
        show (rowOf prior).kind = prior.kind from rfl]
    · simp [otherRecord, differs, hrow, hprior, hevent,
        show (rowOf prior).kind = prior.kind from rfl]

/-- What both stores do with an event that encodes. -/
theorem performAppend_encoded (hcommits : request.faulted = false)
    (hencoded : encodeRefusal validate request.event = none) :
    performAppend validate table request =
      match resolveAppend table request.artifacts request.event with
      | none => (.error .storage, table)
      | some (resolution, table') => (receiptOf resolution, table') := by
  unfold performAppend
  rw [hcommits, if_neg Bool.false_ne_true, hencoded] <;> rfl

/-- **A recorded key** gets the same answer from both stores, and nothing changes. -/
theorem append_recorded (validate : RuntimeEvent → Option CodecError) (h : Mirrors log table store)
    (hevent : request.event = event) (hcommits : request.faulted = false)
    (hencoded : encodeRefusal validate event = none) (hprior : prior ∈ log)
    (hstream : prior.streamId.1 = event.streamId.1)
    (hkey : prior.idempotencyKey.1 = event.idempotencyKey.1)
    (hfound : table.byIdempotencyKey event.streamId.1 event.idempotencyKey.1
      = some (rowOf prior))
    (hagrees : prior.kind = .historyRecorded → event.kind = .historyRecorded →
      AgreesOnRetry prior event) :
    performAppend validate table request = ((store.append validate event).1, table)
      ∧ (store.append validate event).2 = store := by
  have hdurable : performAppend validate table request
      = (receiptOf (if differs (rowOf prior) event then
          .rejected (.idempotencyConflict event.streamId.1 event.idempotencyKey.1 prior.eventId.1
            event.eventId.1)
          else .duplicate prior.sequence.1), table) := by
    rw [performAppend_encoded hcommits (by rw [hevent]; exact hencoded), hevent, resolveAppend,
      hfound]
    dsimp only
    rw [resolveRecorded, show (rowOf prior).eventId = prior.eventId.1 from rfl,
      parseIdentifier_val, show (rowOf prior).sequence = prior.sequence.1 from rfl,
      parseSequence_val]
  have hjoined : joinedKey event = joinedKey prior := by rw [joinedKey, joinedKey, hstream, hkey]
  have hknown : store.historyKeys.get (joinedKey event) = some prior := by
    rw [hjoined]
    exact h.remembered prior hprior
  obtain ⟨state, hstate⟩ : ∃ state, store.sequencer.get event.streamId.1 = some state := by
    cases hget : store.sequencer.get event.streamId.1 with
    | some state => exact ⟨state, rfl⟩
    | none =>
      have hmem : prior ∈ streamOf log event.streamId.1 := mem_streamOf.2 ⟨hprior, hstream⟩
      rw [h.untracked _ hget] at hmem
      cases hmem
  have htracked : state.byIdempotencyKey.get event.idempotencyKey.1
      = some ⟨prior.eventId.1, prior.sequence.1⟩ :=
    ((h.tracked _ state hstate).keys _ _).2
      ⟨prior, mem_streamOf.2 ⟨hprior, hstream⟩, hkey, rfl⟩
  have hresolve : state.resolve event
      = if prior.eventId.1 ≠ event.eventId.1 then
          .rejected (.idempotencyConflict event.streamId.1 event.idempotencyKey.1 prior.eventId.1
            event.eventId.1)
        else .duplicate prior.sequence.1 := by
    rw [StreamState.resolve, htracked]
  unfold InMemoryStore.append
  rw [hencoded, hknown, hdurable]
  dsimp only
  rw [Option.filter_some]
  by_cases hother : otherRecord prior event = true
  · rw [if_pos hother]
    refine ⟨?_, rfl⟩
    by_cases hid : prior.eventId.1 = event.eventId.1
    · rw [if_pos (by rw [← otherRecord_eq_differs hid hkey hagrees]; exact hother)]
      rfl
    · rw [if_pos (by simp [differs, rowOf, hid])]
      rfl
  · rw [if_neg hother]
    dsimp only
    rw [StreamSequencer.append, hstate]
    dsimp only
    rw [hresolve]
    by_cases hid : prior.eventId.1 = event.eventId.1
    · rw [if_neg (not_not.2 hid),
        if_neg (by rw [← otherRecord_eq_differs hid hkey hagrees]; exact hother)]
      exact ⟨rfl, rfl⟩
    · rw [if_pos hid, if_pos (by simp [differs, rowOf, hid])]
      exact ⟨rfl, rfl⟩

/-- The answer for a new key in a stream of some length, where the event id is new as well. -/
def nextDecision (length : ℕ) (event : RuntimeEvent) : AppendDecision :=
  if event.sequence.1 < nextSequence length then
    .rejected (.sequenceOutOfOrder event.streamId.1 (nextSequence length) event.sequence.1)
  else if nextSequence length < event.sequence.1 then
    .rejected (.sequenceGap event.streamId.1 (nextSequence length) event.sequence.1)
  else .appended event.sequence.1

/-- The state the sequencer has for a stream, or starts with. -/
def stateOf (store : InMemoryStore) (streamId : String) : StreamState :=
  (store.sequencer.get streamId).getD ⟨0, OrderedMap.empty, OrderedMap.empty⟩

/-- The sequencer after a decision. -/
def sequencedBy (store : InMemoryStore) (event : RuntimeEvent) (decision : AppendDecision) :
    StreamSequencer :=
  match decision with
  | .appended _ => store.sequencer.set event.streamId.1 ((stateOf store event.streamId.1).track event)
  | _ => store.sequencer

/-- **A new key, for the sequencer**: the event id conflicts, or the sequence decides. -/
theorem sequencer_append_fresh (h : Mirrors log table store)
    (hnew : ∀ e ∈ log, ¬ (e.streamId.1 = event.streamId.1
      ∧ e.idempotencyKey.1 = event.idempotencyKey.1))
    (hshort : (streamOf log event.streamId.1).length < maxTrackedEventsPerStream)
    (hdecision : decision = if ∃ e ∈ streamOf log event.streamId.1, e.eventId.1 = event.eventId.1 then
        .rejected (.eventIdConflict event.streamId.1 event.eventId.1)
      else nextDecision (streamOf log event.streamId.1).length event) :
    store.sequencer.append event = (decision, sequencedBy store event decision) := by
  cases hget : store.sequencer.get event.streamId.1 with
  | none =>
    have hempty := h.untracked _ hget
    rw [hempty, if_neg (by simp), List.length_nil] at hdecision
    rw [StreamSequencer.append, hget, hdecision]
    dsimp only
    have hpos := event.sequence.2.1
    rw [nextDecision, nextSequence]
    by_cases hfirst : event.sequence.1 = firstSequence
    · rw [if_neg (not_not.2 hfirst), if_neg (by rw [hfirst, firstSequence]; omega),
        if_neg (by rw [hfirst, firstSequence]; omega), sequencedBy, stateOf, hget]
      rfl
    · have hgap : 0 + 1 < event.sequence.1 := by
        rw [firstSequence] at hfirst
        omega
      rw [if_pos hfirst, rejectFirstSequence, if_neg (by rw [firstSequence]; omega),
        if_neg (by omega), if_pos hgap]
      rfl
  | some state =>
    have htracks := h.tracked _ state hget
    have hkey : state.byIdempotencyKey.get event.idempotencyKey.1 = none := by
      cases hfound : state.byIdempotencyKey.get event.idempotencyKey.1 with
      | none => rfl
      | some tracked =>
        obtain ⟨e, he, hkey, _⟩ := (htracks.keys _ _).1 hfound
        exact absurd ⟨(mem_streamOf.1 he).2, hkey⟩ (hnew e (mem_streamOf.1 he).1)
    have hresolve : state.resolve event = decision := by
      rw [StreamState.resolve, hkey, hdecision]
      dsimp only
      by_cases hheld : ∃ e ∈ streamOf log event.streamId.1, e.eventId.1 = event.eventId.1
      · rw [if_pos hheld, if_pos ((htracks.ids _).2 hheld)]
      · rw [if_neg hheld, if_neg (fun hsome => hheld ((htracks.ids _).1 hsome)),
          if_neg (by rw [htracks.size]; omega), htracks.lastSequence]
        rfl
    rw [StreamSequencer.append, hget]
    dsimp only
    rw [hresolve]
    unfold sequencedBy stateOf
    rw [hget]
    cases decision <;> rfl

/-- **A new key, for the durable store**, if no other stream holds the event id. -/
theorem resolveAppend_fresh {artifacts : Artifacts}
    (h : Mirrors log table store) (hversion : 1 ≤ event.schemaVersion)
    (hnone : table.byIdempotencyKey event.streamId.1 event.idempotencyKey.1 = none)
    (hartifacts : referencesAvailable artifacts event = true) (hown : OwnEventId table event)
    (hdecision : decision = if ∃ e ∈ streamOf log event.streamId.1, e.eventId.1 = event.eventId.1 then
        .rejected (.eventIdConflict event.streamId.1 event.eventId.1)
      else nextDecision (streamOf log event.streamId.1).length event) :
    (∃ error, decision = .rejected error
        ∧ resolveAppend table artifacts event = some (.rejected error, table))
      ∨ decision = .appended event.sequence.1
        ∧ (∀ e ∈ log, e.eventId.1 ≠ event.eventId.1)
        ∧ event.sequence.1 = nextSequence (table.stream event.streamId.1).length
        ∧ ∃ table', resolveAppend table artifacts event = some (.appended event.sequence.1, table')
          ∧ table'.rows = table.rows ++ [rowOf event] := by
  have hheld : table.holdsEventId event.eventId.1 = true
      ↔ ∃ e ∈ streamOf log event.streamId.1, e.eventId.1 = event.eventId.1 := by
    rw [holdsEventId_mirrors h]
    constructor
    · rintro ⟨e, he, hid⟩
      have hrow : rowOf e ∈ table.rows := by
        rw [h.rows]
        exact List.mem_map_of_mem he
      exact ⟨e, mem_streamOf.2 ⟨he, hown _ hrow hid⟩, hid⟩
    · rintro ⟨e, he, hid⟩
      exact ⟨e, (mem_streamOf.1 he).1, hid⟩
  by_cases hconflict : ∃ e ∈ streamOf log event.streamId.1, e.eventId.1 = event.eventId.1
  · rw [if_pos hconflict] at hdecision
    refine .inl ⟨_, hdecision, ?_⟩
    rw [resolveAppend, hnone]
    dsimp only
    rw [if_pos (hheld.2 hconflict)]
  · rw [if_neg hconflict] at hdecision
    have hid : table.holdsEventId event.eventId.1 = false := by
      rw [← Bool.not_eq_true, hheld]
      exact hconflict
    unfold resolveAppend
    rw [hnone]
    dsimp only
    rw [hid, if_neg Bool.false_ne_true, expectedSequence_eq h.gapless, length_stream h]
    dsimp only
    unfold nextDecision at hdecision
    by_cases hlow : event.sequence.1 < nextSequence (streamOf log event.streamId.1).length
    · rw [if_pos hlow] at hdecision ⊢
      exact .inl ⟨_, hdecision, rfl⟩
    · rw [if_neg hlow] at hdecision ⊢
      by_cases hhigh : nextSequence (streamOf log event.streamId.1).length < event.sequence.1
      · rw [if_pos hhigh] at hdecision ⊢
        exact .inl ⟨_, hdecision, rfl⟩
      · rw [if_neg hhigh] at hdecision ⊢
        rw [if_neg (by rw [hartifacts]; decide)]
        have hnext := Nat.le_antisymm (Nat.not_lt.1 hhigh) (Nat.not_lt.1 hlow)
        rw [← length_stream h] at hnext
        obtain ⟨table', hinsert⟩ := insert_of_fits (fits_rowOf h.gapless hversion hnone hid hnext)
        rw [hinsert]
        refine .inr ⟨hdecision, fun e he heq => ?_, by rw [hnext, length_stream h], table', rfl,
          (insert_some hinsert).2⟩
        rw [(holdsEventId_mirrors h).2 ⟨e, he, heq⟩] at hid
        cases hid

/-- **One append**, where no other stream holds the event id: both stores answer alike and go on
mirroring each other. -/
theorem append_alike (validate : RuntimeEvent → Option CodecError) (h : Mirrors log table store)
    (hsub : log ⊆ earlier) (hc : Comparable table earlier request)
    (hown : OwnEventId table request.event) :
    (performAppend validate table request).1 = (store.append validate request.event).1
      ∧ ∃ log', log' ⊆ earlier ++ [request.event]
        ∧ Mirrors log' (performAppend validate table request).2
          (store.append validate request.event).2 := by
  have hkeep : log ⊆ earlier ++ [request.event] := fun e he =>
    List.mem_append_left _ (hsub he)
  cases hencoded : encodeRefusal validate request.event with
  | some error =>
    have hdurable : performAppend validate table request = (.error (.codec error), table) := by
      unfold performAppend
      rw [hc.commits, if_neg Bool.false_ne_true, hencoded]
    have hmemory : store.append validate request.event = (.error (.codec error), store) := by
      unfold InMemoryStore.append
      rw [hencoded]
    rw [hdurable, hmemory]
    exact ⟨rfl, log, hkeep, h⟩
  | none =>
    rcases byIdempotencyKey_mirrors h request.event.streamId.1 request.event.idempotencyKey.1 with
      ⟨hnone, hnew⟩ | ⟨prior, hprior, hstream, hkey, hfound⟩
    · have hjoined : ∀ e ∈ log, joinedKey e ≠ joinedKey request.event := fun e he hsame =>
        hnew e he (hc.keys e (hsub he) hsame)
      have hunknown : store.historyKeys.get (joinedKey request.event) = none := by
        cases hget : store.historyKeys.get (joinedKey request.event) with
        | none => rfl
        | some e =>
          obtain ⟨he, hsame⟩ := h.recalled _ e hget
          exact absurd hsame (hjoined e he)
      have hsequencer := sequencer_append_fresh h hnew
        (by rw [← length_stream h]; exact hc.tracked) rfl
      have hmemory : ∀ {decision : AppendDecision},
          store.sequencer.append request.event
            = (decision, sequencedBy store request.event decision) →
          store.append validate request.event = (receiptOfDecision decision,
            store.after request.event (decision, sequencedBy store request.event decision)) := by
        intro decision hseq
        unfold InMemoryStore.append
        rw [hencoded, hunknown]
        dsimp only [Option.filter_none]
        rw [hseq]
      rw [hmemory hsequencer, performAppend_encoded hc.commits hencoded]
      rcases resolveAppend_fresh h (schemaVersion_of_accepted hencoded) hnone hc.artifacts hown rfl
        with ⟨error, hdecision, hresolved⟩ | ⟨hdecision, hids, hnext, table', hresolved, hrows⟩
      · rw [hdecision, hresolved]
        exact ⟨rfl, log, hkeep, h⟩
      · rw [hdecision, hresolved]
        refine ⟨rfl, log ++ [request.event], ?_, ?_⟩
        · exact List.append_subset.2 ⟨hkeep, List.subset_append_right _ _⟩
        · exact mirrors_concat h hrows hnext hnew hids hjoined rfl
    · obtain ⟨hdurable, hstore⟩ := append_recorded validate h rfl hc.commits hencoded
        hprior hstream hkey hfound fun hpk hek => hc.retries prior (hsub hprior) hstream hkey hpk hek
      rw [hdurable, hstore]
      exact ⟨rfl, log, hkeep, h⟩

/-- **An event id of another stream** is refused by the durable store, unless the key is recorded. -/
theorem performAppend_foreign (h : Mirrors log table store)
    (hevent : request.event = event) (hcommits : request.faulted = false)
    (hencoded : encodeRefusal validate event = none)
    (hnone : table.byIdempotencyKey event.streamId.1 event.idempotencyKey.1 = none)
    {row : EventRow} (hrow : row ∈ table.rows) (hid : row.eventId = event.eventId.1) :
    (performAppend validate table request).1
      = .error (.sequence (.eventIdConflict event.streamId.1 event.eventId.1)) := by
  rw [performAppend_encoded hcommits (by rw [hevent]; exact hencoded), hevent, resolveAppend, hnone]
  dsimp only
  rw [if_pos (holdsEventId_iff.2 (List.mem_map.2 ⟨row, hrow, hid⟩))]
  rfl

/-- One append gets the same answer from both, or its event id is held by another stream. -/
theorem append_alike_or_foreign (h : Mirrors log table store)
    (hsub : log ⊆ earlier) (hc : Comparable table earlier request) :
    (performAppend validate table request).1 = (store.append validate request.event).1
      ∨ ¬ OwnEventId table request.event
        ∧ (performAppend validate table request).1 = .error (.sequence
          (.eventIdConflict request.event.streamId.1 request.event.eventId.1)) := by
  by_cases hown : OwnEventId table request.event
  · exact .inl (append_alike validate h hsub hc hown).1
  · cases hencoded : encodeRefusal validate request.event with
    | some error =>
      refine .inl ?_
      unfold performAppend InMemoryStore.append
      rw [hc.commits, if_neg Bool.false_ne_true, hencoded]
    | none =>
      rcases byIdempotencyKey_mirrors h request.event.streamId.1 request.event.idempotencyKey.1 with
        ⟨hnone, _⟩ | ⟨prior, hprior, hstream, hkey, hfound⟩
      · have hforeign := hown
        rw [OwnEventId] at hforeign
        push Not at hforeign
        obtain ⟨row, hrow, hid, _⟩ := hforeign
        exact .inr ⟨hown, performAppend_foreign h rfl hc.commits hencoded hnone hrow hid⟩
      · obtain ⟨hdurable, _⟩ := append_recorded validate h rfl hc.commits hencoded
          hprior hstream hkey hfound fun hpk hek =>
            hc.retries prior (hsub hprior) hstream hkey hpk hek
        exact .inl (by rw [hdurable])

end OneAppend

/-! ## Sequences of appends -/

section Sequences

variable {validate : RuntimeEvent → Option CodecError}

/-- The in-memory store after a list of appends. -/
def remembered (validate : RuntimeEvent → Option CodecError) (store : InMemoryStore)
    (requests : List Append) : InMemoryStore :=
  requests.foldl (fun store request => (store.append validate request.event).2) store

/-- The answers of the durable store. -/
def durableAnswers (validate : RuntimeEvent → Option CodecError) :
    EventTable → List Append → List (Except EventStoreError AppendReceipt)
  | _, [] => []
  | table, request :: requests =>
    let (answer, table') := performAppend validate table request
    answer :: durableAnswers validate table' requests

/-- The answers of the in-memory store. -/
def memoryAnswers (validate : RuntimeEvent → Option CodecError) :
    InMemoryStore → List Append → List (Except EventStoreError AppendReceipt)
  | _, [] => []
  | store, request :: requests =>
    let (answer, store') := store.append validate request.event
    answer :: memoryAnswers validate store' requests

theorem durableAnswers_concat (table : EventTable) (requests : List Append) (request : Append) :
    durableAnswers validate table (requests ++ [request])
      = durableAnswers validate table requests
        ++ [(performAppend validate (committed validate table requests) request).1] := by
  induction requests generalizing table with
  | nil => rfl
  | cons first requests ih => exact congrArg (_ :: ·) (ih _)

theorem memoryAnswers_concat (store : InMemoryStore) (requests : List Append) (request : Append) :
    memoryAnswers validate store (requests ++ [request])
      = memoryAnswers validate store requests
        ++ [((remembered validate store requests).append validate request.event).1] := by
  induction requests generalizing store with
  | nil => rfl
  | cons first requests ih => exact congrArg (_ :: ·) (ih _)

/-- Each of some requests can be asked of both stores when its turn comes. -/
def AllComparable (validate : RuntimeEvent → Option CodecError) (requests : List Append) : Prop :=
  ∀ before request after, requests = before ++ request :: after →
    Comparable (committed validate .empty before) (before.map Append.event) request

/-- No request carries an event id that the durable store holds in another stream. -/
def AllOwnEventIds (validate : RuntimeEvent → Option CodecError) (requests : List Append) : Prop :=
  ∀ before request after, requests = before ++ request :: after →
    OwnEventId (committed validate .empty before) request.event

/-- After requests whose event ids belong to their streams the stores have answered alike and mirror
each other. -/
theorem mirrored {requests : List Append} (hc : AllComparable validate requests)
    (hown : AllOwnEventIds validate requests) :
    durableAnswers validate .empty requests = memoryAnswers validate .empty requests
      ∧ ∃ log, log ⊆ requests.map Append.event
        ∧ Mirrors log (committed validate .empty requests)
          (remembered validate .empty requests) := by
  induction requests using List.reverseRecOn with
  | nil => exact ⟨rfl, [], List.nil_subset _, mirrors_empty⟩
  | append_singleton requests request ih =>
    obtain ⟨hanswers, log, hsub, hmirrors⟩ := ih
      (fun before r after hsplit => hc before r (after ++ [request])
        (by rw [hsplit, List.append_assoc]; rfl))
      (fun before r after hsplit => hown before r (after ++ [request])
        (by rw [hsplit, List.append_assoc]; rfl))
    obtain ⟨hanswer, log', hsub', hmirrors'⟩ := append_alike validate hmirrors hsub
      (hc requests request [] rfl) (hown requests request [] rfl)
    refine ⟨?_, log', ?_, ?_⟩
    · rw [durableAnswers_concat, memoryAnswers_concat, hanswers, hanswer]
    · rw [List.map_append, List.map_singleton]
      exact hsub'
    · rw [committed_append, remembered, List.foldl_append]
      exact hmirrors'

end Sequences

/-- A history record without evidence to look up. -/
def historyRecord (eventId streamId key traceId : Identifier) : RuntimeEvent :=
  { eventId
    streamId
    sequence := ⟨1, by decide⟩
    kind := .historyRecorded
    schemaVersion := 2
    minimumReaderSchemaVersion := 2
    occurredAt := "2026-01-01T00:00:00.000Z"
    idempotencyKey := key
    correlation :=
      { workspaceId := ⟨"workspace", by decide⟩
        sessionId := ⟨"session", by decide⟩
        turnId := some ⟨"turn", by decide⟩
        traceId
        configurationGeneration := 0
        order := ["workspaceId", "sessionId", "turnId", "traceId", "configurationGeneration"] }
    payload := [("version", .number 1), ("type", .string "gate"),
      ("evidence", .object [("availability", .string "unavailable")])] }

/-- The append of a history record to the first sequence of its stream. -/
def recordAppend (eventId streamId key traceId : Identifier) : Append :=
  { event := historyRecord eventId streamId key traceId
    artifacts := fun _ => none }

end Falryn.Sessions.Journal
