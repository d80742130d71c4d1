import Falryn.Sessions.EventTable

/-!
# Histories of the durable event store

Any number of writers append through `performAppend`, each append one transaction, while a reader asks
for pages of a stream.  A writer is nothing but the transactions it runs, so an interleaving of
writers is a list of transactions.  The table keeps every stream numbered `1, 2, 3, …` and every row
the row of an event (`Gapless`); from this follow what a retry finds and what a reader gets.
-/

namespace Falryn.Sessions.Journal

/-! ## What an append can do -/

/-- Every stream is numbered from one on without a gap, and every row was made of an event. -/
structure Gapless (table : EventTable) : Prop where
  sequences : ∀ streamId, (table.stream streamId).map EventRow.sequence
    = List.range' 1 (table.stream streamId).length
  stored : ∀ row ∈ table.rows, ∃ event, row = rowOf event

section Table

variable {table table' : EventTable} {row : EventRow} {event : RuntimeEvent}

theorem gapless_empty : Gapless EventTable.empty :=
  ⟨fun _ => rfl, fun _ h => nomatch h⟩

theorem insert_some (h : table.insert row = some table') :
    table.Fits row ∧ table'.rows = table.rows ++ [row] := by
  unfold EventTable.insert at h
  split_ifs at h with hfits
  cases h
  exact ⟨hfits, rfl⟩

theorem insert_of_fits (h : table.Fits row) : ∃ table', table.insert row = some table' := by
  rw [EventTable.insert, dif_pos h]
  exact ⟨_, rfl⟩

variable {streamId : String} {key : String}

theorem mem_stream : row ∈ table.stream streamId ↔ row ∈ table.rows ∧ row.streamId = streamId := by
  rw [EventTable.stream, List.mem_filter, decide_eq_true_eq]

/-- A new row is the last one of its stream and of no other. -/
theorem stream_concat (h : table'.rows = table.rows ++ [row]) (streamId : String) :
    table'.stream streamId
      = table.stream streamId ++ if row.streamId = streamId then [row] else [] := by
  rw [EventTable.stream, h, List.filter_append, ← EventTable.stream]
  by_cases hrow : row.streamId = streamId
  · rw [if_pos hrow, List.filter_cons_of_pos (by simpa using hrow), List.filter_nil]
  · rw [if_neg hrow, List.filter_cons_of_neg (by simpa using hrow), List.filter_nil]

theorem foldr_max_range' (n : ℕ) : (List.range' 1 n).foldr max 0 = n := by
  induction n with
  | zero => rfl
  | succ n ih =>
    rw [List.range'_1_concat, List.foldr_append]
    have hfold : ∀ (l : List ℕ) (m : ℕ), l.foldr max m = max (l.foldr max 0) m := by
      intro l m
      induction l with
      | nil => simp
      | cons x l ihl => rw [List.foldr_cons, List.foldr_cons, ihl, max_assoc]
    rw [hfold, ih, List.foldr_cons, List.foldr_nil]
    omega

theorem lastSequence_eq (h : Gapless table) (streamId : String) :
    table.lastSequence streamId = (table.stream streamId).length := by
  rw [EventTable.lastSequence, h.sequences, foldr_max_range']

/-- The last sequence of a stream was the sequence of an event. -/
theorem length_le_of_gapless (h : Gapless table) (hne : (table.stream streamId).length ≠ 0) :
    1 ≤ (table.stream streamId).length ∧ (table.stream streamId).length ≤ 2 ^ 53 - 1 := by
  have hmem : (table.stream streamId).length
      ∈ (table.stream streamId).map EventRow.sequence := by
    rw [h.sequences, List.mem_range'_1]
    omega
  obtain ⟨row, hrow, hsequence⟩ := List.mem_map.1 hmem
  obtain ⟨event, rfl⟩ := h.stored row (mem_stream.1 hrow).1
  rw [← hsequence]
  exact event.sequence.2

theorem expectedSequence_eq (h : Gapless table) (streamId : String) :
    expectedSequence (table.lastSequence streamId)
      = some (nextSequence (table.stream streamId).length) := by
  rw [lastSequence_eq h, expectedSequence]
  by_cases hne : (table.stream streamId).length = 0
  · rw [if_pos hne, hne]
    rfl
  · rw [if_neg hne, parseSequence, dif_pos (length_le_of_gapless h hne)]
    rfl

theorem byIdempotencyKey_none : table.byIdempotencyKey streamId key = none ↔
      (streamId, key) ∉ table.rows.map fun row => (row.streamId, row.idempotencyKey) := by
  rw [EventTable.byIdempotencyKey, List.find?_eq_none, List.mem_map]
  simp

theorem byIdempotencyKey_some : table.byIdempotencyKey streamId key = some row ↔
      row ∈ table.rows ∧ row.streamId = streamId ∧ row.idempotencyKey = key := by
  constructor
  · intro h
    exact ⟨List.mem_of_find?_eq_some h, by simpa using List.find?_some h⟩
  · rintro ⟨hmem, rfl, rfl⟩
    cases hfound : table.byIdempotencyKey row.streamId row.idempotencyKey with
    | none => exact absurd (List.mem_map_of_mem hmem) (byIdempotencyKey_none.1 hfound)
    | some found =>
      have hkey := List.find?_some hfound
      have hpair : (found.streamId, found.idempotencyKey) = (row.streamId, row.idempotencyKey) := by
        simpa using hkey
      rw [List.inj_on_of_nodup_map table.uniqueKeys (List.mem_of_find?_eq_some hfound) hmem hpair]

theorem holdsEventId_iff {eventId : String} :
    table.holdsEventId eventId = true ↔ eventId ∈ table.rows.map EventRow.eventId := by
  rw [EventTable.holdsEventId, List.any_eq_true, List.mem_map]
  simp

/-- **The checks of an append are those of the schema**: what passes them fits. -/
theorem fits_rowOf (h : Gapless table) (hversion : 1 ≤ event.schemaVersion)
    (hkey : table.byIdempotencyKey event.streamId.1 event.idempotencyKey.1 = none)
    (hid : table.holdsEventId event.eventId.1 = false)
    (hnext : event.sequence.1 = nextSequence (table.stream event.streamId.1).length) :
    table.Fits (rowOf event) := by
  refine ⟨fun hmem => ?_, fun hmem => ?_, byIdempotencyKey_none.1 hkey, event.sequence.2.1, hversion⟩
  · have hheld : table.holdsEventId event.eventId.1 = true := holdsEventId_iff.2 hmem
    rw [hid] at hheld
    cases hheld
  · obtain ⟨row, hrow, hpair⟩ := List.mem_map.1 hmem
    rw [Prod.mk.injEq] at hpair
    have hsequence : row.sequence
        ∈ (table.stream event.streamId.1).map EventRow.sequence :=
      List.mem_map_of_mem (mem_stream.2 ⟨hrow, hpair.1⟩)
    rw [h.sequences, List.mem_range'_1, hpair.2] at hsequence
    have hlast : (rowOf event).sequence = nextSequence (table.stream event.streamId.1).length :=
      hnext
    rw [nextSequence] at hlast
    omega

/-- **What `resolveAppend` can do.**  It throws nothing; it appends the row of the event as the next of
its stream, or it leaves the table as it is. -/
theorem resolveAppend_cases (h : Gapless table) (artifacts : Artifacts)
    (hversion : 1 ≤ event.schemaVersion) :
    (∃ table', resolveAppend table artifacts event = some (.appended event.sequence.1, table')
        ∧ table'.rows = table.rows ++ [rowOf event]
        ∧ event.sequence.1 = nextSequence (table.stream event.streamId.1).length)
      ∨ ∃ resolution, resolveAppend table artifacts event = some (resolution, table)
        ∧ ∀ sequence, resolution ≠ .appended sequence := by
  unfold resolveAppend
  cases hkey : table.byIdempotencyKey event.streamId.1 event.idempotencyKey.1 with
  | some recorded =>
    refine .inr ⟨_, rfl, fun sequence => ?_⟩
    unfold resolveRecorded
    split
    · split_ifs <;> exact fun hne => nomatch hne
    · exact fun hne => nomatch hne
  | none =>
    dsimp only
    cases hid : table.holdsEventId event.eventId.1 with
    | true => exact .inr ⟨_, rfl, fun _ hne => nomatch hne⟩
    | false =>
      rw [if_neg Bool.false_ne_true, expectedSequence_eq h]
      dsimp only
      by_cases hlow : event.sequence.1 < nextSequence (table.stream event.streamId.1).length
      · rw [if_pos hlow]
        exact .inr ⟨_, rfl, fun _ hne => nomatch hne⟩
      · rw [if_neg hlow]
        by_cases hhigh : nextSequence (table.stream event.streamId.1).length < event.sequence.1
        · rw [if_pos hhigh]
          exact .inr ⟨_, rfl, fun _ hne => nomatch hne⟩
        · rw [if_neg hhigh]
          by_cases hrefs : referencesAvailable artifacts event = false
          · rw [if_pos hrefs]
            exact .inr ⟨_, rfl, fun _ hne => nomatch hne⟩
          · rw [if_neg hrefs]
            have hnext := Nat.le_antisymm (Nat.not_lt.1 hhigh) (Nat.not_lt.1 hlow)
            obtain ⟨table', hinsert⟩ := insert_of_fits (fits_rowOf h hversion hkey hid hnext)
            rw [hinsert]
            exact .inl ⟨table', rfl, (insert_some hinsert).2, hnext⟩

/-- A row that is the next of its stream keeps the streams without gaps. -/
theorem gapless_concat (h : Gapless table) (hrows : table'.rows = table.rows ++ [rowOf event])
    (hnext : event.sequence.1 = nextSequence (table.stream event.streamId.1).length) :
    Gapless table' := by
  refine ⟨fun streamId => ?_, fun row hmem => ?_⟩
  · rw [stream_concat hrows]
    by_cases hstream : (rowOf event).streamId = streamId
    · rw [if_pos hstream, List.map_append, h.sequences, List.map_singleton, List.length_append,
        List.length_singleton, List.range'_1_concat]
      have hrow : (rowOf event).sequence = 1 + (table.stream streamId).length := by
        rw [← hstream, Nat.add_comm]
        exact hnext
      rw [hrow]
    · rw [if_neg hstream, List.append_nil]
      exact h.sequences streamId
  · rw [hrows] at hmem
    rcases List.mem_append.1 hmem with hold | hnew
    · exact h.stored row hold
    · exact ⟨event, List.mem_singleton.1 hnew⟩

end Table

/-! ## Transactions -/

section Transactions

variable {validate : RuntimeEvent → Option CodecError} {table table' : EventTable} {append : Append}
  {event : RuntimeEvent}

theorem schemaVersion_of_accepted
    (h : encodeRefusal validate event = none) : 1 ≤ event.schemaVersion := by
  unfold encodeRefusal checkSchemaVersion at h
  by_cases hversion : event.schemaVersion < 1
  · rw [if_pos hversion] at h
    cases h
  · exact Nat.not_lt.1 hversion

/-- **What a transaction can do.**  It commits the event as the next one of its stream, or it changes
nothing. -/
theorem performAppend_cases (validate : RuntimeEvent → Option CodecError) (append : Append)
    (h : Gapless table) :
    (performAppend validate table append).1 = .ok (.appended append.event.sequence.1)
        ∧ encodeRefusal validate append.event = none
        ∧ (performAppend validate table append).2.rows = table.rows ++ [rowOf append.event]
        ∧ append.event.sequence.1
          = nextSequence (table.stream append.event.streamId.1).length
      ∨ (∀ sequence, (performAppend validate table append).1 ≠ .ok (.appended sequence))
        ∧ (performAppend validate table append).2 = table := by
  unfold performAppend
  by_cases hfault : append.faulted = true
  · rw [if_pos hfault]
    exact .inr ⟨fun _ hne => (nomatch hne), rfl⟩
  · rw [if_neg hfault]
    cases hencoded : encodeRefusal validate append.event with
    | some error => exact .inr ⟨fun _ hne => (nomatch hne), rfl⟩
    | none =>
      rcases resolveAppend_cases h append.artifacts (schemaVersion_of_accepted hencoded) with
        ⟨table', hresolved, hrows, hnext⟩ | ⟨resolution, hresolved, hnot⟩
      · rw [hresolved]
        exact .inl ⟨rfl, rfl, hrows, hnext⟩
      · rw [hresolved]
        refine .inr ⟨fun sequence hreceipt => ?_, rfl⟩
        cases resolution with
        | appended found =>
          cases hreceipt
          exact hnot sequence rfl
        | duplicate found | rejected error | malformedRow path => cases hreceipt

theorem gapless_performAppend (h : Gapless table) :
    Gapless (performAppend validate table append).2 := by
  rcases performAppend_cases validate append h with
    ⟨_, _, hrows, hnext⟩ | ⟨_, hsame⟩
  · exact gapless_concat h hrows hnext
  · rw [hsame]
    exact h

/-- Rows are only ever added. -/
theorem rows_isPrefix_performAppend (validate : RuntimeEvent → Option CodecError) (append : Append)
    (h : Gapless table) :
    table.rows <+: (performAppend validate table append).2.rows := by
  rcases performAppend_cases validate append h with
    ⟨_, _, hrows, _⟩ | ⟨_, hsame⟩
  · rw [hrows]
    exact List.prefix_append _ _
  · rw [hsame]

/-- **A retry finds its event**, whatever else is in the table. -/
theorem performAppend_again (artifacts : Artifacts)
    (hencoded : encodeRefusal validate event = none) (hmem : rowOf event ∈ table.rows) :
    performAppend validate table ⟨event, artifacts, false⟩
      = (.ok (.duplicate event.sequence.1), table) := by
  have hfound : table.byIdempotencyKey event.streamId.1 event.idempotencyKey.1
      = some (rowOf event) := byIdempotencyKey_some.2 ⟨hmem, rfl, rfl⟩
  have hsame : differs (rowOf event) event = false := by
    simp [differs, rowOf]
  unfold performAppend
  rw [if_neg Bool.false_ne_true, hencoded]
  unfold resolveAppend
  rw [hfound]
  dsimp only
  unfold resolveRecorded
  rw [hsame, show (rowOf event).eventId = event.eventId.1 from rfl, parseIdentifier_val,
    show (rowOf event).sequence = event.sequence.1 from rfl, parseSequence_val]
  rfl

/-- The table after a list of transactions. -/
def committed (validate : RuntimeEvent → Option CodecError) (table : EventTable)
    (appends : List Append) : EventTable :=
  appends.foldl (fun table append => (performAppend validate table append).2) table

theorem gapless_committed (h : Gapless table) (appends : List Append) :
    Gapless (committed validate table appends) := by
  induction appends generalizing table with
  | nil => exact h
  | cons append appends ih => exact ih (gapless_performAppend h)

theorem rows_isPrefix_committed (h : Gapless table) (appends : List Append) :
    table.rows <+: (committed validate table appends).rows := by
  induction appends generalizing table with
  | nil => exact List.prefix_refl _
  | cons append appends ih =>
    exact (rows_isPrefix_performAppend validate append h).trans (ih (gapless_performAppend h))

theorem committed_append (appends later : List Append) :
    committed validate table (appends ++ later)
      = committed validate (committed validate table appends) later :=
  List.foldl_append

end Transactions

/-! ## Pages -/

section Pages

variable {table : EventTable} {streamId : String}

/-- **A page** is what comes next in the stream. -/
theorem selectFromCursor_eq (h : Gapless table) (afterSequence limit : ℕ) :
    table.selectFromCursor streamId afterSequence limit
      = ((table.stream streamId).drop afterSequence).take limit := by
  have hfilter : (table.stream streamId).filter (fun row => afterSequence < row.sequence)
      = (table.stream streamId).drop afterSequence := by
    rw [EventStream.filter_lt_eq_drop EventRow.sequence _ _ 1 (h.sequences streamId),
      Nat.add_sub_cancel]
  have hsorted : ((table.stream streamId).drop afterSequence).Pairwise
      fun a b => a.sequence ≤ b.sequence := by
    refine List.Pairwise.sublist (List.drop_sublist _ _) ?_
    have hrange : ((table.stream streamId).map EventRow.sequence).Pairwise (· ≤ ·) := by
      rw [h.sequences]
      have hlt : (List.range' 1 (table.stream streamId).length).Pairwise (· < ·) :=
        List.pairwise_lt_range'
      exact hlt.imp le_of_lt
    exact List.pairwise_map.1 hrange
  rw [EventTable.selectFromCursor, hfilter, hsorted.insertionSort_eq]

/-- A stream, or a first part of it, ends with the sequence that is its length. -/
theorem getLast?_take (h : Gapless table) {n : ℕ} (hn : n ≤ (table.stream streamId).length) :
    (((table.stream streamId).take n).getLast?.map EventRow.sequence).getD 0 = n := by
  rw [← List.getLast?_map, List.map_take, h.sequences, List.getLast?_take]
  cases n with
  | zero => rfl
  | succ n =>
    rw [if_neg (Nat.succ_ne_zero n), Nat.add_sub_cancel, List.getElem?_range' (by omega)]
    simp [Nat.add_comm]

end Pages

/-! ## Readers -/

/-- What happens while a reader reads: somebody's transaction, or one of its own pages. -/
inductive Move where
  | append (append : Append)
  | read (limit : ℕ)

/-- A reader of one stream: the table, and the rows it got so far. -/
structure Reading where
  table : EventTable
  seen : List EventRow

namespace Reading

/-- The last sequence seen; a reader that saw none starts from the null cursor. -/
def afterSequence (reading : Reading) : ℕ :=
  (reading.seen.getLast?.map EventRow.sequence).getD 0

/-- One move. -/
def step (validate : RuntimeEvent → Option CodecError) (streamId : String) (reading : Reading) :
    Move → Reading
  | .append append => { reading with table := (performAppend validate reading.table append).2 }
  | .read limit =>
    { reading with
      seen := reading.seen
        ++ reading.table.selectFromCursor streamId reading.afterSequence limit }

/-- How many rows the pages of some moves had room for. -/
def asked : List Move → ℕ
  | [] => 0
  | .append _ :: moves => asked moves
  | .read limit :: moves => limit + asked moves

variable {validate : RuntimeEvent → Option CodecError} {streamId : String} {reading : Reading}

theorem stream_isPrefix {table table' : EventTable} (h : table.rows <+: table'.rows) :
    table.stream streamId <+: table'.stream streamId :=
  List.IsPrefix.filter _ h

/-- What was seen is the first part of the stream. -/
structure InOrder (streamId : String) (reading : Reading) : Prop where
  gapless : Gapless reading.table
  seen : reading.seen <+: reading.table.stream streamId

/-- A page goes on where the last one ended. -/
theorem seen_page (h : reading.InOrder streamId) (limit : ℕ) :
    reading.seen ++ reading.table.selectFromCursor streamId reading.afterSequence limit
      = (reading.table.stream streamId).take (reading.seen.length + limit) := by
  have hseen : reading.seen = (reading.table.stream streamId).take reading.seen.length :=
    List.prefix_iff_eq_take.1 h.seen
  have hcursor : reading.afterSequence = reading.seen.length := by
    rw [afterSequence, hseen, getLast?_take h.gapless h.seen.length_le, ← hseen]
  rw [hcursor, selectFromCursor_eq h.gapless, List.take_add, ← hseen]

theorem inOrder_step (validate : RuntimeEvent → Option CodecError) (h : reading.InOrder streamId)
    (move : Move) :
    (reading.step validate streamId move).InOrder streamId := by
  cases move with
  | append append =>
    exact ⟨gapless_performAppend h.gapless,
      h.seen.trans (stream_isPrefix (rows_isPrefix_performAppend validate append h.gapless))⟩
  | read limit =>
    refine ⟨h.gapless, ?_⟩
    show reading.seen ++ _ <+: _
    rw [seen_page h]
    exact List.take_prefix _ _

/-- A run of moves adds to the stream and sees as much of it as its pages had room for. -/
theorem run_sees (validate : RuntimeEvent → Option CodecError) (h : reading.InOrder streamId)
    (moves : List Move) :
    (moves.foldl (step validate streamId) reading).InOrder streamId
      ∧ reading.table.stream streamId
        <+: (moves.foldl (step validate streamId) reading).table.stream streamId
      ∧ min (reading.seen.length + asked moves) (reading.table.stream streamId).length
        ≤ (moves.foldl (step validate streamId) reading).seen.length := by
  induction moves generalizing reading with
  | nil => exact ⟨h, List.prefix_refl _, min_le_left _ _⟩
  | cons move moves ih =>
    obtain ⟨horder, hgrows, hseen⟩ := ih (inOrder_step validate h move)
    rw [List.foldl_cons]
    cases move with
    | append append =>
      have hstep : reading.table.stream streamId
          <+: (performAppend validate reading.table append).2.stream streamId :=
        stream_isPrefix (rows_isPrefix_performAppend validate append h.gapless)
      refine ⟨horder, hstep.trans hgrows, le_trans ?_ hseen⟩
      exact min_le_min le_rfl hstep.length_le
    | read limit =>
      refine ⟨horder, hgrows, le_trans ?_ hseen⟩
      show min (reading.seen.length + (limit + asked moves)) _
        ≤ min ((reading.seen ++ _).length + asked moves) _
      rw [seen_page h, List.length_take]
      show _ ≤ min _ (reading.table.stream streamId).length
      omega

end Reading

end Falryn.Sessions.Journal
