import Falryn.Runtime.EventJournal

/-!
# The cursor of the journal

The cached sequence is the one after the head of the stream as long as no `compareAndPersist` repeats
a stored fact under a head that is not the stream's: the receipt of a duplicate moves the cursor to
the expected head, whatever the stream holds.
-/

namespace Falryn.Runtime.TurnEventJournal

open Sessions StateMachine

variable {j : TurnEventJournal} {call : Call}

/-! ## Finding the end of the stream -/

theorem following_eq (last : Option ℕ) : following last = nextSequence (last.getD 0) := by
  cases last <;> rfl

variable {s : EventStream} {limit : ℕ}

/-- A page that is not full is the last one. -/
theorem readFrom_short {last : Option ℕ}
    (hlast : last.getD 0 ≤ s.head) (hshort : (s.readFrom last limit).length < limit) :
    last.getD 0 + (s.readFrom last limit).length = s.head := by
  rw [EventStream.readFrom_eq, List.length_take, List.length_drop] at hshort ⊢
  rw [EventStream.head] at hlast ⊢
  omega

variable {stream : EventStream} {next : ℕ} {event : StreamEvent}
  {result : TurnEventJournal × PersistTurnEventsOutcome}

theorem discoverPages_found {page : ℕ → StepAnswer} (k : ℕ)
    (last : Option ℕ) (hlast : last.getD 0 ≤ stream.head)
    (h : discoverPages stream page k last = .found next) : next = nextSequence stream.head := by
  fun_induction discoverPages stream page k last with
  | case1 => cases h
  | case2 => cases h
  | case3 k last haborted hcode hnone =>
    cases h
    have hempty : (stream.readFrom last maxStreamReadLimit).length = 0 := by
      rw [List.getLast?_eq_none_iff.1 hnone, List.length_nil]
    have hend := readFrom_short hlast (by rw [hempty]; exact Nat.succ_pos _)
    rw [following_eq, ← hend, hempty, Nat.add_zero]
  | case4 k last haborted hcode tail htail hshort =>
    cases h
    rw [following_eq, Option.getD_some, EventStream.readFrom_getLast htail,
      readFrom_short hlast hshort]
  | case5 k last haborted hcode tail htail _ ih =>
    have hmem := List.mem_of_getLast? htail
    exact ih (EventStream.sequence_bounds
      (List.mem_of_mem_filter (List.mem_of_mem_take hmem))).2 h

/-! ## The invariant -/

/-- The cached sequence, if there is one, is the next one of the stream. -/
def Kept (j : TurnEventJournal) : Prop :=
  ∀ next, j.next = some next → next = nextSequence j.stream.head

/-- Every listener was handed what was appended since it subscribed: each event once, in order, and
nothing else. -/
def Synced (j : TurnEventJournal) : Prop :=
  ∀ subscriber ∈ j.subscribers, subscriber.since ≤ j.stream.head ∧
    subscriber.received = j.stream.events.drop subscriber.since

theorem discoverNextSequence_found (hkept : Kept j)
    (h : j.discoverNextSequence call = .found next) : next = nextSequence j.stream.head := by
  rw [discoverNextSequence] at h
  split at h
  · cases h
  · split at h
    next hcached =>
      cases h
      exact hkept _ hcached
    · split at h
      · split at h
        · cases h
        · cases h
          rw [following_eq]
          split
          next hempty => rw [hempty, Option.getD_none]
          · rw [Option.getD_some]
      · exact discoverPages_found 0 none (Nat.zero_le _) h

theorem Synced.notify (hsynced : Synced j)
    (hstream : stream.events = j.stream.events ++ [event]) (next : Option ℕ) :
    Synced { j with stream, next, subscribers := notify event j.subscribers } := by
  intro subscriber hmem
  obtain ⟨before, hbefore, rfl⟩ := List.mem_map.1 hmem
  obtain ⟨hsince, hreceived⟩ := hsynced before hbefore
  constructor
  · show before.since ≤ stream.events.length
    rw [hstream, List.length_append]
    exact hsince.trans (Nat.le_add_right _ _)
  · show before.received ++ [event] = stream.events.drop before.since
    rw [hstream, List.drop_append_of_le_length hsince, hreceived]

theorem head_append
    (hstream : stream.events = s.events ++ [event]) : stream.head = nextSequence s.head := by
  rw [EventStream.head, hstream, List.length_append, List.length_singleton]
  rfl

/-! ## Writing from the end of the stream -/

/-- What writing facts from the end of the stream leads to. -/
structure Written (j : TurnEventJournal) (result : TurnEventJournal × PersistTurnEventsOutcome) :
    Prop where
  kept : Kept result.1
  synced : Synced result.1
  grows : j.stream.events <+: result.1.stream.events
  notRefused : ∀ error events receipts, result.2 = .storeError error events receipts →
    ¬ error.IsAboutSequence

theorem Written.of_grows {j' : TurnEventJournal}
    (hgrows : j.stream.events <+: j'.stream.events) (h : Written j' result) : Written j result :=
  ⟨h.kept, h.synced, hgrows.trans h.grows, h.notRefused⟩

theorem Written.of_next {next : Option ℕ} (h : Written { j with next } result) : Written j result :=
  ⟨h.kept, h.synced, h.grows, h.notRefused⟩

theorem written_unchanged (hkept : Kept j) (hsynced : Synced j) {outcome : PersistTurnEventsOutcome}
    (h : ∀ error events receipts, outcome = .storeError error events receipts →
      ¬ error.IsAboutSequence) : Written j (j, outcome) :=
  ⟨hkept, hsynced, List.prefix_rfl, h⟩

theorem written_appendFacts (call : Call) (facts : List RecordedFact) (j : TurnEventJournal)
    (sequence i : ℕ) (events : List StreamEvent) (receipts : List AppendReceipt)
    (hseq : sequence = nextSequence j.stream.head) (hkept : Kept j) (hsynced : Synced j) :
    Written j (appendFacts call j sequence i facts events receipts) := by
  induction facts generalizing j sequence i events receipts with
  | nil => exact written_unchanged hkept hsynced fun _ _ _ h => (by cases h)
  | cons _ facts ih =>
    rw [appendFacts]
    split
    · exact written_unchanged hkept hsynced fun _ _ _ h => (by cases h)
    · split
      · exact written_unchanged hkept hsynced fun _ _ _ h => (by cases h)
      · dsimp only
        split
        next happend =>
          refine written_unchanged hkept hsynced fun _ _ _ h habout => ?_
          cases h
          exact EventStream.sequence_ne_of_append_error happend habout hseq
        next stored stream happend =>
          -- the event is the new head, and the cursor moves past it
          rcases (EventStream.append_ok happend).2 with ⟨_, _, _, hreceipt, _⟩ |
            ⟨-, -, -, hstream⟩
          · cases hreceipt
          · have hnext : nextSequence sequence = nextSequence stream.head := by
              rw [head_append hstream, hseq]
            refine .of_grows ⟨_, hstream.symm⟩ (ih _ _ _ _ _ hnext (fun next h => ?_)
              (hsynced.notify hstream _))
            rw [← Option.some.inj h]
            exact hnext
        next stored stream happend =>
          -- the duplicate is not beyond the head, and the cursor stays
          rcases (EventStream.append_ok happend).2 with ⟨recorded, hrecorded, -, hreceipt, rfl⟩ |
            ⟨-, -, hreceipt, -⟩
          · cases hreceipt
            have hle := (EventStream.sequence_bounds (EventStream.mem_of_recorded hrecorded).1).2
            have hlt : recorded.sequence < sequence := by
              rw [hseq]
              exact Nat.lt_succ_of_le hle
            rw [if_pos hlt]
            have hkept' : Kept { j with next := some sequence } := by
              intro next h
              rw [← Option.some.inj h]
              exact hseq
            exact .of_next (ih _ _ _ _ _ hseq hkept' hsynced)
          · cases hreceipt

theorem discoverNextSequence_error {error : EventStoreError}
    (h : j.discoverNextSequence call = .error error) : ¬ error.IsAboutSequence := by
  have hpages : ∀ (k : ℕ) (last : Option ℕ),
      discoverPages j.stream call.page k last = .error error → ¬ error.IsAboutSequence := by
    intro k last hpages
    fun_induction discoverPages j.stream call.page k last with
    | case1 => cases hpages
    | case2 =>
      cases hpages
      exact id
    | case3 => cases hpages
    | case4 => cases hpages
    | case5 k last _ _ _ _ _ ih => exact ih hpages
  rw [discoverNextSequence] at h
  split at h
  · cases h
  · split at h
    · cases h
    · split at h
      · split at h
        · cases h
          exact id
        · cases h
      · exact hpages 0 none h

/-- **A `persist` finds its sequence in order**, whatever it is given. -/
theorem written_persist (hkept : Kept j) (hsynced : Synced j) (facts : List RecordedFact)
    (call : Call) : Written j (j.persist facts call) := by
  rw [persist, persistFacts]
  split
  · exact written_unchanged hkept hsynced fun _ _ _ h => (by cases h)
  · split
    · exact written_unchanged hkept hsynced fun _ _ _ h => (by cases h)
    next herror =>
      refine written_unchanged hkept hsynced fun _ _ _ h => ?_
      cases h
      exact discoverNextSequence_error herror
    next next hfound =>
      have hnext := discoverNextSequence_found hkept hfound
      have hkept' : Kept { j with next := some next } := by
        intro next' h
        rw [← Option.some.inj h]
        exact hnext
      exact .of_next (written_appendFacts call facts _ _ _ _ _ hnext hkept' hsynced)

/-! ## Writing under an expected head -/

/-- The call gets as far as the store, which does not refuse. -/
def Admitted (fact : RecordedFact) (current : Bool) (call : Call) : Prop :=
  current = true ∧ (call.fact 0).aborted = false ∧ isIdentifier fact.identity = true ∧
    (call.fact 0).refusal = none

instance (fact : RecordedFact) (current : Bool) (call : Call) :
    Decidable (Admitted fact current call) :=
  inferInstanceAs (Decidable (_ ∧ _))

/-- **What `compareAndPersist` can do.**  It appends a new fact under the next sequence; it moves the
cursor to the sequence it was given, or past the event that holds the fact; or it does nothing. -/
theorem compareAndPersist_cases (fact : RecordedFact) (expectedHead : ℕ) (current : Bool)
    (call : Call) :
    (Admitted fact current call ∧ j.stream.recorded fact.identity = none ∧
      expectedHead = j.stream.head ∧ ∃ event stream, event.fact = fact ∧
        stream.events = j.stream.events ++ [event] ∧
        (j.compareAndPersist fact expectedHead current call).1 =
          { j with
            stream
            next := some (nextSequence (nextSequence expectedHead))
            subscribers := notify event j.subscribers }) ∨
    (Admitted fact current call ∧ ∃ recorded, j.stream.recorded fact.identity = some recorded ∧
      EventStream.conflicts recorded.fact fact = false ∧
        (j.compareAndPersist fact expectedHead current call).1 =
          { j with next := some (nextSequence (max expectedHead recorded.sequence)) }) ∨
    (¬ (Admitted fact current call ∧ j.stream.recorded fact.identity = none ∧
        expectedHead = j.stream.head) ∧
      (∀ recorded, Admitted fact current call → j.stream.recorded fact.identity = some recorded →
        EventStream.conflicts recorded.fact fact = true) ∧
      (j.compareAndPersist fact expectedHead current call).1 = j) := by
  rw [compareAndPersist]
  split
  next hcurrent =>
    have hnot : ¬ Admitted fact current call := by
      rintro ⟨htrue, -⟩
      rw [hcurrent] at htrue
      cases htrue
    exact .inr (.inr ⟨fun h => hnot h.1, fun _ h => absurd h hnot, rfl⟩)
  next hcurrent =>
    rw [persistFacts, if_neg (List.cons_ne_nil _ _), appendFacts]
    split
    next haborted =>
      have hnot : ¬ Admitted fact current call := by
        rintro ⟨-, hfalse, -⟩
        rw [haborted] at hfalse
        cases hfalse
      exact .inr (.inr ⟨fun h => hnot h.1, fun _ h => absurd h hnot, rfl⟩)
    next haborted =>
      split
      next hidentifier =>
        have hnot : ¬ Admitted fact current call := by
          rintro ⟨-, -, htrue, -⟩
          rw [hidentifier] at htrue
          cases htrue
        exact .inr (.inr ⟨fun h => hnot h.1, fun _ h => absurd h hnot, rfl⟩)
      next hidentifier =>
        have hadmitted : (call.fact 0).refusal = none → Admitted fact current call :=
          fun h => ⟨by simpa using hcurrent, by simpa using haborted, by simpa using hidentifier, h⟩
        dsimp only
        split
        next happend =>
          refine .inr (.inr ⟨fun ⟨hadm, hnew, hhead⟩ => ?_, fun recorded hadm hrecorded => ?_, rfl⟩)
          · rcases EventStream.append_error happend with ⟨code, hcode, -⟩ | ⟨_, hrecorded, -⟩ |
              ⟨-, hseq, -⟩
            · rw [hadm.2.2.2] at hcode
              cases hcode
            · rw [hnew] at hrecorded
              cases hrecorded
            · exact hseq (by rw [hhead])
          · rcases EventStream.append_error happend with ⟨code, hcode, -⟩ | ⟨other, hother, hc, -⟩ |
              ⟨hnew, -⟩
            · rw [hadm.2.2.2] at hcode
              cases hcode
            · rw [hrecorded] at hother
              cases hother
              exact hc
            · rw [hrecorded] at hnew
              cases hnew
        next stored stream happend =>
          obtain ⟨hrefusal, hcases⟩ := EventStream.append_ok happend
          rcases hcases with ⟨_, _, _, hreceipt, _⟩ | ⟨hnew, hseq, -, hstream⟩
          · cases hreceipt
          · exact .inl ⟨hadmitted hrefusal, hnew, Nat.succ.inj hseq, _, stream, rfl, hstream, rfl⟩
        next stored stream happend =>
          obtain ⟨hrefusal, hcases⟩ := EventStream.append_ok happend
          rcases hcases with ⟨recorded, hrecorded, hconflict, hreceipt, rfl⟩ | ⟨-, -, hreceipt, -⟩
          · cases hreceipt
            refine .inr (.inl ⟨hadmitted hrefusal, recorded, hrecorded, hconflict, ?_⟩)
            show { j with next := some _ } = _
            congr 2
            rw [nextSequence, nextSequence, nextSequence]
            split <;> omega
          · cases hreceipt

/-! ## Every operation -/

/-- A `compareAndPersist` that repeats a stored fact does so under the head of the stream, or under an
earlier one when the fact is the head. -/
def Agrees (j : TurnEventJournal) : Operation → Prop
  | .compareAndPersist fact expectedHead current call =>
    ∀ recorded, Admitted fact current call → j.stream.recorded fact.identity = some recorded →
      EventStream.conflicts recorded.fact fact = false →
      max expectedHead recorded.sequence = j.stream.head
  | _ => True

theorem kept_of_next_eq (hnext : j.next = some next) : Kept j ↔ next = nextSequence j.stream.head :=
  ⟨fun h => h next hnext, fun h _ hnext' => by
    rw [hnext] at hnext'
    cases hnext'
    exact h⟩

/-- **The cursor is kept exactly by the operations that agree with the stream.** -/
theorem kept_apply_iff (hkept : Kept j) (hsynced : Synced j) (operation : Operation) :
    Kept (j.apply operation) ↔ Agrees j operation := by
  rcases operation with ⟨facts, call⟩ | ⟨fact, expectedHead, current, call⟩ | id | id
  · exact ⟨fun _ => trivial, fun _ => (written_persist hkept hsynced facts call).kept⟩
  · rw [apply, Agrees]
    rcases compareAndPersist_cases (j := j) fact expectedHead current call with
      ⟨hadm, hnew, hhead, event, stream, -, hstream, heq⟩ |
      ⟨hadm, recorded, hrecorded, hconflict, heq⟩ | ⟨-, hconflict, heq⟩
    · rw [heq, kept_of_next_eq rfl]
      refine ⟨fun _ recorded _ hrecorded => ?_, fun _ => ?_⟩
      · rw [hnew] at hrecorded
        cases hrecorded
      · rw [head_append hstream, hhead]
    · rw [heq, kept_of_next_eq rfl]
      constructor
      · intro h other _ hother _
        rw [hrecorded] at hother
        cases hother
        exact Nat.succ.inj h
      · intro h
        rw [h recorded hadm hrecorded hconflict]
    · rw [heq]
      refine ⟨fun _ recorded hadm hrecorded hfalse => ?_, fun _ => hkept⟩
      rw [hconflict recorded hadm hrecorded] at hfalse
      cases hfalse
  · refine ⟨fun _ => trivial, fun _ => ?_⟩
    rw [apply, subscribe]
    split
    · exact hkept
    · exact hkept
  · exact ⟨fun _ => trivial, fun _ => hkept⟩

theorem synced_apply (hkept : Kept j) (hsynced : Synced j) (operation : Operation) :
    Synced (j.apply operation) := by
  rcases operation with ⟨facts, call⟩ | ⟨fact, expectedHead, current, call⟩ | id | id
  · exact (written_persist hkept hsynced facts call).synced
  · rw [apply]
    rcases compareAndPersist_cases (j := j) fact expectedHead current call with
      ⟨-, -, -, event, stream, -, hstream, heq⟩ | ⟨-, recorded, -, -, heq⟩ | ⟨-, -, heq⟩
    · rw [heq]
      exact hsynced.notify hstream _
    · rw [heq]
      exact hsynced
    · rw [heq]
      exact hsynced
  · rw [apply, subscribe]
    split
    · exact hsynced
    · intro subscriber hmem
      rcases List.mem_append.1 hmem with hmem | hmem
      · exact hsynced subscriber hmem
      · rw [List.mem_singleton.1 hmem]
        exact ⟨le_rfl, (List.drop_length).symm⟩
  · intro subscriber hmem
    exact hsynced subscriber (List.mem_of_mem_filter hmem)

/-- No operation takes an event out of the stream, whatever the cursor is. -/
theorem appendFacts_grows (call : Call) (facts : List RecordedFact) (j : TurnEventJournal)
    (sequence i : ℕ) (events : List StreamEvent) (receipts : List AppendReceipt) :
    j.stream.events <+: (appendFacts call j sequence i facts events receipts).1.stream.events := by
  induction facts generalizing j sequence i events receipts with
  | nil => exact List.prefix_rfl
  | cons _ facts ih =>
    rw [appendFacts]
    split
    · exact List.prefix_rfl
    · split
      · exact List.prefix_rfl
      · dsimp only
        split
        · exact List.prefix_rfl
        next stored stream happend =>
          refine List.IsPrefix.trans ?_ (ih _ _ _ _ _)
          rcases (EventStream.append_ok happend).2 with ⟨_, -, -, -, rfl⟩ | ⟨-, -, -, hstream⟩
          · exact List.prefix_rfl
          · exact ⟨_, hstream.symm⟩
        next stored stream happend =>
          refine List.IsPrefix.trans ?_ (ih _ _ _ _ _)
          rcases (EventStream.append_ok happend).2 with ⟨_, -, -, -, rfl⟩ | ⟨-, -, -, hstream⟩
          · exact List.prefix_rfl
          · exact ⟨_, hstream.symm⟩

theorem persistFacts_grows (facts : List RecordedFact) (call : Call) (expected : Option ℕ) :
    j.stream.events <+: (j.persistFacts facts call expected).1.stream.events := by
  unfold persistFacts
  split
  · exact List.prefix_rfl
  · split
    · exact appendFacts_grows ..
    · split
      · exact List.prefix_rfl
      · exact List.prefix_rfl
      next next _ => exact appendFacts_grows call facts { j with next := some next } ..

theorem apply_grows (operation : Operation) :
    j.stream.events <+: (j.apply operation).stream.events := by
  rcases operation with ⟨facts, call⟩ | ⟨fact, expectedHead, current, call⟩ | id | id
  · exact persistFacts_grows facts call none
  · rw [apply, compareAndPersist]
    split
    · exact List.prefix_rfl
    · exact persistFacts_grows ..
  · rw [apply, subscribe]
    split
    · exact List.prefix_rfl
    · exact List.prefix_rfl
  · exact List.prefix_rfl

theorem applyAll_grows (operations : List Operation) :
    j.stream.events <+: (j.applyAll operations).stream.events := by
  induction operations generalizing j with
  | nil => exact List.prefix_rfl
  | cons operation operations ih => exact (apply_grows operation).trans ih

/-! ## Replaying -/

/-- What the `k`-th read of a replay sees, if `between k` happens right before it. -/
def seenAt (j : TurnEventJournal) (between : ℕ → List Operation) : ℕ → TurnEventJournal
  | 0 => j.applyAll (between 0)
  | k + 1 => (j.seenAt between k).applyAll (between (k + 1))

variable {events : List StreamEvent} {afterSequence : Option ℕ} {lastRead : ℕ}

theorem append_readFrom
    (hevents : events <+: s.events) (hafter : afterSequence.getD 0 = events.length) (limit : ℕ) :
    events ++ s.readFrom afterSequence limit = s.events.take (events.length + limit) := by
  rw [EventStream.readFrom_eq, hafter, List.take_add, ← List.prefix_iff_eq_take.1 hevents]

/-- A page that is not full brings the rest of the stream. -/
theorem append_readFrom_short (hevents : events <+: s.events)
    (hafter : afterSequence.getD 0 = events.length)
    (hshort : (s.readFrom afterSequence limit).length < limit) :
    events ++ s.readFrom afterSequence limit = s.events := by
  have hall := readFrom_short (by rw [hafter]; exact hevents.length_le) hshort
  rw [append_readFrom hevents hafter]
  refine List.take_of_length_le ?_
  rw [hafter] at hall
  have : s.events.length = s.head := rfl
  omega

/-- A replay that read something is not cut short only if it read the stream to its end. -/
theorem readPages_whole (between : ℕ → List Operation) (maxEvents : ℕ) (answer : ℕ → StepAnswer)
    (k : ℕ) (events : List StreamEvent) (afterSequence : Option ℕ)
    (hevents : events <+: (j.seenAt between k).stream.events)
    (hafter : afterSequence.getD 0 = events.length) {all : List StreamEvent}
    (h : readPages maxEvents answer (fun k => (j.seenAt between k).stream) k events afterSequence =
      .ok all false lastRead) : all = (j.seenAt between lastRead).stream.events := by
  have hgrows : ∀ k, (j.seenAt between k).stream.events <+:
      (j.seenAt between (k + 1)).stream.events := fun k => applyAll_grows (between (k + 1))
  fun_induction readPages maxEvents answer (fun k => (j.seenAt between k).stream) k events
    afterSequence with
  | case1 => cases h
  | case2 => cases h
  | case3 => cases h
  | case4 k events afterSequence haborted hfull hcode hnone =>
    cases h
    have hempty := List.getLast?_eq_none_iff.1 hnone
    have hlimit : 0 < min maxStreamReadLimit (maxEvents - all.length) :=
      Nat.lt_min.2 ⟨Nat.succ_pos _, by omega⟩
    have hall := append_readFrom_short hevents hafter
      (by rw [hempty, List.length_nil]; exact hlimit)
    rw [hempty, List.append_nil] at hall
    exact hall
  | case5 k events afterSequence haborted hfull hcode tail htail page hshort =>
    cases h
    exact append_readFrom_short hevents hafter hshort
  | case6 => cases h
  | case7 k events afterSequence haborted hfull hcode tail htail page hpage _ hpeek _ =>
    -- the peek finds nothing after what was read
    rw [ReadAll.ok.injEq] at h
    obtain ⟨rfl, hpeek, rfl⟩ := h
    have hnone : (j.seenAt between (k + 1)).stream.readFrom (some tail.sequence) 1 = [] :=
      List.eq_nil_of_length_eq_zero (by simpa using hpeek)
    have hprefix : events ++ page <+: (j.seenAt between (k + 1)).stream.events := by
      refine List.IsPrefix.trans ?_ (hgrows k)
      rw [append_readFrom hevents hafter]
      exact List.take_prefix _ _
    have hlast : (some tail.sequence).getD 0 = (events ++ page).length := by
      rw [Option.getD_some, EventStream.readFrom_getLast htail, hafter, List.length_append]
    have hall := append_readFrom_short hprefix hlast
      (by rw [hnone, List.length_nil]; exact Nat.one_pos)
    rw [hnone, List.append_nil] at hall
    exact hall
  | case8 k events afterSequence haborted hfull hcode tail htail page hpage _ ih =>
    refine ih ?_ ?_ h
    · refine List.IsPrefix.trans ?_ (hgrows k)
      rw [append_readFrom hevents hafter]
      exact List.take_prefix _ _
    · rw [Option.getD_some, EventStream.readFrom_getLast htail, hafter, List.length_append]

/-- **A replay says `rebuilt` only of the whole stream**, as it stood at the last read. -/
theorem replay_rebuilt {between : ℕ → List Operation} {maxEvents : ℕ} {answer : ℕ → StepAnswer}
    (h : replay maxEvents answer (fun k => (j.seenAt between k).stream) = .rebuilt events lastRead) :
    events = (j.seenAt between lastRead).stream.events := by
  rw [replay] at h
  split at h
  · cases h
  · cases h
  next hread =>
    split at h
    · cases h
    · cases h
    · split at h
      · cases h
      next htruncated =>
        cases h
        rw [Bool.eq_false_of_not_eq_true htruncated] at hread
        exact readPages_whole between maxEvents answer 0 [] none (List.nil_prefix) rfl hread

/-- A new fact is appended under the head of the stream, and under no other. -/
theorem compareAndPersist_appends_iff {fact : RecordedFact}
    (hnew : j.stream.recorded fact.identity = none) (expectedHead : ℕ) (current : Bool)
    (call : Call) :
    (∃ event, event.fact = fact ∧
      (j.compareAndPersist fact expectedHead current call).1.stream.events =
        j.stream.events ++ [event]) ↔
      expectedHead = j.stream.head ∧ Admitted fact current call := by
  have hne : ∀ event, j.stream.events ≠ j.stream.events ++ [event] :=
    fun event h => by simpa using congrArg List.length h
  rcases compareAndPersist_cases (j := j) fact expectedHead current call with
    ⟨hadm, -, hhead, event, stream, hfact, hstream, heq⟩ | ⟨-, recorded, hrecorded, -⟩ |
    ⟨hnot, -, heq⟩
  · rw [heq]
    exact ⟨fun _ => ⟨hhead, hadm⟩, fun _ => ⟨event, hfact, hstream⟩⟩
  · rw [hnew] at hrecorded
    cases hrecorded
  · rw [heq]
    exact ⟨fun ⟨event, _, h⟩ => absurd h (hne event), fun ⟨hhead, hadm⟩ =>
      absurd ⟨hadm, hnew, hhead⟩ hnot⟩

/-! ## The whole journal -/

/-- **The journal keeps its cursor, exactly while every repetition agrees with the stream.**  In every
run in which each `compareAndPersist` that repeats a stored fact agrees with the stream: the cached
sequence is the next one, listeners were handed what was appended and nothing else, no `persist` is
refused for its sequence, a new fact is published under the head of the stream only, and a replay that
says `rebuilt` has read everything.  The next operation keeps the cursor if and only if it agrees. -/
theorem journal_keeps_its_cursor (hasHead : Bool) (stream : EventStream)
    (operations : List Operation) (j : TurnEventJournal)
    (hagree : Along step Agrees (create hasHead stream) operations)
    (hrun : run step (create hasHead stream) operations = some j) :
    Kept j ∧ Synced j ∧
    (∀ facts call error events receipts,
      (j.persist facts call).2 = .storeError error events receipts → ¬ error.IsAboutSequence) ∧
    (∀ fact expectedHead current call, j.stream.recorded fact.identity = none →
      ((∃ event, event.fact = fact ∧
        (j.compareAndPersist fact expectedHead current call).1.stream.events =
          j.stream.events ++ [event]) ↔
        expectedHead = j.stream.head ∧ Admitted fact current call)) ∧
    (∀ maxEvents answer between events lastRead,
      replay maxEvents answer (fun k => (j.seenAt between k).stream) = .rebuilt events lastRead →
        events = (j.seenAt between lastRead).stream.events) ∧
    ∀ operation, Kept (j.apply operation) ↔ Agrees j operation := by
  have hboth : Kept j ∧ Synced j := by
    refine run_along_preserves (I := fun j => Kept j ∧ Synced j) ?_ ⟨?_, ?_⟩ hagree hrun
    · rintro s operation s' ⟨hkept, hsynced⟩ hagrees hstep
      cases hstep
      exact ⟨(kept_apply_iff hkept hsynced operation).2 hagrees,
        synced_apply hkept hsynced operation⟩
    · exact fun _ h => (by cases h)
    · exact fun _ hmem => (by cases hmem)
  obtain ⟨hkept, hsynced⟩ := hboth
  refine ⟨hkept, hsynced, fun facts call => (written_persist hkept hsynced facts call).notRefused,
    fun fact expectedHead current call hnew =>
      compareAndPersist_appends_iff hnew expectedHead current call,
    fun _ _ _ _ _ h => replay_rebuilt h, kept_apply_iff hkept hsynced⟩

/-- A turn starts, and its start is published once more under the head of the stream. -/
def repeatedStart : List Operation :=
  [.persist [⟨"turn:1:started", false, ""⟩] (.quiet 0),
    .compareAndPersist ⟨"turn:1:started", false, ""⟩ 1 true (.quiet 0)]

theorem journal_keeps_its_cursor_repeated_start :
    ∃ j, Along step Agrees (create true .empty) repeatedStart ∧
      run step (create true .empty) repeatedStart = some j ∧ Kept j := by
  have hagree : Along step Agrees (create true .empty) repeatedStart := by
    refine ⟨trivial, fun _ hs => ?_⟩
    cases hs
    refine ⟨fun recorded _ hrecorded _ => ?_, fun _ _ => trivial⟩
    have hfirst : some ⟨⟨"turn:1:started", false, ""⟩, 1, 0⟩ = some recorded := hrecorded
    cases hfirst
    rfl
  obtain ⟨j, hrun⟩ : ∃ j, run step (create true .empty) repeatedStart = some j := ⟨_, rfl⟩
  exact ⟨j, hagree, hrun, (journal_keeps_its_cursor true .empty repeatedStart j hagree hrun).1⟩

/-- The turn has ended, and its start is published once more under the head it was appended at: the
cursor goes back to the end of the turn, and the next fact is refused. -/
theorem repeated_fact_rewinds_the_cursor :
    ∃ j, run step (create true .empty)
        [.persist [⟨"turn:1:started", false, ""⟩, ⟨"turn:1:completed", false, ""⟩] (.quiet 0),
          .compareAndPersist ⟨"turn:1:started", false, ""⟩ 1 true (.quiet 0)] = some j ∧
      j.stream.head = 2 ∧ j.next = some 2 ∧
      (j.persist [⟨"turn:2:started", false, ""⟩] (.quiet 0)).2 =
        .storeError (.sequence (.sequenceOutOfOrder 3 2)) [] [] :=
  ⟨_, rfl, rfl, rfl, rfl⟩

end Falryn.Runtime.TurnEventJournal
