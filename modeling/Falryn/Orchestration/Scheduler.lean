import Falryn.Lib.DepthFirst
import Falryn.Lib.LockTable
import Falryn.Orchestration.BudgetLedger

/-!
# The scheduler

`createScheduler` (`application/orchestration/scheduler.ts`): any number of generations of units run
concurrently and share one table of held conflict keys, one count of running units and one set of
waiting units.

The state of the scheduler is explicit.  All entries ever made stand in one list, in the order of
their `arrival`, and each says which generation it belongs to.  Membership of the source's shared set
`waitingUnits` is the field `waiting`, an entry's abort controller is the field `aborted`, and the
promise of its runner is the field `runner`.  Scopes and diagnostics are only written to by the
scheduler; of a scope, all that matters here is whether it was cancelled.

Two lists are kept for the reader and never read by the code: `log`, which says in which order
runners were called and units completed, and the `work` a generation was submitted with.
-/

namespace Falryn.Orchestration

variable {Value Receipt : Type}

/-! ## Data -/

inductive EntryState where
  | blocked
  | ready
  | running
  | settled
  deriving DecidableEq

/-- What became of the call of a unit's runner. -/
inductive Runner (Value : Type) where
  | idle
  | pending
  | fulfilled (value : Value)
  | rejected
  /-- The runner threw before it returned a promise. -/
  | threw
  deriving DecidableEq

structure Entry (Value Receipt : Type) where
  unit : WorkUnit
  generation : ℕ
  arrival : ℕ
  queuedAt : ℕ
  inputBytes : ℚ
  capacityBlocked : Bool
  keys : List String
  state : EntryState
  readySince : Option ℕ
  passedOver : ℕ
  result : Option (SchedulingResult Value Receipt)
  partialValue : Option Value
  aborted : Bool
  reservation : Option String
  waiting : Bool
  runner : Runner Value
  deriving DecidableEq

/-- Where a call of `runGeneration` stands. -/
inductive GenerationStatus (Value Receipt : Type) where
  /-- At the top of its loop. -/
  | looping
  /-- Inside the admission loop, with the entries still to be tried and those passed over. -/
  | admitting (ordered skipped : List ℕ)
  /-- Waiting, for its own executions and possibly for capacity and for a lock deadline. -/
  | parked (onCapacity : Bool) (lockDeadline : Option ℕ)
  | returned (results : List (SchedulingResult Value Receipt))
  /-- The promise of `schedule` was rejected. -/
  | rejected
  deriving DecidableEq

structure Generation (Value Receipt : Type) where
  work : List WorkUnit
  aborted : Bool
  status : GenerationStatus Value Receipt
  inflight : List ℕ

structure Counters where
  completed : ℕ
  refused : ℕ
  settledNonCompleted : ℕ
  promotions : ℕ

/-- The two things about a unit whose order matters. -/
inductive LogEvent where
  | invoked (arrival : ℕ)
  | completed (arrival : ℕ)
  deriving DecidableEq

/-- `SchedulerOptions`, with the limits filled in. -/
structure SchedulerConfig where
  limits : SchedulerLimits
  budgetId : Option String

structure Scheduler (Value Receipt : Type) where
  held : String → ℕ
  running : ℤ
  entries : List (Entry Value Receipt)
  generations : List (Generation Value Receipt)
  counters : Counters
  ledger : BudgetLedger
  cancelledScopes : List String
  log : List LogEvent

/-- `createScheduler` over a budget ledger that others may have used before. -/
def createScheduler (ledger : BudgetLedger) : Scheduler Value Receipt :=
  { held := fun _ => 0
    running := 0
    entries := []
    generations := []
    counters := ⟨0, 0, 0, 0⟩
    ledger
    cancelledScopes := []
    log := [] }

/-- `NO_EFFECT`. -/
def noEffect : TerminalOutcome := .cancelled .none

def refusedOutcome : TerminalOutcome := .failed .none

/-! ## Entries -/

namespace Entry

variable (e : Entry Value Receipt)

/-- Blocked or ready: submitted, and neither started nor settled. -/
def isQueued : Bool := e.state = .blocked || e.state = .ready

/-- What `refuse` does to an entry. -/
def refuse (error : SchedulingError Receipt) : Entry Value Receipt :=
  { e with
    state := .settled
    result := some (.refused e.unit.id error refusedOutcome (recoveryFor error)) }

/-- What `settle` does to an entry. -/
def settle (outcome : TerminalOutcome) : Entry Value Receipt :=
  { e with state := .settled, result := some (.settled e.unit.id outcome e.partialValue) }

/-- `effectiveRank`: a unit's class improves by one step for every full threshold it was passed
over. -/
def effectiveRank (limits : SchedulerLimits) : ℕ :=
  priorityRank e.unit.priority - e.passedOver / max 1 limits.starvationThreshold

/-- What a generation reports of an entry when it is over. -/
def report : SchedulingResult Value Receipt :=
  e.result.getD (.settled e.unit.id noEffect e.partialValue)

end Entry

namespace Scheduler

variable (s : Scheduler Value Receipt)

/-! ## Reading and writing entries -/

def entryAt (arrival : ℕ) : Option (Entry Value Receipt) :=
  s.entries.find? fun e => e.arrival = arrival

/-- The entries of a generation, in submission order. -/
def entriesOf (g : ℕ) : List (Entry Value Receipt) := s.entries.filter fun e => e.generation = g

/-- `byId.get(id)` in a generation. -/
def byId (g : ℕ) (id : String) : Option (Entry Value Receipt) :=
  s.entries.find? fun e => e.generation = g && e.unit.id = id

def mapEntries (f : Entry Value Receipt → Entry Value Receipt) : Scheduler Value Receipt :=
  { s with entries := s.entries.map f }

def updateEntry (arrival : ℕ) (f : Entry Value Receipt → Entry Value Receipt) :
    Scheduler Value Receipt :=
  s.mapEntries fun e => if e.arrival = arrival then f e else e

def updateGeneration (g : ℕ) (f : Generation Value Receipt → Generation Value Receipt) :
    Scheduler Value Receipt :=
  { s with generations := s.generations.modify g f }

def setStatus (g : ℕ) (status : GenerationStatus Value Receipt) : Scheduler Value Receipt :=
  s.updateGeneration g fun gen => { gen with status }

/-- `entries.every((entry) => entry.state === "settled")`. -/
def allSettled (g : ℕ) : Bool := (s.entriesOf g).all fun e => e.state = .settled

/-! ## Shared capacity -/

def keysAvailable (limits : SchedulerLimits) (keys : List String) : Bool :=
  keys.all fun key => s.held key < limits.maxConcurrentPerKey

/-- `notifyCapacityChanged`: every generation parked on capacity goes round its loop again. -/
def notifyCapacityChanged : Scheduler Value Receipt :=
  { s with
    generations := s.generations.map fun gen =>
      match gen.status with
      | .parked true _ => { gen with status := .looping }
      | _ => gen }

def refuse (arrival : ℕ) (error : SchedulingError Receipt) : Scheduler Value Receipt :=
  { s.updateEntry arrival fun e => e.refuse error with
    counters := { s.counters with refused := s.counters.refused + 1 } }

def settle (arrival : ℕ) (outcome : TerminalOutcome) : Scheduler Value Receipt :=
  { s.updateEntry arrival fun e => e.settle outcome with
    counters := { s.counters with settledNonCompleted := s.counters.settledNonCompleted + 1 } }

/-! ## Submission -/

/-- The first id of a list that stood in it before. -/
def firstDuplicate : List String → List String → Option String
  | _, [] => none
  | seen, id :: ids => if id ∈ seen then some id else firstDuplicate (id :: seen) ids

/-- The first dependency that is no unit of the generation, with the unit that names it. -/
def firstUnknown (units : List WorkUnit) : Option (String × String) :=
  units.findSome? fun unit =>
    (unit.dependencies.find? fun id => id ∉ units.map WorkUnit.id).map fun id => (unit.id, id)

/-- The dependencies of the unit with an id, those outside the generation left out. -/
def dependenciesOf (units : List WorkUnit) (id : String) : List String :=
  match units.find? fun unit => unit.id = id with
  | some unit => unit.dependencies.filter fun dependency => dependency ∈ units.map WorkUnit.id
  | none => []

def findCycle (units : List WorkUnit) : Option (List String) :=
  DepthFirst.findCycle (dependenciesOf units) (units.map WorkUnit.id)

/-- The validation of a whole generation, before anything runs. -/
def validate (units : List WorkUnit) : Option (SchedulingError Receipt) :=
  match firstDuplicate [] (units.map WorkUnit.id) with
  | some id => some (.duplicateUnit id)
  | none =>
    match firstUnknown units with
    | some (id, dependency) => some (.unknownDependency id dependency)
    | none => (findCycle units).map .dependencyCycle

/-- One submitted unit; `inputBytes` is zero when it is left out. -/
structure Submission where
  unit : WorkUnit
  inputBytes : ℚ
  queuedAt : ℕ

/-- The entry of a submitted unit. -/
def Submission.toEntry (item : Submission) (g arrival : ℕ) : Entry Value Receipt :=
  { unit := item.unit
    generation := g
    arrival
    queuedAt := item.queuedAt
    inputBytes := item.inputBytes
    capacityBlocked := false
    keys := effectiveConflictKeys item.unit
    state := .blocked
    readySince := none
    passedOver := 0
    result := none
    partialValue := none
    aborted := false
    reservation := none
    waiting := false
    runner := .idle }

/-- The new entries of a generation. -/
def newEntries (work : List Submission) (g first : ℕ) : List (Entry Value Receipt) :=
  work.mapIdx fun i item => item.toEntry g (first + i)

/-- Which of the queue's limits a new generation would pass, if it would. -/
def queueLimit (limits : SchedulerLimits) (work : List Submission) : Option QueueDimension :=
  let waiting := s.entries.filter fun e => e.waiting
  let queuedBytes := (waiting.map fun e => e.inputBytes).sum
  let newBytes := (work.map Submission.inputBytes).sum
  let invalidBytes := work.any fun item => isSafeInteger item.inputBytes = false || item.inputBytes < 0
  let maxQueued : ℤ := (limits.maxQueued.map Nat.cast).getD maxSafeInteger
  let maxQueuedBytes : ℤ := (limits.maxQueuedBytes.map Nat.cast).getD maxSafeInteger
  let tooManyBytes := invalidBytes || newBytes > maxQueuedBytes - queuedBytes
  if (waiting.length + work.length : ℤ) > maxQueued || tooManyBytes then
    some (if tooManyBytes then .bytes else .items)
  else none

/-- The generation is refused as a whole: every unit gets the error `error` of it. -/
def refuseGeneration (work : List Submission) (aborted : Bool)
    (entries : List (Entry Value Receipt)) (error : WorkUnit → SchedulingError Receipt) :
    Scheduler Value Receipt :=
  { s with
    entries := s.entries ++ entries
    generations := s.generations ++
      [{ work := work.map Submission.unit
         aborted
         status := .returned (work.map fun item => .refused item.unit.id (error item.unit)
          refusedOutcome (recoveryFor (error item.unit)))
         inflight := [] }]
    counters := { s.counters with refused := s.counters.refused + work.length } }

/-- The head of `runGeneration`, up to its loop. -/
def schedule (limits : SchedulerLimits) (work : List Submission) (aborted : Bool) :
    Scheduler Value Receipt :=
  let entries := newEntries work s.generations.length s.entries.length
  match validate (work.map Submission.unit) with
  | some error => s.refuseGeneration work aborted entries fun _ => error
  | none =>
    match s.queueLimit limits work with
    | some dimension =>
      s.refuseGeneration work aborted
        (entries.map fun e => e.refuse (.queueLimit e.unit.id dimension))
        fun unit => .queueLimit unit.id dimension
    | none =>
      { s with
        entries := s.entries ++ entries.map fun e => { e with waiting := true }
        generations := s.generations ++
          [{ work := work.map Submission.unit, aborted, status := .looping, inflight := [] }] }

/-! ## Starting a unit -/

/-- What an entry's synchronous `admit` answers; an entry without one is ready. -/
inductive Admission (Receipt : Type) where
  | ready
  | wait
  | refused (receipt : Receipt)

/-- The amounts a unit reserves. -/
def reservedAmounts (unit : WorkUnit) : BudgetAmounts
  | .operations => some 1
  | .bytes => some unit.expectedOutputBytes
  | _ => none

/-- The refusal a ledger's refusal turns into. -/
def budgetRefusal (limits : SchedulerLimits) (unitId : String) : BudgetError → SchedulingError Receipt
  | .budgetExhausted _ dimension _ remaining => .budgetExhausted unitId dimension remaining
  | .accountingOverflow _ dimension remaining => .budgetExhausted unitId dimension remaining
  | _ => .concurrencyLimit unitId limits.maxConcurrent

/-- The part of `start` from the acquisition of the keys on.  The runner is called; it may throw
before it returns its promise. -/
def launch (e : Entry Value Receipt) (reservation : Option String) (throws : Bool) :
    Scheduler Value Receipt :=
  { s with
    held := LockTable.acquire s.held e.keys
    running := s.running + 1
    entries := s.entries.map fun x =>
      if x.arrival = e.arrival then
        { x with
          state := .running
          waiting := false
          aborted := x.unit.scopeId.any fun scope => scope ∈ s.cancelledScopes
          reservation
          runner := if throws then .threw else .pending }
      else if x.waiting then { x with passedOver := x.passedOver + 1 }
      else x
    generations := s.generations.modify e.generation fun gen =>
      { gen with inflight := gen.inflight ++ [e.arrival] }
    log := s.log ++ [.invoked e.arrival] }

def start (config : SchedulerConfig) (e : Entry Value Receipt) (admission : Admission Receipt)
    (reservationId : String) (throws : Bool) : Scheduler Value Receipt :=
  match admission with
  | .wait =>
    if e.capacityBlocked then s
    else (s.updateEntry e.arrival fun x => { x with capacityBlocked := true }).notifyCapacityChanged
  | .refused receipt => s.refuse e.arrival (.resourceAdmission e.unit.id receipt)
  | .ready =>
    match config.budgetId with
    | none => s.launch e none throws
    | some budgetId =>
      match s.ledger.reserve budgetId reservationId (reservedAmounts e.unit) with
      | .error error => s.refuse e.arrival (budgetRefusal config.limits e.unit.id error)
      | .ok ledger => { s with ledger }.launch e (some reservationId) throws

/-! ## The end of a unit -/

/-- The winner of the race a started unit waits for. -/
inductive Raced (Value : Type) where
  | value (value : Value)
  | error
  | expired
  | aborted

/-- The outcome of a unit that did not complete; an observation that stopped changed nothing. -/
def Raced.outcome (unit : WorkUnit) : Raced Value → TerminalOutcome
  | .value _ => .completed
  | .error => .failed (stoppedEffect unit)
  | .expired => .timedOut (stoppedEffect unit)
  | .aborted => .cancelled (stoppedEffect unit)
where
  stoppedEffect (unit : WorkUnit) : EffectCertainty :=
    if unit.effect = .observation then .none else .uncertain

/-- What `finish` does to the ledger: a unit that completed consumes what it reserved. -/
def settleReservation (e : Entry Value Receipt) (raced : Raced Value) : BudgetLedger :=
  match e.reservation with
  | none => s.ledger
  | some reservationId =>
    match raced with
    | .value _ => s.ledger.call (.consume reservationId (reservedAmounts e.unit))
    | _ => s.ledger.call (.release reservationId)

/-- `finish`, with the winner of the race that led to it. -/
def finish (e : Entry Value Receipt) (raced : Raced Value) : Scheduler Value Receipt :=
  let s₁ : Scheduler Value Receipt :=
    { s.updateEntry e.arrival fun x => { x with aborted := true } with
      held := LockTable.release s.held e.keys
      running := s.running - 1
      ledger := s.settleReservation e raced }
  match raced with
  | .value value =>
    let s₂ : Scheduler Value Receipt :=
      { s₁.updateEntry e.arrival fun x =>
          { x with state := .settled, result := some (.completed x.unit.id value) } with
        counters := { s₁.counters with completed := s₁.counters.completed + 1 }
        log := s₁.log ++ [.completed e.arrival] }
    s₂.notifyCapacityChanged
  | _ => (s₁.settle e.arrival (raced.outcome e.unit)).notifyCapacityChanged

/-! ## One round of the loop -/

/-- The loop over deadlines: what has not started by its deadline has timed out without effect. -/
def expire (g : ℕ) (now : ℕ → ℕ) : Scheduler Value Receipt :=
  let due (e : Entry Value Receipt) : Bool :=
    e.generation = g && e.isQueued && e.unit.deadline.any fun deadline => now e.arrival ≥ deadline
  { s.mapEntries fun e =>
      if due e then { e.settle (.timedOut .none) with waiting := false } else e with
    counters := { s.counters with
      settledNonCompleted := s.counters.settledNonCompleted + s.entries.countP due } }

def dependenciesSettled (e : Entry Value Receipt) : Bool :=
  e.unit.dependencies.all fun id => (s.byId e.generation id).any fun d => d.state = .settled

/-- `failedDependencyOf`: the first dependency that has not completed. -/
def failedDependencyOf (g : ℕ) : List String → Option (Entry Value Receipt)
  | [] => none
  | id :: ids =>
    match s.byId g id with
    | none => none
    | some dependency =>
      if dependency.result.any SchedulingResult.isCompleted then failedDependencyOf g ids
      else some dependency

/-- The outcome a refusal reports of the dependency that failed. -/
def dependencyOutcome (dependency : Entry Value Receipt) : TerminalOutcome :=
  match dependency.result with
  | some (.refused _ _ outcome _) => outcome
  | some (.settled _ outcome _) => outcome
  | _ => .failed .none

/-- One round of the loop that promotes or refuses blocked entries. -/
def promote (now : ℕ → ℕ) (arrival : ℕ) : Scheduler Value Receipt :=
  match s.entryAt arrival with
  | none => s
  | some e =>
    if e.state ≠ .blocked ∨ s.dependenciesSettled e = false then s
    else
      match s.failedDependencyOf e.generation e.unit.dependencies with
      | some failed =>
        s.refuse arrival
          (.dependencyFailed e.unit.id failed.unit.id (dependencyOutcome failed))
      | none =>
        s.updateEntry arrival fun x => { x with state := .ready, readySince := some (now arrival) }

/-- The order of admission: by effective rank, then by arrival. -/
def admitsBefore (limits : SchedulerLimits) (left right : Entry Value Receipt) : Bool :=
  left.effectiveRank limits < right.effectiveRank limits
    || (left.effectiveRank limits = right.effectiveRank limits && left.arrival ≤ right.arrival)

/-- The ready entries of a generation in the order they are tried in. -/
def admissionOrder (limits : SchedulerLimits) (g : ℕ) : List ℕ :=
  (((s.entriesOf g).filter fun e => e.state = .ready).insertionSort
    fun left right => admitsBefore limits left right = true).map Entry.arrival

/-- The end of `runGeneration`. -/
def finishGeneration (g : ℕ) : Scheduler Value Receipt :=
  ((s.notifyCapacityChanged).mapEntries fun e =>
    if e.generation = g then { e with waiting := false } else e).setStatus g
      (.returned ((s.entriesOf g).map Entry.report))

/-- The abort branch of the loop: what is queued is settled without effect. -/
def settleQueued (g : ℕ) : Scheduler Value Receipt :=
  let queued (e : Entry Value Receipt) : Bool := e.generation = g && e.isQueued
  { s.mapEntries fun e => if queued e then e.settle noEffect else e with
    counters := { s.counters with
      settledNonCompleted := s.counters.settledNonCompleted + s.entries.countP queued } }

/-- The top of the loop, up to the admission of the ready entries. -/
def loop (limits : SchedulerLimits) (g : ℕ) (gen : Generation Value Receipt)
    (deadlineNow readyNow : ℕ → ℕ) : Scheduler Value Receipt :=
  if s.allSettled g then s.finishGeneration g
  else if gen.aborted then
    if gen.inflight.length > 0 then (s.settleQueued g).setStatus g (.parked false none)
    else (s.settleQueued g).finishGeneration g
  else
    let s₁ := s.expire g deadlineNow
    let s₂ := ((s₁.entriesOf g).map Entry.arrival).foldl (fun s a => s.promote readyNow a) s₁
    s₂.setStatus g (.admitting (s₂.admissionOrder limits g) [])

/-- Whether a waiting entry of any generation would rather be admitted than this one. -/
def higherWaiting (limits : SchedulerLimits) (e : Entry Value Receipt) : Bool :=
  s.entries.any fun other =>
    other.waiting && other.arrival ≠ e.arrival && other.state = .ready && !other.capacityBlocked
      && s.keysAvailable limits other.keys
      && (other.effectiveRank limits < e.effectiveRank limits
        || (other.effectiveRank limits = e.effectiveRank limits && other.arrival < e.arrival))

/-- Whether an entry has to be passed over in this round. -/
def mustSkip (limits : SchedulerLimits) (e : Entry Value Receipt) : Bool :=
  let reserved := min (limits.reservedInteractive.getD 0) (limits.maxConcurrent - 1)
  let places : ℤ := limits.maxConcurrent - (if e.effectiveRank limits = 0 then 0 else reserved : ℕ)
  s.running ≥ places || !s.keysAvailable limits e.keys || s.higherWaiting limits e

/-- A unit admitted ahead of its class is counted as promoted. -/
def countPromotion (limits : SchedulerLimits) (e : Entry Value Receipt) : Scheduler Value Receipt :=
  { s with counters := { s.counters with
    promotions := s.counters.promotions
      + if e.effectiveRank limits < priorityRank e.unit.priority then 1 else 0 } }

/-- One round of the admission loop, for the first of the entries still to be tried. -/
def tryReady (config : SchedulerConfig) (g : ℕ) (e : Entry Value Receipt) (rest skipped : List ℕ)
    (admission : Admission Receipt) (reservationId : String) (throws : Bool) :
    Scheduler Value Receipt :=
  if s.mustSkip config.limits e then s.setStatus g (.admitting rest (skipped ++ [e.arrival]))
  else
    let s₁ := (s.countPromotion config.limits e).start config e admission reservationId throws
    let stillReady := (s₁.entryAt e.arrival).any fun x => x.state = .ready
    s₁.setStatus g (.admitting rest (if stillReady then skipped ++ [e.arrival] else skipped))

/-- When a ready entry that was passed over stops waiting for its locks. -/
def lockExpiry (limits : SchedulerLimits) (e : Entry Value Receipt) : ℕ :=
  let acquisition := e.queuedAt + limits.lockAcquisitionTimeoutMs
  (e.unit.deadline.map (min acquisition)).getD acquisition

/-- The refusal of an entry that waited too long. -/
def lockRefusal (limits : SchedulerLimits) (e : Entry Value Receipt) : SchedulingError Receipt :=
  match (e.keys.find? fun key => s.held key > 0).or e.keys.head? with
  | some key => .lockAcquisitionTimeout e.unit.id key (lockExpiry limits e)
  | none => .concurrencyLimit e.unit.id limits.maxConcurrent

/-- Whether an entry of the generation was passed over and waits for a lock. -/
def awaitsLock (g : ℕ) (skipped : List ℕ) (e : Entry Value Receipt) : Bool :=
  e.generation = g && e.arrival ∈ skipped && e.state = .ready && e.readySince.isSome

/-- The entries of a generation that wait are exactly its queued ones. -/
def syncWaiting (g : ℕ) : Scheduler Value Receipt :=
  s.mapEntries fun e => if e.generation = g then { e with waiting := e.isQueued } else e

/-- Whether an entry waited past its lock deadline. -/
def waitedTooLong (limits : SchedulerLimits) (g : ℕ) (skipped : List ℕ) (now : ℕ → ℕ)
    (e : Entry Value Receipt) : Bool :=
  awaitsLock g skipped e && now e.arrival ≥ lockExpiry limits e

/-- The refusal of everything that waited past its lock deadline. -/
def refuseLate (limits : SchedulerLimits) (g : ℕ) (skipped : List ℕ) (now : ℕ → ℕ) :
    Scheduler Value Receipt :=
  { s.mapEntries fun e =>
      if waitedTooLong limits g skipped now e then e.refuse (s.lockRefusal limits e) else e with
    counters := { s.counters with
      refused := s.counters.refused + s.entries.countP (waitedTooLong limits g skipped now) } }

/-- The rest of a round, after the admission loop. -/
def conclude (limits : SchedulerLimits) (g : ℕ) (skipped : List ℕ) (now : ℕ → ℕ) :
    Scheduler Value Receipt :=
  let s₁ := s.syncWaiting g
  let s₂ := s₁.refuseLate limits g skipped now
  if s₁.entries.any (waitedTooLong limits g skipped now) then s₂.setStatus g .looping
  else if s₂.allSettled g then s₂.finishGeneration g
  else
    let waiters := s₁.entries.filter (awaitsLock g skipped)
    s₂.setStatus g (.parked true ((waiters.map (lockExpiry limits)).min?))

end Scheduler

end Falryn.Orchestration
