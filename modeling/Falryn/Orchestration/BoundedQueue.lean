import Falryn.Lib.StateMachine

/-!
# The bounded queue

A queue that declares what it holds and what happens when it cannot hold more
(`domain/orchestration/queue.ts`, `application/orchestration/bounded-queue.ts`).

`enqueue` is asynchronous: it may stop at the spill port, or as a waiter until somebody makes room or
its signal aborts.  A step of the model is what the source runs without giving way; the calls that
have stopped are part of the state, and their continuations are steps of their own, in any order.
What the clock reads is an argument of each step.  The log is not the source's: it records what the
source does where it does it.
-/

namespace Falryn.Orchestration

/-- `OVERFLOW_POLICIES`. -/
inductive OverflowPolicy where
  | reject
  | wait
  | spill
  | coalesce
  deriving DecidableEq

structure QueueLimits where
  maxItems : ℕ
  maxBytes : ℕ
  maxItemAgeMs : ℕ
  overflow : OverflowPolicy

structure EnqueueRequest (π : Type) where
  id : String
  byteLength : ℕ
  coalescable : Bool
  mergeKey : Option String
  payload : π

/-- An item of a queue.  `call` is the identity of the object: the number of the call of `enqueue`
that made it. -/
structure QueueItem (π : Type) where
  call : ℕ
  id : String
  byteLength : ℕ
  enqueuedAt : ℤ
  coalescable : Bool
  mergeKey : Option String
  payload : π

/-- A reference to spilled bytes. -/
structure ArtifactHandle where
  artifactId : String
  byteLength : ℕ

inductive LimitKind where
  | items
  | bytes
  | age

inductive EnqueueOutcome (π : Type) where
  | accepted
  | coalesced (replaced : QueueItem π)
  | spilled (artifact : ArtifactHandle)
  | waited
  | cancelled
  | rejected (limit : LimitKind) (maximum observed : ℤ)

structure QueueCounters where
  accepted : ℕ
  coalesced : ℕ
  spilled : ℕ
  rejected : ℕ
  expired : ℕ

/-- Where a call that has stopped stands. -/
inductive Stand where
  /-- It waits for room; `abortable` is whether it has a signal. -/
  | waiting (abortable : Bool)
  /-- It was woken, and will look for room when it runs. -/
  | released
  /-- Its signal aborted first. -/
  | aborted
  /-- It waits for the spill port. -/
  | spilling

structure Suspended (π : Type) where
  call : ℕ
  request : EnqueueRequest π
  stand : Stand

/-- What the source does, where it does it. -/
inductive QueueHappening (π : Type) where
  | called (call : ℕ) (request : EnqueueRequest π)
  | admitted (item : QueueItem π)
  | replaced (item : QueueItem π)
  | expired (item : QueueItem π) (now : ℤ)
  | dequeued (item : QueueItem π) (now : ℤ)
  | peeked (item : QueueItem π) (now : ℤ)
  | settled (call : ℕ) (outcome : EnqueueOutcome π)

/-- What a queue holds between two steps. -/
structure BoundedQueue (π : Type) where
  items : List (QueueItem π)
  waiters : List ℕ
  bytes : ℤ
  counters : QueueCounters
  suspended : List (Suspended π)
  nextCall : ℕ
  log : List (QueueHappening π)

def elapsedBetween (start stop : ℤ) : ℤ := max 0 (stop - start)

namespace BoundedQueue

variable {π : Type}

/-- `createBoundedQueue`. -/
def empty : BoundedQueue π := ⟨[], [], 0, ⟨0, 0, 0, 0, 0⟩, [], 0, []⟩

def size (q : BoundedQueue π) : ℕ := q.items.length

def byteLength (q : BoundedQueue π) : ℤ := q.bytes

/-! ## Parts of the operations -/

def record (q : BoundedQueue π) (happening : QueueHappening π) : BoundedQueue π :=
  { q with log := q.log ++ [happening] }

/-- Whether an item is past the age limit. -/
def tooOld (limits : QueueLimits) (now : ℤ) (item : QueueItem π) : Prop :=
  (limits.maxItemAgeMs : ℤ) < elapsedBetween item.enqueuedAt now

instance (limits : QueueLimits) (now : ℤ) : DecidablePred (tooOld (π := π) limits now) :=
  fun _ => inferInstanceAs (Decidable (_ < _))

/-- The loop of `expire`, over the items that are left. -/
def expireFrom (limits : QueueLimits) (now : ℤ) (q : BoundedQueue π) :
    List (QueueItem π) → BoundedQueue π
  | [] => { q with items := [] }
  | oldest :: rest =>
    if tooOld limits now oldest then
      expireFrom limits now
        { q with
          bytes := q.bytes - oldest.byteLength
          counters := { q.counters with expired := q.counters.expired + 1 }
          log := q.log ++ [.expired oldest now] }
        rest
    else { q with items := oldest :: rest }

def expire (limits : QueueLimits) (now : ℤ) (q : BoundedQueue π) : BoundedQueue π :=
  expireFrom limits now q q.items

def hasRoomFor (limits : QueueLimits) (q : BoundedQueue π) (byteLength : ℕ) : Prop :=
  q.items.length + 1 ≤ limits.maxItems ∧ q.bytes + byteLength ≤ limits.maxBytes

instance (limits : QueueLimits) (q : BoundedQueue π) (byteLength : ℕ) :
    Decidable (hasRoomFor limits q byteLength) := inferInstanceAs (Decidable (_ ∧ _))

/-- The item that a request becomes. -/
def itemFor (call : ℕ) (request : EnqueueRequest π) (instant : ℤ) : QueueItem π :=
  ⟨call, request.id, request.byteLength, instant, request.coalescable, request.mergeKey,
    request.payload⟩

/-- `admit`. -/
def admitItem (q : BoundedQueue π) (call : ℕ) (request : EnqueueRequest π) (instant : ℤ) :
    BoundedQueue π :=
  { q with
    items := q.items ++ [itemFor call request instant]
    bytes := q.bytes + request.byteLength
    log := q.log ++ [.admitted (itemFor call request instant)] }

/-- A call returns. -/
def settle (q : BoundedQueue π) (call : ℕ) (outcome : EnqueueOutcome π) : BoundedQueue π :=
  q.record (.settled call outcome)

/-- `overflowLimit`, as the rejection it is returned in. -/
def overflowLimit (limits : QueueLimits) (q : BoundedQueue π) (byteLength : ℕ) :
    EnqueueOutcome π :=
  if q.items.length + 1 > limits.maxItems then .rejected .items limits.maxItems q.items.length
  else .rejected .bytes limits.maxBytes (q.bytes + byteLength)

/-- A call is rejected. -/
def reject (limits : QueueLimits) (q : BoundedQueue π) (call : ℕ) (request : EnqueueRequest π) :
    BoundedQueue π :=
  settle { q with counters := { q.counters with rejected := q.counters.rejected + 1 } } call
    (overflowLimit limits q request.byteLength)

/-- The item that a request may replace: one for display only with the request's merge key. -/
def coalescingIndex (q : BoundedQueue π) (request : EnqueueRequest π) : Option ℕ :=
  match request.mergeKey with
  | none => none
  | some key =>
    if request.coalescable then
      q.items.findIdx? fun item => item.coalescable && item.mergeKey == some key
    else none

/-- The item at an index leaves the queue for the request's item. -/
def coalesce (q : BoundedQueue π) (index : ℕ) (replaced : QueueItem π) (call : ℕ)
    (request : EnqueueRequest π) (now : ℤ) : BoundedQueue π :=
  let q := record
    { q with items := q.items.eraseIdx index, bytes := q.bytes - replaced.byteLength }
    (.replaced replaced)
  let q := q.admitItem call request now
  settle { q with counters := { q.counters with coalesced := q.counters.coalesced + 1 } } call
    (.coalesced replaced)

/-- The call of a waiter is woken. -/
def release (q : BoundedQueue π) (call : ℕ) : BoundedQueue π :=
  { q with
    suspended := q.suspended.map fun s => if s.call = call then { s with stand := .released } else s }

def releaseOneWaiter (q : BoundedQueue π) : BoundedQueue π :=
  match q.waiters with
  | [] => q
  | next :: rest => release { q with waiters := rest } next

/-! ## The operations -/

/-- A call of `enqueue` begins. -/
def called (q : BoundedQueue π) (request : EnqueueRequest π) : BoundedQueue π :=
  { q with nextCall := q.nextCall + 1 }.record (.called q.nextCall request)

/-- `enqueue` up to where it returns or stops.  `signal` is whether there is one, and if so whether
it is aborted already. -/
def enqueue (limits : QueueLimits) (spill : Bool) (q : BoundedQueue π) (request : EnqueueRequest π)
    (signal : Option Bool) (now : ℤ) : BoundedQueue π :=
  let call := q.nextCall
  let q := (q.called request).expire limits now
  if hasRoomFor limits q request.byteLength then
    let q := q.admitItem call request now
    settle { q with counters := { q.counters with accepted := q.counters.accepted + 1 } } call
      .accepted
  else
    match limits.overflow with
    | .reject => q.reject limits call request
    | .coalesce =>
      match q.coalescingIndex request with
      | none => q.reject limits call request
      | some index =>
        match q.items[index]? with
        | none => q.reject limits call request
        | some replaced => q.coalesce index replaced call request now
    | .spill =>
      if spill then { q with suspended := q.suspended ++ [⟨call, request, .spilling⟩] }
      else q.reject limits call request
    | .wait =>
      if signal = some true then q.settle call .cancelled
      else
        { q with
          waiters := q.waiters ++ [call]
          suspended := q.suspended ++ [⟨call, request, .waiting signal.isSome⟩] }

/-- A call that has stopped leaves the calls that have. -/
def proceed (q : BoundedQueue π) (call : ℕ) : BoundedQueue π :=
  { q with suspended := q.suspended.filter fun s => s.call ≠ call }

/-- `enqueue` after its waiter was released. -/
def resume (limits : QueueLimits) (q : BoundedQueue π) (call : ℕ) (request : EnqueueRequest π)
    (admittedAt : ℤ) : BoundedQueue π :=
  let q := (q.proceed call).expire limits admittedAt
  if hasRoomFor limits q request.byteLength then
    let q := q.admitItem call request admittedAt
    settle { q with counters := { q.counters with accepted := q.counters.accepted + 1 } } call
      .waited
  else q.reject limits call request

/-- `enqueue` after the spill port answered. -/
def spilled (q : BoundedQueue π) (call : ℕ) (artifact : ArtifactHandle) : BoundedQueue π :=
  let q := q.proceed call
  settle { q with counters := { q.counters with spilled := q.counters.spilled + 1 } } call
    (.spilled artifact)

/-- `onAbort`. -/
def abort (q : BoundedQueue π) (call : ℕ) : BoundedQueue π :=
  { q with
    waiters := q.waiters.filter fun candidate => candidate ≠ call
    suspended := q.suspended.map fun s => if s.call = call then { s with stand := .aborted } else s }

def dequeue (limits : QueueLimits) (q : BoundedQueue π) (now : ℤ) :
    Option (QueueItem π) × BoundedQueue π :=
  let q := q.expire limits now
  match q.items with
  | [] => (none, q)
  | item :: rest =>
    (some item, releaseOneWaiter
      { q with
        items := rest
        bytes := q.bytes - item.byteLength
        log := q.log ++ [.dequeued item now] })

def peek (limits : QueueLimits) (q : BoundedQueue π) (now : ℤ) :
    Option (QueueItem π) × BoundedQueue π :=
  let q := q.expire limits now
  match q.items with
  | [] => (none, q)
  | item :: _ => (some item, q.record (.peeked item now))

def drain (q : BoundedQueue π) : BoundedQueue π :=
  q.waiters.foldl release { q with waiters := [] }

/-! ## Steps -/

/-- What can happen to a queue: a call of one of its methods, or the continuation of a call of
`enqueue` that has stopped. -/
inductive QueueEvent (π : Type) where
  | enqueue (request : EnqueueRequest π) (signal : Option Bool) (now : ℤ)
  | resume (call : ℕ) (now : ℤ)
  | cancelled (call : ℕ)
  | spilled (call : ℕ) (artifact : ArtifactHandle)
  | abort (call : ℕ)
  | dequeue (now : ℤ)
  | peek (now : ℤ)
  | drain

/-- The call that has stopped under a number. -/
def suspended? (q : BoundedQueue π) (call : ℕ) : Option (Suspended π) :=
  q.suspended.find? fun s => s.call = call

/-- The queue after an event, if the event can happen: a continuation needs a call that stands where
it continues, and only a waiter that listens to a signal can be aborted. -/
def step (limits : QueueLimits) (spill : Bool) (q : BoundedQueue π) :
    QueueEvent π → Option (BoundedQueue π)
  | .enqueue request signal now => some (q.enqueue limits spill request signal now)
  | .resume call now =>
    match q.suspended? call with
    | some ⟨_, request, .released⟩ => some (q.resume limits call request now)
    | _ => none
  | .cancelled call =>
    match q.suspended? call with
    | some ⟨_, _, .aborted⟩ => some ((q.proceed call).settle call .cancelled)
    | _ => none
  | .spilled call artifact =>
    match q.suspended? call with
    | some ⟨_, _, .spilling⟩ => some (q.spilled call artifact)
    | _ => none
  | .abort call =>
    match q.suspended? call with
    | some ⟨_, _, .waiting true⟩ => some (q.abort call)
    | _ => none
  | .dequeue now => some (q.dequeue limits now).2
  | .peek now => some (q.peek limits now).2
  | .drain => some q.drain

end BoundedQueue
end Falryn.Orchestration
