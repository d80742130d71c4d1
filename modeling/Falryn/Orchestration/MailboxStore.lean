import Falryn.Lib.OrderedMap
import Falryn.Lib.Transaction
import Falryn.Orchestration.PeerMailbox

/-!
# The mailbox store

The transactions of `createMailboxRepository` (`data/orchestration/mailbox-store.ts`) over the tables
they write.  A transaction that throws is rolled back; one that refuses commits what it wrote before.
The clock is an argument of every transaction, and so are the artifacts that are available when it
runs; what the field formats of a schema accept and how many bytes a record takes are parameters.
-/

namespace Falryn.Orchestration.Mailbox

open Transaction

/-! ## The tables -/

/-- A row of `peer_endpoints`. -/
structure EndpointRow where
  endpoint : PeerEndpoint
  publicKey : String
  address : String
  fence : String

/-- A row of `peer_messages`. -/
structure MessageRow where
  laneSequence : ℕ
  /-- `created_at`, when the row was inserted. -/
  insertedAt : ℕ
  expiresAt : ℕ
  accepted : Bool
  bytes : ℕ
  payload : Option PeerMessage
  receipt : MailboxReceipt

/-- What a mailbox event records. -/
inductive Fact where
  | transition
  | conflict
  deriving DecidableEq

/-- A row of `peer_mailbox_events`. -/
structure MailboxEvent where
  key : MessageKey
  revision : ℕ
  fact : Fact
  receipt : MailboxReceipt

/-- The kinds of notifications. -/
inductive NotificationKind where
  | arrival
  | settlement
  deriving DecidableEq

/-- The key of a row of `peer_notifications`. -/
structure Notification where
  key : MessageKey
  endpoint : PeerIdentity
  kind : NotificationKind
  deriving DecidableEq

/-- The outcomes of a delivery attempt. -/
inductive AttemptOutcome where
  | started
  | accepted
  | unavailable
  deriving DecidableEq

/-- A row of `peer_delivery_attempts`. -/
structure DeliveryAttempt where
  key : MessageKey
  attempt : ℕ
  startedAt : ℕ
  finishedAt : Option ℕ
  outcome : AttemptOutcome

/-- The key of a row of `peer_subscriptions`. -/
structure SubscriptionKey where
  sender : PeerIdentity
  id : String
  deriving DecidableEq

/-- The tables of the mailbox. -/
structure MailboxState where
  endpoints : OrderedMap PeerIdentity EndpointRow
  policies : OrderedMap RouteId PeerPolicy
  messages : OrderedMap MessageKey MessageRow
  events : List MailboxEvent
  /-- Each notification with whether it is consumed. -/
  notifications : OrderedMap Notification Bool
  attempts : List DeliveryAttempt
  grants : OrderedMap RouteId PeerRouteGrant
  subscriptions : OrderedMap SubscriptionKey PeerSubscription

/-- The mailbox before its first transaction. -/
def MailboxState.empty : MailboxState :=
  ⟨.empty, .empty, .empty, [], .empty, [], .empty, .empty⟩

/-- What the schemas accept and what records weigh. -/
structure MailboxPorts where
  /-- The field formats of `peerMessageSchema`. -/
  messageFormat : PeerMessage → Bool
  /-- `peerEndpointSchema`. -/
  endpointFormat : PeerEndpoint → Bool
  /-- The bytes of a message as JSON. -/
  messageBytes : PeerMessage → ℕ
  /-- The bytes of a row of `peer_endpoints`. -/
  endpointBytes : EndpointRow → ℕ
  /-- The field formats of `peerSubscriptionSchema`. -/
  subscriptionFormat : PeerSubscriptionInput → Bool
  /-- The bytes of a subscription as JSON. -/
  subscriptionBytes : PeerSubscription → ℕ

/-- What a transaction of the store can throw. -/
inductive MailboxThrow where
  /-- The receipt schema or a constraint of `peer_mailbox_events` refused a save. -/
  | saveRefused
  | replySettlementFailed
  | corruptRetirement
  | invalidPolicyEvidence
  | policyRevisionCapacity
  | corruptRouteEvidence
  | routeRevisionCapacity
  deriving DecidableEq

/-- A transaction of the store. -/
abbrev Tx := Transaction MailboxState MailboxThrow PeerFailure

/-! ## Endpoints -/

/-- A newer generation of the peer is registered. -/
def superseded (s : MailboxState) (identity : PeerIdentity) : Bool :=
  s.endpoints.keys.any fun other => other.sessionId = identity.sessionId
    ∧ other.agentId = identity.agentId ∧ identity.generation < other.generation

/-- What the store knows of an endpoint. -/
structure EndpointView where
  endpoint : PeerEndpoint
  fence : String
  current : Bool

def endpoint (identity : PeerIdentity) (s : MailboxState) : Except PeerFailure EndpointView :=
  match s.endpoints.get identity with
  | none => .error (failure .notFound)
  | some row => .ok ⟨row.endpoint, row.fence, !superseded s identity⟩

/-- `authorized`: the proof is the fence the endpoint was registered with. -/
def authorized (proof expected : String) : Prop :=
  32 ≤ proof.length ∧ proof.length ≤ 128 ∧ proof = expected

instance (proof expected : String) : Decidable (authorized proof expected) := by
  unfold authorized
  infer_instance

def owner (lease : PeerLease) (now : ℕ) (offline : Bool) (s : MailboxState) :
    Except PeerFailure PeerEndpoint := do
  let found ← endpoint lease.identity s
  refuseIf (¬ authorized lease.fence found.fence) (failure .denied)
  let current := found.endpoint
  refuseIf (current.processGeneration ≠ lease.processGeneration ∨ superseded s lease.identity
    ∨ current.state = .retired
    ∨ (offline = false ∧ (current.leaseUntil ≤ now ∨ current.state = .offline))) (failure .stale)
  pure current

def reader (lease : PeerLease) (subject : PeerIdentity) (now : ℕ) (s : MailboxState) :
    Except PeerFailure PeerEndpoint := do
  let current ← owner lease now false s
  if lease.identity = subject then pure current
  else
    refuseIf (lease.identity.agentId ≠ "main" ∨ subject.sessionId ≠ lease.identity.sessionId)
      (failure .denied)
    let target ← endpoint subject s
    refuseIf (target.endpoint.scope ≠ current.scope) (failure .denied)
    pure target.endpoint

/-! ## Receipts -/

structure MailboxRecord where
  receipt : MailboxReceipt
  message : Option PeerMessage

def load (key : MessageKey) (s : MailboxState) : Except PeerFailure MailboxRecord :=
  match s.messages.get key with
  | none => .error (failure .notFound)
  | some row => .ok ⟨row.receipt, row.payload⟩

/-- Writes a row of `peer_messages`. -/
def MailboxState.putMessage (s : MailboxState) (key : MessageKey) (row : MessageRow) :
    MailboxState :=
  { s with messages := s.messages.set key row }

/-- `UPDATE peer_messages SET … WHERE id = key`. -/
def MailboxState.updateMessage (s : MailboxState) (key : MessageKey)
    (update : MessageRow → MessageRow) : MailboxState :=
  match s.messages.get key with
  | none => s
  | some row => s.putMessage key (update row)

/-- `INSERT OR IGNORE INTO peer_notifications`. -/
def insertNotification (notifications : OrderedMap Notification Bool) (new : Notification) :
    OrderedMap Notification Bool :=
  if new ∈ notifications.keys then notifications else notifications.set new false

/-- A saved receipt tells the recipient that the message has arrived. -/
def MailboxReceipt.Announces (receipt : MailboxReceipt) : Prop :=
  receipt.delivery.Arrived ∧ receipt.policy = .allowed

instance (receipt : MailboxReceipt) : Decidable receipt.Announces := by
  unfold MailboxReceipt.Announces
  infer_instance

/-- A saved receipt tells the sender that the message is settled. -/
def MailboxReceipt.Settles (receipt : MailboxReceipt) : Prop :=
  receipt.handling.Closed ∨ receipt.delivery = .expired
    ∨ (receipt.policy = .revoked ∧ receipt.wait = .settled)

instance (receipt : MailboxReceipt) : Decidable receipt.Settles := by
  unfold MailboxReceipt.Settles
  infer_instance

/-- The notifications a saved receipt leaves. -/
def notify (receipt : MailboxReceipt) (fact : Fact)
    (notifications : OrderedMap Notification Bool) : OrderedMap Notification Bool :=
  if fact = .transition then
    let arrived := if receipt.Announces then
      insertNotification notifications ⟨receipt.key, receipt.recipient, .arrival⟩ else notifications
    if receipt.Settles then
      insertNotification arrived ⟨receipt.key, receipt.sender, .settlement⟩ else arrived
  else notifications

/-- What a saved receipt writes. -/
def MailboxState.record (s : MailboxState) (receipt : MailboxReceipt) (fact : Fact) :
    MailboxState :=
  let written := s.updateMessage receipt.key fun row => { row with receipt := receipt }
  { written with
    events := s.events ++ [⟨receipt.key, receipt.revision, fact, receipt⟩]
    notifications := notify receipt fact s.notifications }

/-- The schema or a constraint refuses the receipt: its revision is out of bounds, its message is
not there, or the revision is recorded already. -/
def MailboxState.Refuses (s : MailboxState) (receipt : MailboxReceipt) : Prop :=
  receipt.revision < 1 ∨ MailboxLimits.revisions < receipt.revision
    ∨ s.messages.get receipt.key = none
    ∨ ∃ event ∈ s.events, event.key = receipt.key ∧ event.revision = receipt.revision

instance (s : MailboxState) (receipt : MailboxReceipt) : Decidable (s.Refuses receipt) := by
  unfold MailboxState.Refuses
  infer_instance

def save (receipt : MailboxReceipt) (fact : Fact) : Tx MailboxReceipt := do
  let s ← query fun s => .ok s
  if s.Refuses receipt then abort .saveRefused
  else
    write fun s => s.record receipt fact
    pure receipt

/-- `Partial<MailboxReceipt>`, of the fields that a change can set. -/
structure ReceiptPatch where
  delivery : Option Delivery
  handling : Option Handling
  wait : Option Wait
  policy : Option ReceiptPolicy
  reason : Option ReceiptReason
  reply : Option MessageKey
  tombstoned : Bool

/-- The patch that sets nothing. -/
def ReceiptPatch.none : ReceiptPatch := ⟨.none, .none, .none, .none, .none, .none, false⟩

/-- `{ ...receipt, ...patch, revision: receipt.revision + 1 }`. -/
def ReceiptPatch.apply (patch : ReceiptPatch) (receipt : MailboxReceipt) : MailboxReceipt :=
  { receipt with
    delivery := patch.delivery.getD receipt.delivery
    handling := patch.handling.getD receipt.handling
    wait := patch.wait.getD receipt.wait
    policy := patch.policy.getD receipt.policy
    reason := patch.reason.getD receipt.reason
    reply := patch.reply.or receipt.reply
    tombstoned := patch.tombstoned || receipt.tombstoned
    revision := receipt.revision + 1 }

/-- How many revisions a change may find used. -/
def ReceiptPatch.ceiling (patch : ReceiptPatch) : ℕ :=
  if patch.tombstoned then MailboxLimits.revisions
  else if patch.handling = some .refused ∨ patch.handling = some .replied then
    MailboxLimits.revisions - 2
  else MailboxLimits.revisions - 6

def change (receipt : MailboxReceipt) (patch : ReceiptPatch) (fact : Fact) :
    Tx MailboxReceipt := do
  check (refuseIf (patch.ceiling ≤ receipt.revision) (failure .full))
  save (patch.apply receipt) fact

def conflict {α : Type} (receipt : MailboxReceipt) : Tx α :=
  if receipt.revision < MailboxLimits.revisions - 6 then do
    let _ ← attempt (change receipt .none .conflict)
    refuse (failure .conflict)
  else refuse (failure .conflict)

def expire (record : MailboxRecord) (now : ℕ) : Tx MailboxRecord :=
  if now < record.receipt.expiresAt ∨ record.receipt.tombstoned
      ∨ record.receipt.delivery = .expired then
    pure record
  else do
    let receipt ← save
      { record.receipt with
        revision := record.receipt.revision + 1
        delivery := .expired
        reason := .expired
        wait := record.receipt.wait.settle } .transition
    pure { record with receipt := receipt }

def access (lease : PeerLease) (key : MessageKey) (now : ℕ) (subject : PeerIdentity) :
    Tx MailboxRecord := do
  let _ ← query (reader lease subject now)
  let record ← query (load key)
  check (refuseIf (record.receipt.sender ≠ subject ∧ record.receipt.recipient ≠ subject)
    (failure .denied))
  expire record now

/-! ## Routes -/

def allowed (s : MailboxState) (sender recipient : PeerIdentity) : Option PeerPolicy :=
  s.policies.get ⟨sender, recipient⟩

def putGrant (grant : PeerRouteGrant) : Tx Unit :=
  write fun s => { s with grants := s.grants.set grant.id grant }

/-- The statuses of a route. -/
inductive RouteStatus where
  | active
  | revoked
  | expired
  | invalid
  deriving DecidableEq

structure PeerRouteView where
  grant : PeerRouteGrant
  status : RouteStatus
  reason : Option PeerRouteReason

/-- An endpoint that will not take part again. -/
def EndpointState.Ended (state : EndpointState) : Prop := state = .retired ∨ state = .terminal

instance (state : EndpointState) : Decidable state.Ended := by
  unfold EndpointState.Ended
  infer_instance

def routeView (s : MailboxState) (grant : PeerRouteGrant) (now : ℕ) : PeerRouteView :=
  if grant.state = .revoked then ⟨grant, .revoked, some .routeRevoked⟩
  else if grant.expiresAt ≤ now then ⟨grant, .expired, some .routeExpired⟩
  else
    match endpoint grant.sender s, endpoint grant.recipient s with
    | .ok sender, .ok recipient =>
      if !sender.current ∨ !recipient.current ∨ sender.endpoint.state.Ended
          ∨ recipient.endpoint.state.Ended then
        ⟨grant, .invalid, some .routeEndpointRetired⟩
      else if sender.endpoint.scope ≠ grant.senderScope
          ∨ recipient.endpoint.scope ≠ grant.recipientScope then
        ⟨grant, .invalid, some .routeScopeChanged⟩
      else ⟨grant, .active, none⟩
    | _, _ => ⟨grant, .invalid, some .routeEndpointRetired⟩

def activeRoute (sender recipient : PeerIdentity) (now : ℕ) (right : RouteRight)
    (s : MailboxState) : Except PeerFailure PeerRouteView :=
  match s.grants.get ⟨sender, recipient⟩ with
  | none => .error ⟨.denied, some .routeMissing⟩
  | some grant => do
    let view := routeView s grant now
    refuseIf (view.status ≠ .active) ⟨.denied, view.reason.or (some .routeMissing)⟩
    refuseIf (right ∉ grant.rights) ⟨.denied, some .routeRightMissing⟩
    pure view

/-! ## Subscriptions -/

def subscriptionKey (input : PeerSubscriptionInput) : SubscriptionKey := ⟨input.sender, input.id⟩

def putSubscription (s : MailboxState) (subscription : PeerSubscription) : MailboxState :=
  { s with subscriptions :=
      s.subscriptions.set (subscriptionKey subscription.input) subscription }

/-- A subscription neither of whose peers may still use it. -/
def subscriptionRevoked (s : MailboxState) (input : PeerSubscriptionInput) : Bool :=
  match endpoint input.recipient s, endpoint input.sender s with
  | .ok recipient, .ok sender =>
    !recipient.current || !sender.current || recipient.endpoint.state = .retired
      || sender.endpoint.state = .retired
      || (match allowed s input.sender input.recipient with
        | none => true
        | some policy => policy.mode = .refuse)
  | _, _ => true

/-- The state of a subscription that its predicate names. -/
def Predicate.state : Predicate → EndpointState
  | .idle => .idle
  | .terminal => .terminal

/-- The reason that names the predicate. -/
def Predicate.reason : Predicate → SubscriptionReason
  | .idle => .idle
  | .terminal => .terminal

/-- An open subscription at some time: over if it is revoked, late or fulfilled. -/
def settledSubscription (s : MailboxState) (now : ℕ) (current : PeerSubscription) :
    PeerSubscription :=
  if subscriptionRevoked s current.input then
    { current with wait := .settled, reason := some .revoked }
  else if current.input.deadline ≤ now then
    { current with wait := .timedOut, reason := some .expired }
  else
    match endpoint current.input.recipient s with
    | .error _ => current
    | .ok recipient =>
      if recipient.endpoint.state = .terminal
          ∨ (recipient.endpoint.state = current.input.predicate.state
            ∧ now < recipient.endpoint.leaseUntil) then
        { current with
          wait := .settled
          reason := some (if recipient.endpoint.state = .terminal then .terminal
            else current.input.predicate.reason)
          observation := some recipient.endpoint }
      else current

/-- The open subscriptions. -/
def openSubscriptions (s : MailboxState) : List PeerSubscription :=
  (s.subscriptions.entries.map Prod.snd).filter fun subscription => subscription.wait = .open

def settleSubscriptions (now : ℕ) (s : MailboxState) : MailboxState :=
  ((openSubscriptions s).take MailboxLimits.waiters).foldl
    (fun s current => putSubscription s (settledSubscription s now current)) s

def getSubscription (key : SubscriptionKey) (s : MailboxState) :
    Except PeerFailure PeerSubscription :=
  match s.subscriptions.get key with
  | none => .error (failure .notFound)
  | some subscription => .ok subscription

/-- The checks of `subscribe` on the peers. -/
def checkSubscribers (lease : PeerLease) (input : PeerSubscriptionInput) (now : ℕ)
    (s : MailboxState) : Except PeerFailure Unit := do
  let caller ← owner lease now false s
  match endpoint input.recipient s with
  | .error _ => .error (failure .stale)
  | .ok recipient =>
    refuseIf (!recipient.current) (failure .stale)
    refuseIf (input.recipient ≠ lease.identity
      ∧ ¬ (input.sender = lease.identity ∧ recipient.endpoint.state = .terminal))
      (failure .denied)
    match endpoint input.sender s with
    | .error _ => .error (failure .denied)
    | .ok sender =>
      refuseIf (!sender.current ∨ sender.endpoint.scope ≠ recipient.endpoint.scope
        ∨ caller.scope ≠ recipient.endpoint.scope ∨ sender.endpoint.leaseUntil ≤ now)
        (failure .denied)
      match allowed s input.sender input.recipient with
      | none => .error (failure .denied)
      | some policy => refuseIf (policy.mode = .refuse) (failure .denied)

/-- The room for one more subscription. -/
def checkSubscriptionRoom (ports : MailboxPorts) (s : MailboxState) : Except PeerFailure Unit := do
  let rows := s.subscriptions.entries.map Prod.snd
  refuseIf (MailboxLimits.retainedBytes < (rows.map ports.subscriptionBytes).sum + 4096)
    (failure .full)
  refuseIf (MailboxLimits.waiters ≤ (openSubscriptions s).length) (failure .full)

def subscribe (ports : MailboxPorts) (lease : PeerLease) (input : PeerSubscriptionInput)
    (now : ℕ) : Tx PeerSubscription := do
  check (refuseIf (ports.subscriptionFormat input = false) (failure .invalid))
  query (checkSubscribers lease input now)
  let previous ← attempt (query (getSubscription (subscriptionKey input)))
  match previous with
  | .ok previous =>
    check (refuseIf (previous.input ≠ input) (failure .conflict))
    write (settleSubscriptions now)
    query (getSubscription (subscriptionKey input))
  | .error _ =>
    check (refuseIf (input.deadline ≤ now ∨ now + MailboxLimits.admissionMs < input.deadline)
      (failure .expired))
    write (settleSubscriptions now)
    query (checkSubscriptionRoom ports)
    write fun s => putSubscription s ⟨input, .open, none, none⟩
    write (settleSubscriptions now)
    query (getSubscription (subscriptionKey input))

def subscription (lease : PeerLease) (sender : PeerIdentity) (id : String) (now : ℕ) :
    Tx PeerSubscription := do
  let _ ← query (owner lease now false)
  let prior ← query (getSubscription ⟨sender, id⟩)
  check (refuseIf (lease.identity ≠ prior.input.sender ∧ lease.identity ≠ prior.input.recipient)
    (failure .denied))
  write (settleSubscriptions now)
  query (getSubscription ⟨sender, id⟩)

def cancelSubscription (lease : PeerLease) (id : String) (now : ℕ) : Tx PeerSubscription := do
  let _ ← query (owner lease now false)
  let _ ← query (getSubscription ⟨lease.identity, id⟩)
  write (settleSubscriptions now)
  let record ← query (getSubscription ⟨lease.identity, id⟩)
  if record.wait ≠ .open then pure record
  else
    let cancelled : PeerSubscription :=
      { record with wait := .cancelledLocally, reason := some .cancelledLocally }
    write fun s => putSubscription s cancelled
    pure cancelled

/-! ## Notifications -/

structure PeerNotice where
  key : MessageKey
  reason : NotificationKind
  receipt : MailboxReceipt

/-- The lane of a message is not muted: a grant stands in for a row. -/
def Unmuted (s : MailboxState) (key : MessageKey) : Prop :=
  match allowed s key.sender key.recipient with
  | some policy => policy.muted = false
  | none => s.grants.get ⟨key.sender, key.recipient⟩ ≠ none

instance (s : MailboxState) (key : MessageKey) : Decidable (Unmuted s key) := by
  unfold Unmuted
  split <;> infer_instance

/-- The rows that `notifications` selects, in the order of their messages. -/
def pendingNotifications (me : PeerIdentity) (s : MailboxState) : List Notification :=
  s.messages.keys.flatMap fun key =>
    (s.notifications.entries.filter fun entry => entry.1.key = key ∧ entry.1.endpoint = me
      ∧ entry.2 = false ∧ Unmuted s key).map Prod.fst

/-- `UPDATE peer_notifications SET consumed=1`. -/
def consume (row : Notification) : Tx Unit :=
  write fun s => { s with notifications := s.notifications.set row true }

/-- One row of the loop of `notifications`. -/
def takeNotice (notices : List PeerNotice) (row : Notification) : Tx (List PeerNotice) := do
  let loaded ← query (load row.key)
  if row.kind = .arrival ∧ loaded.receipt.policy ≠ .allowed then pure notices
  else
    consume row
    pure (notices ++ [⟨row.key, row.kind, loaded.receipt⟩])

def notifications (lease : PeerLease) (now : ℕ) : Tx (List PeerNotice) := do
  let _ ← query (owner lease now false)
  let rows ← query fun s => .ok ((pendingNotifications lease.identity s).take MailboxLimits.pending)
  rows.foldlM takeNotice []

/-! ## Proposing and admitting -/

/-- A message to another scope needs a grant; the answer says whether it crosses scopes. -/
def checkScopes (recipient : PeerEndpoint) (message : PeerMessage) (now : ℕ) (receiving : Bool)
    (route : Option PeerRouteProof) (s : MailboxState) : Except PeerFailure Bool :=
  if recipient.scope = message.scope then .ok false
  else do
    let granted ← activeRoute message.sender message.recipient now .send s
    refuseIf (receiving ∧ route ≠ some ⟨granted.grant.id, granted.grant.revision⟩)
      ⟨.stale, some .routeStale⟩
    refuseIf (message.artifacts ≠ []) ⟨.denied, some .crossScopeArtifact⟩
    pure true

/-- The endpoints and scopes of a message allow it; the answer says whether it crosses scopes. -/
def checkLane (lease : PeerLease) (message : PeerMessage) (now : ℕ) (receiving : Bool)
    (route : Option PeerRouteProof) (s : MailboxState) : Except PeerFailure Bool := do
  let _ ← owner lease now false s
  refuseIf (lease.identity ≠ if receiving then message.recipient else message.sender)
    (failure .denied)
  match endpoint message.sender s, endpoint message.recipient s with
  | .ok sender, .ok recipient =>
    refuseIf (!sender.current ∨ !recipient.current) (failure .stale)
    refuseIf (sender.endpoint.scope ≠ message.scope) ⟨.denied, some .scopeMismatch⟩
    let crossScope ← checkScopes recipient.endpoint message now receiving route s
    refuseIf (sender.endpoint.state.Ended ∨ recipient.endpoint.state.Ended) (failure .stale)
    pure crossScope
  | _, _ => .error (failure .unavailable)

/-- The policy a message is admitted under: a grant stands in for a row that allows. -/
def admissionPolicy (s : MailboxState) (message : PeerMessage) (crossScope : Bool) :
    Option PeerPolicy :=
  (allowed s message.sender message.recipient).or
    (if crossScope then some ⟨.allow, false, MailboxLimits.sendsPerMinute⟩ else none)

/-- A message that counts against its recipient's queue. -/
def MessageRow.Queued (row : MessageRow) (recipient : PeerIdentity) (now : ℕ) : Prop :=
  row.receipt.recipient = recipient ∧ now < row.expiresAt ∧ row.receipt.tombstoned = false
    ∧ ¬ row.receipt.handling.Closed

instance (row : MessageRow) (recipient : PeerIdentity) (now : ℕ) :
    Decidable (row.Queued recipient now) := by
  unfold MessageRow.Queued
  infer_instance

/-- The rows of `peer_messages`. -/
def MailboxState.rows (s : MailboxState) : List MessageRow := s.messages.entries.map Prod.snd

/-- A new message finds room, and its lane is ahead of what the recipient has. -/
def checkRoom (ports : MailboxPorts) (message : PeerMessage) (policy : PeerPolicy) (now : ℕ)
    (s : MailboxState) : Except PeerFailure Unit := do
  let bytes := ports.messageBytes message
  let queued := s.rows.filter fun row => row.Queued message.recipient now
  refuseIf (MailboxLimits.pending ≤ queued.length
    ∨ MailboxLimits.queuedBytes < (queued.map MessageRow.bytes).sum + bytes) (failure .full)
  let retained := s.rows.filter fun row => row.receipt.recipient = message.recipient
    ∨ row.receipt.sender = message.sender
  let total := (retained.map fun row =>
    MailboxLimits.lineageBytes + (row.payload.map ports.messageBytes).getD 0).sum
  refuseIf (MailboxLimits.retainedBytes < total + bytes + MailboxLimits.lineageBytes)
    (failure .full)
  let recent := s.rows.filter fun row => row.receipt.sender = message.sender
    ∧ now < row.insertedAt + 60000
  refuseIf (min MailboxLimits.sendsPerMinute policy.perMinute ≤ recent.length)
    (failure .rateLimited)
  let recipients := recent.map fun row => row.receipt.recipient
  refuseIf (MailboxLimits.fanOut ≤ recipients.dedup.length ∧ message.recipient ∉ recipients)
    (failure .full)
  let lane := s.rows.filter fun row => row.receipt.sender = message.sender
    ∧ row.receipt.recipient = message.recipient
  refuseIf (message.laneSequence ≤ (lane.map MessageRow.laneSequence).foldr max 0)
    (failure .stale)

/-- The checks on a message that is to be written; the answer is the policy it falls under. -/
def checkMessage (ports : MailboxPorts) (message : PeerMessage) (now : ℕ) (receiving : Bool)
    (available : PeerArtifact → Bool) (crossScope isNew : Bool) (s : MailboxState) :
    Except PeerFailure PeerPolicy := do
  refuseIf (message.expiresAt ≤ now) (failure .expired)
  refuseIf (now + 5000 < message.createdAt) (failure .invalid)
  refuseIf (∃ artifact ∈ message.artifacts, available artifact = false) (failure .denied)
  match admissionPolicy s message crossScope with
  | none => .error (failure .denied)
  | some policy =>
    refuseIf (policy.mode = .refuse) (failure .denied)
    let sender ← endpoint message.sender s
    refuseIf (receiving ∧ (sender.endpoint.leaseUntil ≤ now ∨ sender.endpoint.state = .offline))
      (failure .stale)
    if isNew then checkRoom ports message policy now s else pure ()
    pure policy

/-- A record that the reply may answer. -/
def MailboxRecord.Answerable (record : MailboxRecord) (reply : PeerMessage) : Prop :=
  record.message.map PeerMessage.kind = some .request ∧ record.receipt.policy = .allowed
    ∧ reply.expiresAt ≤ record.receipt.expiresAt ∧ ¬ record.receipt.handling.Closed

instance (record : MailboxRecord) (reply : PeerMessage) : Decidable (record.Answerable reply) := by
  unfold MailboxRecord.Answerable
  infer_instance

/-- The request that a reply answers. -/
def requestOf (message : PeerMessage) : Tx (Option MailboxRecord) :=
  if message.kind = .reply then do
    let prior ← query fun s => .ok (message.correlation.bind fun correlation =>
      s.messages.get ⟨message.recipient, message.sender, correlation⟩)
    match prior with
    | none => refuse (failure .conflict)
    | some row =>
      if (MailboxRecord.mk row.receipt row.payload).Answerable message then
        pure (some ⟨row.receipt, row.payload⟩)
      else conflict row.receipt
  else pure none

/-- The policy and the reason a receipt is written with. -/
def PolicyMode.receiptPolicy (mode : PolicyMode) : ReceiptPolicy × ReceiptReason :=
  if mode = .hold then (.held, .held) else (.allowed, .none)

/-- The receipt of a message that is admitted after it was proposed. -/
def admittedReceipt (receipt : MailboxReceipt) (policy : PeerPolicy) : MailboxReceipt :=
  { receipt with
    revision := receipt.revision + 1
    delivery := .acceptedForPersistence
    policy := policy.mode.receiptPolicy.1
    reason := policy.mode.receiptPolicy.2 }

/-- The first receipt of a message. -/
def firstReceipt (message : PeerMessage) (receiving : Bool) (policy : PeerPolicy) :
    MailboxReceipt where
  key := messageKey message
  messageId := message.id
  sender := message.sender
  recipient := message.recipient
  scope := message.scope
  createdAt := message.createdAt
  digest := message
  correlation := message.correlation
  expiresAt := message.expiresAt
  revision := 1
  delivery := if receiving then .acceptedForPersistence else .proposed
  handling := .unacknowledged
  wait := .open
  policy := policy.mode.receiptPolicy.1
  reason := policy.mode.receiptPolicy.2
  reply := none
  tombstoned := false

/-- The row of a new message. -/
def newRow (ports : MailboxPorts) (message : PeerMessage) (now : ℕ) (receiving : Bool)
    (receipt : MailboxReceipt) : MessageRow where
  laneSequence := message.laneSequence
  insertedAt := now
  expiresAt := message.expiresAt
  accepted := receiving
  bytes := ports.messageBytes message
  payload := some message
  receipt := receipt

/-- `UPDATE peer_delivery_attempts SET outcome='accepted' … WHERE outcome='started'`. -/
def MailboxState.acceptAttempts (s : MailboxState) (key : MessageKey) (now : ℕ) : MailboxState :=
  { s with attempts := s.attempts.map fun row =>
      if row.key = key ∧ row.outcome = .started then
        { row with outcome := .accepted, finishedAt := some now } else row }

/-- What the admission of a reply writes on the receipt of its request. -/
def repliedPatch (receipt : MailboxReceipt) (reply : MessageKey) : ReceiptPatch :=
  { ReceiptPatch.none with
    handling := some .replied
    reply := some reply
    wait := some receipt.wait.settle }

/-- The writes of `persist`, after all its checks. -/
def writeMessage (ports : MailboxPorts) (message : PeerMessage) (now : ℕ) (receiving : Bool)
    (policy : PeerPolicy) (existing : Option MessageRow) (original : Option MailboxRecord) :
    Tx MailboxReceipt := do
  let key := messageKey message
  let receipt := match existing with
    | some row => admittedReceipt row.receipt policy
    | none => firstReceipt message receiving policy
  write fun s => match existing with
    | some _ => s.updateMessage key fun row => { row with accepted := true }
    | none => s.putMessage key (newRow ports message now receiving receipt)
  let _ ← save receipt .transition
  write fun s => if receiving then s.acceptAttempts key now else s
  match if receiving then original else none with
  | none => pure receipt
  | some original =>
    let settled ← attempt
      (change original.receipt (repliedPatch original.receipt key) .transition)
    match settled with
    | .error _ => abort .replySettlementFailed
    | .ok _ => pure receipt

/-- `persist`, once it is known whether the message is already there. -/
def admitMessage (ports : MailboxPorts) (message : PeerMessage) (now : ℕ) (receiving : Bool)
    (available : PeerArtifact → Bool) (crossScope : Bool) (existing : Option MessageRow) :
    Tx MailboxReceipt := do
  let policy ← query
    (checkMessage ports message now receiving available crossScope existing.isNone)
  let original ← requestOf message
  writeMessage ports message now receiving policy existing original

def persist (ports : MailboxPorts) (lease : PeerLease) (message : PeerMessage) (now : ℕ)
    (receiving : Bool) (route : Option PeerRouteProof) (available : PeerArtifact → Bool) :
    Tx MailboxReceipt := do
  check (refuseIf (ports.messageFormat message = false ∨ ¬ message.Refined
    ∨ MailboxLimits.envelopeBytes < ports.messageBytes message) (failure .invalid))
  let crossScope ← query (checkLane lease message now receiving route)
  let existing ← query fun s => .ok (s.messages.get (messageKey message))
  match existing with
  | none => admitMessage ports message now receiving available crossScope none
  | some row =>
    if row.receipt.digest ≠ message then conflict row.receipt
    else if receiving = false ∨ ¬ row.receipt.delivery.Pending then do
      let record ← expire ⟨row.receipt, row.payload⟩ now
      pure record.receipt
    else admitMessage ports message now receiving available crossScope (some row)

def propose (ports : MailboxPorts) (lease : PeerLease) (message : PeerMessage) (now : ℕ)
    (available : PeerArtifact → Bool) : Tx MailboxReceipt :=
  persist ports lease message now false none available

/-- `admit`. -/
def admitPeer (ports : MailboxPorts) (lease : PeerLease) (message : PeerMessage) (now : ℕ)
    (route : Option PeerRouteProof) (available : PeerArtifact → Bool) : Tx MailboxReceipt :=
  persist ports lease message now true route available

/-! ## Delivery -/

/-- The phases of a delivery attempt. -/
inductive AttemptPhase where
  | started
  | unavailable

/-- The last attempt to deliver a message. -/
def lastAttempt (key : MessageKey) (s : MailboxState) : Option DeliveryAttempt :=
  (s.attempts.filter fun row => row.key = key).getLast?

/-- `UPDATE peer_delivery_attempts SET outcome='unavailable' … WHERE id = key AND attempt = attempt`. -/
def endAttempt (key : MessageKey) (attempt now : ℕ) : Tx Unit :=
  write fun s => { s with attempts := s.attempts.map fun row =>
    if row.key = key ∧ row.attempt = attempt then
      { row with outcome := .unavailable, finishedAt := some now } else row }

/-- `INSERT INTO peer_delivery_attempts`. -/
def startAttempt (key : MessageKey) (attempt now : ℕ) : Tx Unit :=
  write fun s => { s with attempts := s.attempts ++ [⟨key, attempt, now, none, .started⟩] }

/-- Delivery is given up. -/
def failedPatch (receipt : MailboxReceipt) : ReceiptPatch :=
  { ReceiptPatch.none with
    delivery := some .failed
    reason := some .transportUnavailable
    wait := some receipt.wait.settle }

def deliveryAttempt (lease : PeerLease) (key : MessageKey) (phase : AttemptPhase) (now : ℕ) :
    Tx MailboxReceipt := do
  let loaded ← access lease key now lease.identity
  let receipt := loaded.receipt
  check (refuseIf (receipt.sender ≠ lease.identity) (failure .denied))
  if ¬ receipt.delivery.Pending then pure receipt
  else
    let previous ← query fun s => .ok (lastAttempt key s)
    let attempt := (previous.map DeliveryAttempt.attempt).getD 0
    let started := previous.map DeliveryAttempt.outcome = some .started
    match phase with
    | .started =>
      check (refuseIf (started ∧ now < (previous.map DeliveryAttempt.startedAt).getD 0
        + MailboxLimits.admissionMs) (failure .conflict))
      if MailboxLimits.attempts ≤ attempt then change receipt (failedPatch receipt) .transition
      else
        if started then endAttempt key attempt now else pure ()
        startAttempt key (attempt + 1) now
        pure receipt
    | .unavailable =>
      if ¬ started then pure receipt
      else
        endAttempt key attempt now
        if MailboxLimits.attempts ≤ attempt then change receipt (failedPatch receipt) .transition
        else
          change receipt
            { ReceiptPatch.none with
              delivery := some .unavailable
              reason := some .transportUnavailable } .transition

/-! ## Endpoints that come and go -/

structure PeerRegistration where
  endpoint : PeerEndpoint
  publicKey : String
  address : String
  fence : String

/-- An endpoint that counts against the number of peers. -/
def EndpointRow.Live (row : EndpointRow) (now : ℕ) : Prop :=
  now < row.endpoint.leaseUntil ∧ (row.endpoint.state = .idle ∨ row.endpoint.state = .busy)

instance (row : EndpointRow) (now : ℕ) : Decidable (row.Live now) := by
  unfold EndpointRow.Live
  infer_instance

/-- The checks of `register` against the endpoints that are there. -/
def checkRegistration (ports : MailboxPorts) (value : PeerEndpoint) (now : ℕ)
    (s : MailboxState) : Except PeerFailure Unit := do
  let prior := s.endpoints.get value.identity
  refuseIf (∃ row ∈ prior, row.endpoint.state.Ended
    ∨ (row.endpoint.state ≠ .offline ∧ now < row.endpoint.leaseUntil)) (failure .stale)
  refuseIf (superseded s value.identity) (failure .stale)
  let rows := s.endpoints.entries.map Prod.snd
  refuseIf (prior = none ∧ MailboxLimits.peers ≤ (rows.filter fun row => row.Live now).length)
    (failure .full)
  refuseIf (prior = none ∧ MailboxLimits.registryBytes < (rows.map ports.endpointBytes).sum + 8192) (failure .full)
  refuseIf (∃ row ∈ prior, row.endpoint.scope ≠ value.scope) (failure .denied)

/-- Writes a row of `peer_endpoints`. -/
def MailboxState.putEndpoint (s : MailboxState) (identity : PeerIdentity) (row : EndpointRow) :
    MailboxState :=
  { s with endpoints := s.endpoints.set identity row }

/-- The row of an endpoint that is registered. -/
def registeredRow (registration : PeerRegistration) (now : ℕ) : EndpointRow where
  endpoint := { registration.endpoint with leaseUntil := now + MailboxLimits.leaseMs }
  publicKey := registration.publicKey
  address := registration.address
  fence := registration.fence

def register (ports : MailboxPorts) (registration : PeerRegistration) (now : ℕ) :
    Tx PeerLease := do
  check (refuseIf (ports.endpointFormat registration.endpoint = false
    ∨ 256 < registration.publicKey.length ∨ 256 < registration.address.length
    ∨ registration.fence.length < 32 ∨ 128 < registration.fence.length) (failure .invalid))
  let value := registration.endpoint
  query (checkRegistration ports value now)
  write fun s => s.putEndpoint value.identity (registeredRow registration now)
  write (settleSubscriptions now)
  pure ⟨value.identity, value.processGeneration, registration.fence⟩

/-- The messages an endpoint sent or received. -/
def messagesOf (identity : PeerIdentity) (s : MailboxState) : List MessageKey :=
  s.messages.keys.filter fun key => key.recipient = identity ∨ key.sender = identity

/-- The receipt of a message whose sender or recipient ends. -/
def endedReceipt (receipt : MailboxReceipt) (state : EndpointState) (inbound : Bool) :
    MailboxReceipt :=
  { receipt with
    revision := receipt.revision + 1
    policy := if state = .retired then .revoked else .refused
    handling := if inbound then .refused else receipt.handling
    reason := if state = .retired then .revoked else .refused
    wait := if receipt.wait = .open then
      if inbound then .settled else .cancelledLocally else receipt.wait }

/-- The receipt of a message that waits for a recipient who went offline. -/
def queuedReceipt (receipt : MailboxReceipt) : MailboxReceipt :=
  { receipt with
    revision := receipt.revision + 1
    delivery := .queued
    reason := .offline }

/-- What `renew` does to one message of an endpoint that goes offline or ends. -/
def renewMessage (identity : PeerIdentity) (state : EndpointState) (key : MessageKey) :
    Tx Unit := do
  let loaded ← attempt (query (load key))
  match loaded with
  | .error _ => abort .corruptRetirement
  | .ok record =>
    let receipt := record.receipt
    if receipt.delivery = .expired then pure ()
    else if state = .offline then
      if receipt.recipient = identity ∧ receipt.delivery = .acceptedForPersistence then do
        let _ ← save (queuedReceipt receipt) .transition
        pure ()
      else pure ()
    else if state = .terminal ∧ receipt.recipient ≠ identity then pure ()
    else if receipt.tombstoned = false ∧ ¬ receipt.handling.Closed then do
      let _ ← save (endedReceipt receipt state (receipt.recipient = identity)) .transition
      pure ()
    else pure ()

def renew (ports : MailboxPorts) (lease : PeerLease) (state : EndpointState) (now : ℕ)
    (label : Option String) : Tx PeerEndpoint := do
  let prior ← query (owner lease now false)
  check (refuseIf (prior.state = .terminal ∧ state ≠ .terminal) (failure .stale))
  let updated := { prior with
    state := state
    label := label.getD prior.label
    leaseUntil := now + MailboxLimits.leaseMs }
  check (refuseIf (ports.endpointFormat updated = false) (failure .invalid))
  write fun s => match s.endpoints.get lease.identity with
    | none => s
    | some row => s.putEndpoint lease.identity { row with endpoint := updated }
  if state = .retired ∨ state = .terminal ∨ state = .offline then
    let keys ← query fun s => .ok (messagesOf lease.identity s)
    keys.forM (renewMessage lease.identity state)
  else pure ()
  write (settleSubscriptions now)
  pure updated

/-! ## Policies and routes -/

/-- The messages of one lane. -/
def laneOf (sender recipient : PeerIdentity) (s : MailboxState) : List MessageKey :=
  s.messages.keys.filter fun key => key.sender = sender ∧ key.recipient = recipient

/-- What a policy that holds writes on a receipt. -/
def heldPatch : ReceiptPatch :=
  { ReceiptPatch.none with policy := some .held, reason := some .held }

/-- What a policy that refuses writes on a receipt. -/
def refusedPatch (receipt : MailboxReceipt) : ReceiptPatch :=
  { ReceiptPatch.none with
    policy := some .refused
    reason := some .refused
    handling := some .refused
    wait := some receipt.wait.settle }

/-- What `policy` does to one message of the lane. -/
def policyMessage (mode : PolicyMode) (key : MessageKey) : Tx Unit := do
  let loaded ← attempt (query (load key))
  match loaded with
  | .error _ => abort .invalidPolicyEvidence
  | .ok record =>
    let receipt := record.receipt
    if receipt.tombstoned ∨ receipt.handling.Closed then pure ()
    else if receipt.policy = if mode = .hold then .held else .refused then pure ()
    else do
      let changed ← attempt
        (change receipt (if mode = .hold then heldPatch else refusedPatch receipt) .transition)
      match changed with
      | .error _ => abort .policyRevisionCapacity
      | .ok _ => pure ()

/-- `policy`. -/
def setPolicy (lease : PeerLease) (sender : PeerIdentity) (policy : PeerPolicy) (now : ℕ) :
    Tx Unit := do
  check (refuseIf (policy.perMinute < 1 ∨ MailboxLimits.sendsPerMinute < policy.perMinute)
    (failure .invalid))
  let recipient ← query (owner lease now false)
  let remote ← query (endpoint sender)
  query fun s => refuseIf (recipient.scope ≠ remote.endpoint.scope
    ∧ s.grants.get ⟨sender, lease.identity⟩ = none) ⟨.denied, some .routeMissing⟩
  write fun s => { s with policies := s.policies.set ⟨sender, lease.identity⟩ policy }
  if policy.mode ≠ .allow then
    let keys ← query fun s => .ok (laneOf sender lease.identity s)
    keys.forM (policyMessage policy.mode)
  else pure ()
  write (settleSubscriptions now)

/-- What `grantRoute` is given. -/
structure GrantInput where
  expectedRevision : ℕ
  expiresAt : ℕ
  rights : List RouteRight

/-- The grants in force that an endpoint takes part in. -/
def activeGrants (me : PeerIdentity) (now : ℕ) (s : MailboxState) : List PeerRouteGrant :=
  (s.grants.entries.map Prod.snd).filter fun grant => grant.state = .active
    ∧ now < grant.expiresAt ∧ (grant.recipient = me ∨ grant.sender = me)

/-- The endpoints of a route that is to be granted. -/
def checkGrant (lease : PeerLease) (sender : PeerIdentity) (input : GrantInput) (now : ℕ)
    (s : MailboxState) : Except PeerFailure PeerRouteGrant := do
  let recipient ← owner lease now false s
  refuseIf (sender = lease.identity) (failure .invalid)
  match endpoint sender s with
  | .error _ => .error ⟨.unsupported, some .notInRegistry⟩
  | .ok remote =>
    refuseIf (!remote.current ∨ remote.endpoint.state.Ended) ⟨.stale, some .routeEndpointRetired⟩
    refuseIf (remote.endpoint.scope = recipient.scope) ⟨.invalid, some .sameScope⟩
    let prior := s.grants.get ⟨sender, lease.identity⟩
    let revision := (prior.map PeerRouteGrant.revision).getD 0
    refuseIf (revision ≠ input.expectedRevision) ⟨.stale, some .routeStale⟩
    refuseIf ((∀ grant ∈ prior, grant.state ≠ .active ∨ grant.expiresAt ≤ now)
      ∧ MailboxLimits.peers ≤ (activeGrants lease.identity now s).length) (failure .full)
    pure
      { id := ⟨sender, lease.identity⟩
        sender := sender
        recipient := lease.identity
        senderScope := remote.endpoint.scope
        recipientScope := recipient.scope
        rights := input.rights.dedup
        revision := revision + 1
        state := .active
        grantedAt := now
        expiresAt := input.expiresAt
        changedAt := now }

def grantRoute (lease : PeerLease) (sender : PeerIdentity) (input : GrantInput) (now : ℕ) :
    Tx PeerRouteView := do
  check (refuseIf (input.rights = [] ∨ input.expiresAt ≤ now
    ∨ now + MailboxLimits.expiryMs < input.expiresAt) (failure .invalid))
  let grant ← query (checkGrant lease sender input now)
  putGrant grant
  query fun s => .ok (routeView s grant now)

/-- Which of its two routes with a peer an endpoint means. -/
inductive RouteDirection where
  | incoming
  | outgoing

/-- The grant that `revokeRoute` means. -/
def selectGrant (lease : PeerLease) (peer : PeerIdentity) (direction : Option RouteDirection)
    (s : MailboxState) : Except PeerFailure PeerRouteGrant := do
  let incoming := s.grants.get ⟨peer, lease.identity⟩
  let outgoing := s.grants.get ⟨lease.identity, peer⟩
  refuseIf (direction = none ∧ incoming ≠ none ∧ outgoing ≠ none)
    ⟨.invalid, some .routeAmbiguous⟩
  let selected := match direction with
    | some .incoming => incoming
    | some .outgoing => outgoing
    | none => incoming.or outgoing
  match selected with
  | none => .error ⟨.notFound, some .routeMissing⟩
  | some grant => .ok grant

/-- The messages of a lane that its recipient has not admitted. -/
def unadmittedOf (grant : PeerRouteGrant) (s : MailboxState) : List MessageKey :=
  (laneOf grant.sender grant.recipient s).filter fun key =>
    (s.messages.get key).map MessageRow.accepted = some false

/-- What a revoked route writes on a receipt. -/
def revokedPatch (receipt : MailboxReceipt) : ReceiptPatch :=
  { ReceiptPatch.none with
    policy := some .revoked
    reason := some .revoked
    wait := some receipt.wait.settle }

/-- What `revokeRoute` does to one message of the lane. -/
def revokeMessage (key : MessageKey) : Tx Unit := do
  let loaded ← attempt (query (load key))
  match loaded with
  | .error _ => abort .corruptRouteEvidence
  | .ok record =>
    let receipt := record.receipt
    if receipt.tombstoned ∨ receipt.policy = .revoked ∨ ¬ receipt.delivery.Pending then pure ()
    else do
      let changed ← attempt (change receipt (revokedPatch receipt) .transition)
      match changed with
      | .error _ => abort .routeRevisionCapacity
      | .ok _ => pure ()

/-- A grant that is withdrawn. -/
def PeerRouteGrant.revoke (grant : PeerRouteGrant) (now : ℕ) : PeerRouteGrant :=
  { grant with state := .revoked, revision := grant.revision + 1, changedAt := now }

def revokeRoute (lease : PeerLease) (peer : PeerIdentity) (direction : Option RouteDirection)
    (expectedRevision now : ℕ) : Tx PeerRouteView := do
  let _ ← query (owner lease now true)
  let grant ← query (selectGrant lease peer direction)
  check (refuseIf (grant.revision ≠ expectedRevision) ⟨.stale, some .routeStale⟩)
  if grant.state = .revoked then query fun s => .ok (routeView s grant now)
  else
    putGrant (grant.revoke now)
    let keys ← query fun s => .ok (unadmittedOf grant s)
    keys.forM revokeMessage
    query fun s => .ok (routeView s (grant.revoke now) now)

/-! ## Receipts the peers change -/

/-- What an acknowledgement writes on a receipt. -/
def ackPatch (receipt : MailboxReceipt) : AckKind → ReceiptPatch
  | .delivered => { ReceiptPatch.none with delivery := some .deliveredToEndpoint }
  | .processing =>
    { ReceiptPatch.none with
      delivery := some .deliveredToEndpoint
      handling := some .processingAcknowledged }
  | .refused =>
    { ReceiptPatch.none with
      handling := some .refused
      reason := some .refused
      wait := some receipt.wait.settle }

/-- The receipt says already what the acknowledgement says. -/
def MailboxReceipt.Acknowledged (receipt : MailboxReceipt) : AckKind → Prop
  | .delivered => receipt.delivery = .deliveredToEndpoint
  | .processing => receipt.handling = .processingAcknowledged
  | .refused => False

instance (receipt : MailboxReceipt) : ∀ kind : AckKind, Decidable (receipt.Acknowledged kind)
  | .delivered => inferInstanceAs (Decidable (_ = _))
  | .processing => inferInstanceAs (Decidable (_ = _))
  | .refused => .isFalse id

def acknowledge (lease : PeerLease) (ack : DeliveryAck) (now : ℕ) : Tx MailboxReceipt := do
  let loaded ← access lease ack.key now lease.identity
  let receipt := loaded.receipt
  check (refuseIf (lease.identity ≠ receipt.recipient ∨ ack.recipient ≠ lease.identity
    ∨ ack.processGeneration ≠ lease.processGeneration) (failure .denied))
  check (refuseIf (receipt.policy ≠ .allowed ∧ ack.kind ≠ .refused) (failure .held))
  check (refuseIf (receipt.delivery = .proposed) (failure .unavailable))
  check (refuseIf (receipt.delivery = .expired) (failure .expired))
  if receipt.handling.Closed then
    if receipt.handling = .refused ∧ ack.kind = .refused then pure receipt else conflict receipt
  else if receipt.Acknowledged ack.kind then pure receipt
  else change receipt (ackPatch receipt ack.kind) .transition

def inspect (lease : PeerLease) (key : MessageKey) (now : ℕ) (reviewHeld : Bool)
    (subject : PeerIdentity) : Tx MailboxRecord := do
  let record ← access lease key now subject
  pure { record with message :=
    if record.receipt.policy = .held ∧ reviewHeld = false
        ∧ lease.identity = record.receipt.recipient then none else record.message }

/-- The ways a sender stops waiting. -/
inductive LocalWait where
  | timedOut
  | cancelledLocally

/-- The wait a sender that stops waiting leaves. -/
def LocalWait.wait : LocalWait → Wait
  | .timedOut => .timedOut
  | .cancelledLocally => .cancelledLocally

def localWait (lease : PeerLease) (key : MessageKey) (state : LocalWait) (now : ℕ) :
    Tx MailboxReceipt := do
  let loaded ← access lease key now lease.identity
  let receipt := loaded.receipt
  check (refuseIf (receipt.sender ≠ lease.identity) (failure .denied))
  if receipt.wait ≠ .open then pure receipt
  else change receipt { ReceiptPatch.none with wait := some state.wait } .transition

def release (lease : PeerLease) (key : MessageKey) (now : ℕ) : Tx MailboxReceipt := do
  let loaded ← access lease key now lease.identity
  let receipt := loaded.receipt
  check (refuseIf (receipt.recipient ≠ lease.identity) (failure .denied))
  query fun s => refuseIf
    ((allowed s receipt.sender receipt.recipient).map PeerPolicy.mode ≠ some .allow)
    (failure .denied)
  if receipt.policy = .held then
    change receipt
      { ReceiptPatch.none with policy := some .allowed, reason := some .none } .transition
  else pure receipt

def cleanup (lease : PeerLease) (key : MessageKey) (now : ℕ) : Tx MailboxReceipt := do
  let loaded ← access lease key now lease.identity
  let receipt := loaded.receipt
  if receipt.tombstoned then pure receipt
  else
    check (refuseIf (now < receipt.expiresAt
      ∨ loaded.message.map PeerMessage.retention = some .policyHold ∨ receipt.policy = .held)
      (failure .held))
    let result ← change receipt
      { ReceiptPatch.none with tombstoned := true, reason := some .cleaned } .transition
    write fun s => s.updateMessage key fun row => { row with payload := none, bytes := 0 }
    pure result

/-! ## Transactions in any order -/

/-- A transaction of some peer, with what it is given. -/
inductive Operation where
  | register (registration : PeerRegistration) (now : ℕ)
  | renew (lease : PeerLease) (state : EndpointState) (now : ℕ) (label : Option String)
  | policy (lease : PeerLease) (sender : PeerIdentity) (policy : PeerPolicy) (now : ℕ)
  | grantRoute (lease : PeerLease) (sender : PeerIdentity) (input : GrantInput) (now : ℕ)
  | revokeRoute (lease : PeerLease) (peer : PeerIdentity) (direction : Option RouteDirection)
      (expectedRevision now : ℕ)
  | propose (lease : PeerLease) (message : PeerMessage) (now : ℕ) (available : PeerArtifact → Bool)
  | admitPeer (lease : PeerLease) (message : PeerMessage) (now : ℕ)
      (route : Option PeerRouteProof) (available : PeerArtifact → Bool)
  | deliveryAttempt (lease : PeerLease) (key : MessageKey) (phase : AttemptPhase) (now : ℕ)
  | subscribe (lease : PeerLease) (input : PeerSubscriptionInput) (now : ℕ)
  | subscription (lease : PeerLease) (sender : PeerIdentity) (id : String) (now : ℕ)
  | cancelSubscription (lease : PeerLease) (id : String) (now : ℕ)
  | notifications (lease : PeerLease) (now : ℕ)
  | acknowledge (lease : PeerLease) (ack : DeliveryAck) (now : ℕ)
  | inspect (lease : PeerLease) (key : MessageKey) (now : ℕ) (reviewHeld : Bool)
      (subject : PeerIdentity)
  | localWait (lease : PeerLease) (key : MessageKey) (state : LocalWait) (now : ℕ)
  | release (lease : PeerLease) (key : MessageKey) (now : ℕ)
  | cleanup (lease : PeerLease) (key : MessageKey) (now : ℕ)

/-- Runs a transaction and forgets its answer. -/
def perform (ports : MailboxPorts) : Operation → Tx Unit
  | .register registration now => do let _ ← register ports registration now
  | .renew lease state now label => do let _ ← renew ports lease state now label
  | .policy lease sender policy now => setPolicy lease sender policy now
  | .grantRoute lease sender input now => do let _ ← grantRoute lease sender input now
  | .revokeRoute lease peer direction expectedRevision now => do
    let _ ← revokeRoute lease peer direction expectedRevision now
  | .propose lease message now available => do let _ ← propose ports lease message now available
  | .admitPeer lease message now route available => do
    let _ ← admitPeer ports lease message now route available
  | .deliveryAttempt lease key phase now => do let _ ← deliveryAttempt lease key phase now
  | .subscribe lease input now => do let _ ← subscribe ports lease input now
  | .subscription lease sender id now => do let _ ← subscription lease sender id now
  | .cancelSubscription lease id now => do let _ ← cancelSubscription lease id now
  | .notifications lease now => do let _ ← notifications lease now
  | .acknowledge lease ack now => do let _ ← acknowledge lease ack now
  | .inspect lease key now reviewHeld subject => do
    let _ ← inspect lease key now reviewHeld subject
  | .localWait lease key state now => do let _ ← localWait lease key state now
  | .release lease key now => do let _ ← release lease key now
  | .cleanup lease key now => do let _ ← cleanup lease key now

/-- A transaction in its turn: it commits what it wrote unless it throws. -/
def step (ports : MailboxPorts) (s : MailboxState) (operation : Operation) :
    Option MailboxState :=
  some (commit (perform ports operation) s)

end Falryn.Orchestration.Mailbox
