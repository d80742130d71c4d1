import Mathlib

/-!
# Peer messages and their receipts

The data of `domain/orchestration/peer-mailbox.ts`: peers and the endpoints they register, messages,
the receipt that follows a message, and the grants that let a peer write across scopes.  A canonical
digest stands for the value it is taken of, so a message is its own digest and a key is the pair of
peers with the message's id.
-/

namespace Falryn.Orchestration.Mailbox

/-! ## Limits -/

namespace MailboxLimits

def envelopeBytes : ℕ := 32768
def pending : ℕ := 64
def queuedBytes : ℕ := 1048576
def peers : ℕ := 256
def waiters : ℕ := 64
def attachmentBytes : ℕ := 1048576
def fanOut : ℕ := 16
def sendsPerMinute : ℕ := 64
def revisions : ℕ := 16
def retainedBytes : ℕ := 16777216
def lineageBytes : ℕ := 81920
def registryBytes : ℕ := 67108864
def admissionMs : ℕ := 30000
def leaseMs : ℕ := 30000
def expiryMs : ℕ := 86400000
def attempts : ℕ := 3

end MailboxLimits

/-! ## Peers -/

structure PeerIdentity where
  sessionId : String
  agentId : String
  generation : ℕ
  deriving DecidableEq

structure PeerScope where
  workspace : String
  project : String
  user : String
  environment : String
  trust : String
  deriving DecidableEq

/-- The states of an endpoint. -/
inductive EndpointState where
  | idle
  | busy
  | offline
  | terminal
  | retired
  deriving DecidableEq

structure PeerEndpoint where
  identity : PeerIdentity
  scope : PeerScope
  label : String
  state : EndpointState
  processGeneration : String
  leaseUntil : ℕ

structure PeerLease where
  identity : PeerIdentity
  processGeneration : String
  fence : String

/-! ## Messages -/

/-- An artifact a message refers to. -/
structure PeerArtifact where
  artifactId : String
  digest : String
  bytes : ℕ
  deriving DecidableEq

/-- The kinds of messages. -/
inductive MessageKind where
  | message
  | request
  | reply
  deriving DecidableEq

/-- How long a payload is kept. -/
inductive Retention where
  | normal
  | policyHold
  deriving DecidableEq

structure PeerMessage where
  id : String
  sender : PeerIdentity
  recipient : PeerIdentity
  scope : PeerScope
  laneSequence : ℕ
  createdAt : ℕ
  expiresAt : ℕ
  kind : MessageKind
  correlation : Option String
  text : String
  artifacts : List PeerArtifact
  retention : Retention
  deriving DecidableEq

/-- The key of a message, `canonicalDigest([sender, recipient, id])`. -/
structure MessageKey where
  sender : PeerIdentity
  recipient : PeerIdentity
  id : String
  deriving DecidableEq

def messageKey (message : PeerMessage) : MessageKey :=
  ⟨message.sender, message.recipient, message.id⟩

/-- What the message schema asks of the fields together: the `refine` of `peerMessageSchema`. -/
def PeerMessage.Refined (message : PeerMessage) : Prop :=
  message.createdAt < message.expiresAt
    ∧ message.expiresAt - message.createdAt ≤ MailboxLimits.expiryMs
    ∧ (if message.kind = .reply then message.correlation ≠ none else message.correlation = none)
    ∧ (message.artifacts.map PeerArtifact.bytes).sum ≤ MailboxLimits.attachmentBytes

instance (message : PeerMessage) : Decidable message.Refined := by
  unfold PeerMessage.Refined
  infer_instance

/-! ## Receipts -/

/-- How far a message has come. -/
inductive Delivery where
  | proposed
  | acceptedForPersistence
  | queued
  | deliveredToEndpoint
  | expired
  | unavailable
  | failed
  deriving DecidableEq

/-- What the recipient has done with a message. -/
inductive Handling where
  | unacknowledged
  | processingAcknowledged
  | replied
  | refused
  deriving DecidableEq

/-- Whether the sender still waits. -/
inductive Wait where
  | open
  | settled
  | timedOut
  | cancelledLocally
  deriving DecidableEq

/-- What the policy of the recipient says of a message. -/
inductive ReceiptPolicy where
  | allowed
  | held
  | refused
  | revoked
  deriving DecidableEq

/-- The last reason recorded on a receipt. -/
inductive ReceiptReason where
  | none
  | offline
  | held
  | refused
  | revoked
  | expired
  | transportUnavailable
  | conflict
  | cleaned

structure MailboxReceipt where
  key : MessageKey
  messageId : String
  sender : PeerIdentity
  recipient : PeerIdentity
  scope : PeerScope
  createdAt : ℕ
  digest : PeerMessage
  correlation : Option String
  expiresAt : ℕ
  revision : ℕ
  delivery : Delivery
  handling : Handling
  wait : Wait
  policy : ReceiptPolicy
  reason : ReceiptReason
  reply : Option MessageKey
  tombstoned : Bool

/-- A wait that is over stays as it is, an open one is settled. -/
def Wait.settle : Wait → Wait
  | .open => .settled
  | wait => wait

/-- The recipient is done with the message: it has replied or refused. -/
def Handling.Closed (handling : Handling) : Prop := handling = .replied ∨ handling = .refused

instance (handling : Handling) : Decidable handling.Closed := by
  unfold Handling.Closed
  infer_instance

/-- The message is not yet with the recipient and may still be admitted. -/
def Delivery.Pending (delivery : Delivery) : Prop := delivery = .proposed ∨ delivery = .unavailable

instance (delivery : Delivery) : Decidable delivery.Pending := by
  unfold Delivery.Pending
  infer_instance

/-- The message has come to the recipient. -/
def Delivery.Arrived (delivery : Delivery) : Prop :=
  delivery = .acceptedForPersistence ∨ delivery = .queued ∨ delivery = .deliveredToEndpoint

instance (delivery : Delivery) : Decidable delivery.Arrived := by
  unfold Delivery.Arrived
  infer_instance

/-- What an acknowledgement says. -/
inductive AckKind where
  | delivered
  | processing
  | refused
  deriving DecidableEq

structure DeliveryAck where
  key : MessageKey
  recipient : PeerIdentity
  processGeneration : String
  kind : AckKind

/-! ## Subscriptions -/

/-- What a subscription waits for. -/
inductive Predicate where
  | idle
  | terminal
  deriving DecidableEq

/-- Why a subscription is over. -/
inductive SubscriptionReason where
  | idle
  | terminal
  | expired
  | cancelledLocally
  | revoked

structure PeerSubscriptionInput where
  id : String
  sender : PeerIdentity
  recipient : PeerIdentity
  predicate : Predicate
  deadline : ℕ
  deriving DecidableEq

structure PeerSubscription where
  input : PeerSubscriptionInput
  wait : Wait
  reason : Option SubscriptionReason
  observation : Option PeerEndpoint

/-! ## Policies and routes -/

/-- The modes of a policy. -/
inductive PolicyMode where
  | allow
  | hold
  | refuse
  deriving DecidableEq

structure PeerPolicy where
  mode : PolicyMode
  muted : Bool
  perMinute : ℕ

/-- `PEER_ROUTE_RIGHTS`. -/
inductive RouteRight where
  | discover
  | send
  deriving DecidableEq

/-- Whether a grant is in force. -/
inductive GrantState where
  | active
  | revoked
  deriving DecidableEq

/-- The two peers of a route, `peerRouteId(sender, recipient)`. -/
structure RouteId where
  sender : PeerIdentity
  recipient : PeerIdentity
  deriving DecidableEq

structure PeerRouteGrant where
  id : RouteId
  sender : PeerIdentity
  recipient : PeerIdentity
  senderScope : PeerScope
  recipientScope : PeerScope
  rights : List RouteRight
  revision : ℕ
  state : GrantState
  grantedAt : ℕ
  expiresAt : ℕ
  changedAt : ℕ

/-- The grant revision a sender presents: `PeerRouteProof`. -/
structure PeerRouteProof where
  id : RouteId
  revision : ℕ
  deriving DecidableEq

/-! ## Refusals -/

/-- `PEER_FAILURE_CODES`, the ones the store answers. -/
inductive PeerFailureCode where
  | unsupported
  | invalid
  | denied
  | stale
  | conflict
  | full
  | rateLimited
  | unavailable
  | notFound
  | expired
  | held

/-- `PEER_ROUTE_REASONS`, the ones a refusal of the store names. -/
inductive PeerRouteReason where
  | routeMissing
  | routeRevoked
  | routeExpired
  | routeScopeChanged
  | routeEndpointRetired
  | routeStale
  | routeRightMissing
  | routeAmbiguous
  | crossScopeArtifact
  | scopeMismatch
  | sameScope
  | notInRegistry

structure PeerFailure where
  code : PeerFailureCode
  reason : Option PeerRouteReason

/-- A refusal that names no reason. -/
def failure (code : PeerFailureCode) : PeerFailure := ⟨code, none⟩

end Falryn.Orchestration.Mailbox
