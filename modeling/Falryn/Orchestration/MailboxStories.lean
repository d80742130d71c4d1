import Falryn.Lib.StateMachine
import Falryn.Orchestration.MailboxStore

/-!
# The stories of messages

What the mailbox is for, told one message at a time: the story of a message is its receipt, the events
that led to it and whether its recipient was told that it arrived.  The moves of this file are all that
a transaction does to the stories, each with the state of the story it needs.
-/

namespace Falryn.Orchestration.Mailbox

/-! ## Stories -/

/-- What the store knows of one message. -/
structure Story where
  receipt : MailboxReceipt
  accepted : Bool
  payload : Option PeerMessage
  log : List MailboxEvent
  /-- The recipient has a notification of the arrival. -/
  notified : Prop

/-- The events of a message, oldest first. -/
def MailboxState.history (s : MailboxState) (key : MessageKey) : List MailboxEvent :=
  s.events.filter fun event => event.key = key

/-- The recipient of a message was told that it arrived. -/
def MailboxState.Notified (s : MailboxState) (key : MessageKey) : Prop :=
  ⟨key, key.recipient, .arrival⟩ ∈ s.notifications.keys

/-- The story of a message. -/
def MailboxState.story (s : MailboxState) (key : MessageKey) : Option Story :=
  (s.messages.get key).map fun row =>
    ⟨row.receipt, row.accepted, row.payload, s.history key, s.Notified key⟩

/-- The story after one more receipt. -/
def Story.after (story : Story) (receipt : MailboxReceipt) (fact : Fact) : Story :=
  { story with
    receipt := receipt
    log := story.log ++ [⟨receipt.key, receipt.revision, fact, receipt⟩]
    notified := story.notified ∨ (fact = .transition ∧ receipt.Announces) }

/-- The stories of all messages, and the endpoints that have retired. -/
@[ext] structure Post where
  stories : MessageKey → Option Story
  retired : PeerIdentity → Prop

/-- What the tables say. -/
def MailboxState.post (s : MailboxState) : Post where
  stories := s.story
  retired := fun identity => ∃ row, s.endpoints.get identity = some row
    ∧ row.endpoint.state = .retired

/-- One story replaced. -/
def Post.put (p : Post) (key : MessageKey) (story : Story) : Post :=
  { p with stories := Function.update p.stories key (some story) }

/-! ## Changes of one receipt -/

/-- The changes of a receipt. -/
inductive Change where
  | expired
  | conflicted
  | failed
  | unavailable
  | held
  | refused
  | revoked
  | delivered
  | processing
  | declined
  | waited (state : LocalWait)
  | released
  | cleaned

namespace Change

/-- What a change writes. -/
def patch (receipt : MailboxReceipt) : Change → ReceiptPatch
  | expired =>
    { ReceiptPatch.none with
      delivery := some .expired
      reason := some .expired
      wait := some receipt.wait.settle }
  | conflicted => .none
  | failed => failedPatch receipt
  | unavailable =>
    { ReceiptPatch.none with
      delivery := some .unavailable
      reason := some .transportUnavailable }
  | held => heldPatch
  | refused => refusedPatch receipt
  | revoked => revokedPatch receipt
  | delivered => ackPatch receipt .delivered
  | processing => ackPatch receipt .processing
  | declined => ackPatch receipt .refused
  | waited state => { ReceiptPatch.none with wait := some state.wait }
  | released => { ReceiptPatch.none with policy := some .allowed, reason := some .none }
  | cleaned => { ReceiptPatch.none with tombstoned := true, reason := some .cleaned }

/-- The receipt after a change. -/
def apply (change : Change) (receipt : MailboxReceipt) : MailboxReceipt :=
  (change.patch receipt).apply receipt

/-- What the event of a change records. -/
def fact : Change → Fact
  | conflicted => .conflict
  | _ => .transition

/-- How many revisions a change may find used.  Only an expiry asks for none. -/
def room : Change → ℕ
  | expired => MailboxLimits.revisions + 1
  | refused => MailboxLimits.revisions - 2
  | declined => MailboxLimits.revisions - 2
  | cleaned => MailboxLimits.revisions
  | _ => MailboxLimits.revisions - 6

/-- The receipt that a change needs to find. -/
def Fits (receipt : MailboxReceipt) : Change → Prop
  | expired => receipt.tombstoned = false ∧ receipt.delivery ≠ .expired
  | conflicted => True
  | failed => receipt.delivery.Pending
  | unavailable => receipt.delivery.Pending
  | held => receipt.tombstoned = false ∧ ¬ receipt.handling.Closed
  | refused => receipt.tombstoned = false ∧ ¬ receipt.handling.Closed
  | revoked => receipt.tombstoned = false ∧ receipt.delivery.Pending
  | delivered => receipt.delivery ≠ .expired ∧ ¬ receipt.handling.Closed
  | processing => receipt.delivery ≠ .expired ∧ ¬ receipt.handling.Closed
  | declined => receipt.delivery ≠ .expired ∧ ¬ receipt.handling.Closed
  | waited _ => receipt.wait = .open
  | released => receipt.policy = .held
  | cleaned => receipt.tombstoned = false ∧ receipt.delivery = .expired

/-- The story after a change. -/
def tell (change : Change) (story : Story) : Story :=
  { story.after (change.apply story.receipt) change.fact with
    payload := match change with
      | cleaned => none
      | _ => story.payload }

end Change

/-! ## Moves -/

/-- What a transaction does to the stories, one step at a time. -/
inductive Move where
  /-- A message is written for the first time, and may answer a request. -/
  | post (message : PeerMessage) (receiving : Bool) (policy : PeerPolicy)
      (answers : Option MessageKey)
  /-- A message that was proposed is admitted, and may answer a request. -/
  | admitted (key : MessageKey) (policy : PeerPolicy) (answers : Option MessageKey)
  /-- One receipt changes. -/
  | change (key : MessageKey) (change : Change)
  /-- An endpoint registers. -/
  | enrolled (identity : PeerIdentity) (state : EndpointState)
  /-- A recipient goes offline. -/
  | wentOffline (identity : PeerIdentity)
  /-- An endpoint ends. -/
  | ended (identity : PeerIdentity) (state : EndpointState)

/-- The story of a request after it was answered. -/
def Story.answered (story : Story) (reply : MessageKey) : Story :=
  story.after ((repliedPatch story.receipt reply).apply story.receipt) .transition

/-- The story of a message that was written for the first time. -/
def firstStory (message : PeerMessage) (receiving : Bool) (policy : PeerPolicy) : Story :=
  Story.after ⟨firstReceipt message receiving policy, receiving, some message, [], False⟩
    (firstReceipt message receiving policy) .transition

/-- The story of a message after its admission. -/
def Story.admitted (story : Story) (policy : PeerPolicy) : Story :=
  { story.after (admittedReceipt story.receipt policy) .transition with accepted := true }

/-- The recipient has the message and has not been offline since. -/
def Story.Queues (story : Story) (identity : PeerIdentity) : Prop :=
  story.receipt.recipient = identity ∧ story.receipt.delivery = .acceptedForPersistence

/-- The message ends with its sender or recipient. -/
def Story.EndsWith (story : Story) (identity : PeerIdentity) (state : EndpointState) : Prop :=
  (story.receipt.recipient = identity ∨ (story.receipt.sender = identity ∧ state = .retired))
    ∧ story.receipt.delivery ≠ .expired ∧ story.receipt.tombstoned = false
    ∧ ¬ story.receipt.handling.Closed

open Classical in
/-- The story of a message after its recipient went offline. -/
noncomputable def Story.queued (story : Story) (identity : PeerIdentity) : Story :=
  if story.Queues identity then story.after (queuedReceipt story.receipt) .transition else story

open Classical in
/-- The story of a message after an endpoint ended. -/
noncomputable def Story.ended (story : Story) (identity : PeerIdentity) (state : EndpointState) :
    Story :=
  if story.EndsWith identity state then
    story.after (endedReceipt story.receipt state (story.receipt.recipient = identity)) .transition
  else story

namespace Post

/-- The request that a message answers gets its settlement. -/
def answer (p : Post) (answers : Option MessageKey) (reply : MessageKey) : Post :=
  match answers.bind fun key => (p.stories key).map fun story => (key, story) with
  | none => p
  | some (key, story) => p.put key (story.answered reply)

open Classical in
/-- The stories after a move. -/
noncomputable def after (p : Post) : Move → Post
  | .post message receiving policy answers =>
    (p.put (messageKey message) (firstStory message receiving policy)).answer answers
      (messageKey message)
  | .admitted key policy answers =>
    match p.stories key with
    | none => p
    | some story => (p.put key (story.admitted policy)).answer answers key
  | .change key change =>
    match p.stories key with
    | none => p
    | some story => p.put key (change.tell story)
  | .enrolled identity state =>
    { p with retired := fun other => if other = identity then state = .retired else p.retired other }
  | .wentOffline identity =>
    { p with stories := fun key => (p.stories key).map fun story => story.queued identity }
  | .ended identity state =>
    { stories := fun key => (p.stories key).map fun story => story.ended identity state
      retired := fun other => p.retired other ∨ (other = identity ∧ state = .retired) }

theorem after_admitted {p : Post} {key : MessageKey} {story : Story}
    (hstory : p.stories key = some story) (policy : PeerPolicy) (answers : Option MessageKey) :
    p.after (.admitted key policy answers)
      = (p.put key (story.admitted policy)).answer answers key := by
  simp only [after, hstory]

theorem after_change {p : Post} {key : MessageKey} {story : Story}
    (hstory : p.stories key = some story) (change : Change) :
    p.after (.change key change) = p.put key (change.tell story) := by
  simp only [after, hstory]

/-- A request that a message with this digest may answer. -/
def Answers (p : Post) (message : PeerMessage) (request : MessageKey) : Prop :=
  ∃ correlation, message.correlation = some correlation
    ∧ request = ⟨message.recipient, message.sender, correlation⟩
    ∧ ∃ story, p.stories request = some story
      ∧ story.payload.map PeerMessage.kind = some .request
      ∧ ¬ story.receipt.handling.Closed

/-- A message that is admitted answers a request exactly if it is a reply. -/
def AnswersAll (p : Post) (message : PeerMessage) (answers : Option MessageKey) : Prop :=
  match answers with
  | none => message.correlation = none
  | some request => p.Answers message request

/-- A move that can be made. -/
def Legal (p : Post) : Move → Prop
  | .post message receiving _ answers =>
    p.stories (messageKey message) = none ∧ ¬ p.retired message.sender
      ∧ ¬ p.retired message.recipient
      ∧ (if receiving then p.AnswersAll message answers else answers = none)
      ∧ (message.correlation = none ↔ message.kind ≠ .reply)
  | .admitted key _ answers =>
    ∃ story, p.stories key = some story ∧ story.receipt.delivery.Pending
      ∧ ¬ p.retired key.sender ∧ ¬ p.retired key.recipient
      ∧ p.AnswersAll story.receipt.digest answers
  | .change key change =>
    ∃ story, p.stories key = some story ∧ story.receipt.revision < change.room
      ∧ change.Fits story.receipt
  | .enrolled identity _ => ¬ p.retired identity
  | .wentOffline _ => True
  | .ended identity _ => ¬ p.retired identity

open Classical in
/-- Makes a move. -/
noncomputable def move (p : Post) (m : Move) : Option Post :=
  if p.Legal m then some (p.after m) else none

theorem move_eq_some {p p' : Post} {m : Move} :
    p.move m = some p' ↔ p.Legal m ∧ p' = p.after m := by
  unfold move
  by_cases h : p.Legal m
  · rw [if_pos h, Option.some.injEq, eq_comm, and_iff_right h]
  · rw [if_neg h]
    exact ⟨nofun, fun hand => absurd hand.1 h⟩

end Post

end Falryn.Orchestration.Mailbox
