import Falryn.Orchestration.MailboxStories

/-!
# The revisions a receipt may still need

A receipt has sixteen revisions.  Most changes stop at the tenth; the others are not counted, but each
of them is the last of its kind, so a receipt in which some of them are still possible keeps a revision
for each.  `MailboxReceipt.reserve` counts them, and `Revises` says what every change keeps: the
revisions of the receipt and its reserve together stay within the bound.
-/

namespace Falryn.Orchestration.Mailbox

/-! ## The reserve -/

open Classical in
/-- One for a fact that holds. -/
noncomputable def flag (P : Prop) : ℕ := if P then 1 else 0

variable {P : Prop}

theorem flag_of_true (h : P) : flag P = 1 := if_pos h

theorem flag_of_false (h : ¬ P) : flag P = 0 := if_neg h

theorem flag_le_one (P : Prop) : flag P ≤ 1 := by
  unfold flag
  split_ifs
  · exact le_rfl
  · exact Nat.zero_le _

theorem flag_mono {Q : Prop} (h : P → Q) : flag P ≤ flag Q := by
  by_cases hP : P
  · rw [flag_of_true hP, flag_of_true (h hP)]
  · rw [flag_of_false hP]
    exact Nat.zero_le _

namespace MailboxReceipt

/-- The recipient still may reply to the message or refuse it. -/
def Open (receipt : MailboxReceipt) : Prop :=
  ¬ receipt.handling.Closed ∧ receipt.tombstoned = false

/-- One revision for each change that is not counted and still possible: the admission, the wait for a
recipient that is offline, the expiry, the end of the sender, the end of the recipient or its reply,
and the cleanup. -/
noncomputable def reserve (senderRetired : Prop) (receipt : MailboxReceipt) : ℕ :=
  flag receipt.delivery.Pending
    + flag (receipt.delivery.Pending ∨ receipt.delivery = .acceptedForPersistence)
    + flag (receipt.delivery ≠ .expired)
    + flag (receipt.Open ∧ ¬ senderRetired)
    + flag receipt.Open
    + flag (receipt.tombstoned = false)

theorem reserve_le (senderRetired : Prop) (receipt : MailboxReceipt) :
    receipt.reserve senderRetired ≤ 6 := by
  unfold reserve
  have h₁ := flag_le_one receipt.delivery.Pending
  have h₂ := flag_le_one (receipt.delivery.Pending ∨ receipt.delivery = .acceptedForPersistence)
  have h₃ := flag_le_one (receipt.delivery ≠ .expired)
  have h₄ := flag_le_one (receipt.Open ∧ ¬ senderRetired)
  have h₅ := flag_le_one receipt.Open
  have h₆ := flag_le_one (receipt.tombstoned = false)
  omega

theorem reserve_anti {Q : Prop} (h : P → Q) (receipt : MailboxReceipt) :
    receipt.reserve Q ≤ receipt.reserve P := by
  unfold reserve
  have := flag_mono (P := receipt.Open ∧ ¬ Q) (Q := receipt.Open ∧ ¬ P)
    fun hand => ⟨hand.1, fun hP => hand.2 (h hP)⟩
  omega

end MailboxReceipt

/-! ## What a change keeps -/

/-- A receipt that follows another one in the history of its message. -/
structure Follows (old new : MailboxReceipt) : Prop where
  key : new.key = old.key
  digest : new.digest = old.digest
  sender : new.sender = old.sender
  recipient : new.recipient = old.recipient
  correlation : new.correlation = old.correlation
  /-- One revision more. -/
  revision : new.revision = old.revision + 1
  /-- A reply and a refusal are final. -/
  handling : old.handling.Closed → new.handling = old.handling ∧ new.reply = old.reply
  /-- An expired message stays expired. -/
  delivery : old.delivery = .expired → new.delivery = .expired
  /-- A wait that is over stays as it is. -/
  wait : old.wait ≠ .open → new.wait = old.wait

/-- What holds of every receipt besides its bound. -/
structure MailboxReceipt.Coherent (receipt : MailboxReceipt) : Prop where
  /-- Nobody waits for a message that is settled or cannot arrive. -/
  closed : receipt.handling.Closed ∨ receipt.delivery = .expired ∨ receipt.delivery = .failed →
    receipt.wait ≠ .open
  /-- Only an expired message is cleaned up. -/
  buried : receipt.tombstoned = true → receipt.delivery = .expired

theorem MailboxReceipt.Coherent.not_tombstoned {receipt : MailboxReceipt}
    (h : receipt.Coherent) (hdelivery : receipt.delivery ≠ .expired) :
    receipt.tombstoned = false := by
  rcases htomb : receipt.tombstoned with _ | _
  · rfl
  · exact absurd (h.buried htomb) hdelivery

theorem Wait.settle_ne_open (wait : Wait) : wait.settle ≠ .open := by
  cases wait <;> nofun

theorem Wait.settle_of_ne {wait : Wait} (h : wait ≠ .open) : wait.settle = wait := by
  cases wait with
  | «open» => exact absurd rfl h
  | settled => rfl
  | timedOut => rfl
  | cancelledLocally => rfl

theorem LocalWait.wait_ne_open (state : LocalWait) : state.wait ≠ .open := by
  cases state <;> nofun

/-- A change of a receipt that keeps what holds of every receipt. -/
structure Revises (senderRetired : Prop) (old new : MailboxReceipt) : Prop where
  follows : Follows old new
  coherent : new.Coherent
  bounded : new.revision + new.reserve senderRetired ≤ MailboxLimits.revisions

/-- A patch of the fields that a receipt keeps leaves its identity. -/
theorem ReceiptPatch.follows {patch : ReceiptPatch} {receipt : MailboxReceipt}
    (hhandling : receipt.handling.Closed → patch.handling = .none ∧ patch.reply = .none)
    (hdelivery : receipt.delivery = .expired → patch.delivery = .none ∨ patch.delivery = some .expired)
    (hwait : receipt.wait ≠ .open → patch.wait = .none ∨ patch.wait = some receipt.wait) :
    Follows receipt (patch.apply receipt) where
  key := rfl
  digest := rfl
  sender := rfl
  recipient := rfl
  correlation := rfl
  revision := rfl
  handling := fun h => by
    obtain ⟨h₁, h₂⟩ := hhandling h
    constructor
    · show patch.handling.getD receipt.handling = receipt.handling
      rw [h₁, Option.getD_none]
    · show patch.reply.or receipt.reply = receipt.reply
      rw [h₂, Option.none_or]
  delivery := fun h => by
    show patch.delivery.getD receipt.delivery = .expired
    rcases hdelivery h with hnone | hsome
    · rw [hnone, Option.getD_none, h]
    · rw [hsome, Option.getD_some]
  wait := fun h => by
    show patch.wait.getD receipt.wait = receipt.wait
    rcases hwait h with hnone | hsome
    · rw [hnone, Option.getD_none]
    · rw [hsome, Option.getD_some]

/-- **What an ordinary change leaves is enough for everything that may come.** -/
theorem bounded_of_ordinary {senderRetired : Prop} {receipt new : MailboxReceipt}
    (hroom : receipt.revision < MailboxLimits.revisions - 6)
    (hrevision : new.revision = receipt.revision + 1) :
    new.revision + new.reserve senderRetired ≤ MailboxLimits.revisions := by
  have hreserve := new.reserve_le senderRetired
  have hlimit : MailboxLimits.revisions = 16 := rfl
  omega

namespace MailboxReceipt

variable {senderRetired : Prop} {receipt new : MailboxReceipt}

/-- **A change that is the last of its kind pays with its own flag.** -/
theorem reserve_lt (hdelivery : new.delivery.Pending → receipt.delivery.Pending)
    (haccepted : new.delivery.Pending ∨ new.delivery = .acceptedForPersistence →
      receipt.delivery.Pending ∨ receipt.delivery = .acceptedForPersistence)
    (hexpired : new.delivery ≠ .expired → receipt.delivery ≠ .expired)
    (hopen : new.Open → receipt.Open)
    (htomb : new.tombstoned = false → receipt.tombstoned = false)
    (hpays : (receipt.delivery.Pending ∧ ¬ new.delivery.Pending)
      ∨ (receipt.delivery = .acceptedForPersistence ∧ ¬ new.delivery.Pending
        ∧ new.delivery ≠ .acceptedForPersistence)
      ∨ (receipt.delivery ≠ .expired ∧ new.delivery = .expired)
      ∨ (receipt.Open ∧ ¬ new.Open)
      ∨ (receipt.tombstoned = false ∧ new.tombstoned = true)) :
    new.reserve senderRetired < receipt.reserve senderRetired := by
  unfold reserve
  have h₁ := flag_mono hdelivery
  have h₂ := flag_mono haccepted
  have h₃ := flag_mono hexpired
  have h₄ := flag_mono (P := new.Open ∧ ¬ senderRetired) (Q := receipt.Open ∧ ¬ senderRetired)
    fun hand => ⟨hopen hand.1, hand.2⟩
  have h₅ := flag_mono hopen
  have h₆ := flag_mono htomb
  rcases hpays with ⟨hold, hnew⟩ | ⟨hold, hnew, hne⟩ | ⟨hold, hnew⟩ | ⟨hold, hnew⟩ | ⟨hold, hnew⟩
  · rw [flag_of_true hold, flag_of_false hnew] at *
    omega
  · have ht : flag (receipt.delivery.Pending ∨ receipt.delivery = .acceptedForPersistence) = 1 :=
      flag_of_true (.inr hold)
    have hf : flag (new.delivery.Pending ∨ new.delivery = .acceptedForPersistence) = 0 :=
      flag_of_false fun h => h.elim hnew hne
    omega
  · have ht : flag (receipt.delivery ≠ .expired) = 1 := flag_of_true hold
    have hf : flag (new.delivery ≠ .expired) = 0 := flag_of_false fun h => h hnew
    omega
  · have ht : flag receipt.Open = 1 := flag_of_true hold
    have hf : flag new.Open = 0 := flag_of_false hnew
    omega
  · have ht : flag (receipt.tombstoned = false) = 1 := flag_of_true hold
    have hf : flag (new.tombstoned = false) = 0 := flag_of_false (by rw [hnew]; exact Bool.noConfusion)
    omega

end MailboxReceipt

theorem bounded_of_reserve_lt {P Q : Prop} {receipt new : MailboxReceipt}
    (hbounded : receipt.revision + receipt.reserve P ≤ MailboxLimits.revisions)
    (hrevision : new.revision = receipt.revision + 1)
    (hreserve : new.reserve Q < receipt.reserve P) :
    new.revision + new.reserve Q ≤ MailboxLimits.revisions := by
  omega

theorem Delivery.Pending.ne_expired {delivery : Delivery} (h : delivery.Pending) :
    delivery ≠ .expired := by
  rcases h with rfl | rfl <;> nofun

/-! ## Every change keeps the receipt sound -/

variable {senderRetired : Prop} {receipt : MailboxReceipt}

variable {change : Change} {new : MailboxReceipt}

/-- A change is made of a receipt that fits it, keeps its facts and bound, and follows it. -/
theorem Change.follows (hfits : change.Fits receipt) : Follows receipt (change.apply receipt) := by
  cases change with
  | expired =>
    exact ReceiptPatch.follows (fun _ => ⟨rfl, rfl⟩) (fun _ => .inr rfl)
      fun h => .inr (congrArg some (Wait.settle_of_ne h))
  | conflicted | held | released | cleaned =>
    exact ReceiptPatch.follows (fun _ => ⟨rfl, rfl⟩) (fun _ => .inl rfl) fun _ => .inl rfl
  | failed =>
    exact ReceiptPatch.follows (fun _ => ⟨rfl, rfl⟩) (fun h => absurd h hfits.ne_expired)
      fun h => .inr (congrArg some (Wait.settle_of_ne h))
  | unavailable =>
    exact ReceiptPatch.follows (fun _ => ⟨rfl, rfl⟩) (fun h => absurd h hfits.ne_expired)
      fun _ => .inl rfl
  | refused | declined =>
    exact ReceiptPatch.follows (fun h => absurd h hfits.2) (fun _ => .inl rfl)
      fun h => .inr (congrArg some (Wait.settle_of_ne h))
  | revoked =>
    exact ReceiptPatch.follows (fun _ => ⟨rfl, rfl⟩) (fun _ => .inl rfl)
      fun h => .inr (congrArg some (Wait.settle_of_ne h))
  | delivered =>
    exact ReceiptPatch.follows (fun _ => ⟨rfl, rfl⟩) (fun h => absurd h hfits.1) fun _ => .inl rfl
  | processing =>
    exact ReceiptPatch.follows (fun h => absurd h hfits.2) (fun h => absurd h hfits.1)
      fun _ => .inl rfl
  | waited =>
    exact ReceiptPatch.follows (fun _ => ⟨rfl, rfl⟩) (fun _ => .inl rfl) fun h => absurd hfits h

/-- A change after which nobody waits and that cleans nothing up. -/
theorem MailboxReceipt.coherent_of_settled (h : receipt.Coherent)
    (hwait : new.wait = receipt.wait.settle) (htomb : new.tombstoned = receipt.tombstoned)
    (hdelivery : receipt.delivery = .expired → new.delivery = .expired) : new.Coherent where
  closed := fun _ => by
    rw [hwait]
    exact receipt.wait.settle_ne_open
  buried := fun hnew => hdelivery (h.buried (htomb ▸ hnew))

/-- A change that opens no new way to be settled. -/
theorem MailboxReceipt.coherent_of_open (h : receipt.Coherent)
    (hwait : new.wait = receipt.wait) (htomb : new.tombstoned = receipt.tombstoned)
    (hdelivery : new.delivery = receipt.delivery
      ∨ (receipt.delivery ≠ .expired ∧ new.delivery ≠ .expired ∧ new.delivery ≠ .failed))
    (hhandling : new.handling.Closed → receipt.handling.Closed) : new.Coherent where
  closed := fun hnew => by
    rw [hwait]
    refine h.closed ?_
    rcases hnew with hclosed | hgone
    · exact .inl (hhandling hclosed)
    · rcases hdelivery with hsame | ⟨_, hne, hne'⟩
      · rw [hsame] at hgone
        exact .inr hgone
      · exact absurd hgone (not_or.2 ⟨hne, hne'⟩)
  buried := fun hnew => by
    rw [htomb] at hnew
    rcases hdelivery with hsame | ⟨hne, _, _⟩
    · rw [hsame]
      exact h.buried hnew
    · exact absurd (h.buried hnew) hne

theorem Change.coherent (hfits : change.Fits receipt) (h : receipt.Coherent) :
    (change.apply receipt).Coherent := by
  cases change with
  | expired => exact MailboxReceipt.coherent_of_settled h rfl rfl fun _ => rfl
  | conflicted | held | released => exact MailboxReceipt.coherent_of_open h rfl rfl (.inl rfl) id
  | failed =>
    exact MailboxReceipt.coherent_of_settled h rfl rfl fun hexp => absurd hexp hfits.ne_expired
  | unavailable =>
    exact MailboxReceipt.coherent_of_open h rfl rfl
      (.inr ⟨hfits.ne_expired, (nomatch ·), (nomatch ·)⟩) id
  | refused | revoked | declined => exact MailboxReceipt.coherent_of_settled h rfl rfl id
  | delivered =>
    exact MailboxReceipt.coherent_of_open h rfl rfl (.inr ⟨hfits.1, (nomatch ·), (nomatch ·)⟩) id
  | processing =>
    exact MailboxReceipt.coherent_of_open h rfl rfl (.inr ⟨hfits.1, (nomatch ·), (nomatch ·)⟩)
      fun hclosed => absurd hclosed (not_or.2 ⟨(nomatch ·), (nomatch ·)⟩)
  | waited state => exact ⟨fun _ => state.wait_ne_open, h.buried⟩
  | cleaned => exact ⟨h.closed, fun _ => hfits.2⟩

theorem Change.bounded (hfits : change.Fits receipt)
    (hroom : receipt.revision < change.room) (h : receipt.Coherent)
    (hbounded : receipt.revision + receipt.reserve senderRetired ≤ MailboxLimits.revisions) :
    (change.apply receipt).revision + (change.apply receipt).reserve senderRetired
      ≤ MailboxLimits.revisions := by
  have hordinary (hlow : receipt.revision < MailboxLimits.revisions - 6) :=
    @bounded_of_ordinary senderRetired _ (change.apply receipt) hlow rfl
  have hpays := @bounded_of_reserve_lt _ senderRetired _ (change.apply receipt) hbounded rfl
  cases change with
  | expired =>
    refine hpays (MailboxReceipt.reserve_lt ?_ ?_ ?_ id id (.inr (.inr (.inl ⟨hfits.2, rfl⟩))))
    · exact fun hp => absurd rfl hp.ne_expired
    · exact fun hp => hp.elim (fun hp => absurd rfl hp.ne_expired) (nomatch ·)
    · exact fun hne => absurd rfl hne
  | refused =>
    refine hpays (MailboxReceipt.reserve_lt id id id ?_ id (.inr (.inr (.inr (.inl ?_)))))
    · exact fun hopen => absurd (.inr rfl) hopen.1
    · exact ⟨⟨hfits.2, hfits.1⟩, fun hopen => hopen.1 (.inr rfl)⟩
  | declined =>
    refine hpays (MailboxReceipt.reserve_lt id id id ?_ id (.inr (.inr (.inr (.inl ?_)))))
    · exact fun hopen => absurd (.inr rfl) hopen.1
    · exact ⟨⟨hfits.2, h.not_tombstoned hfits.1⟩, fun hopen => hopen.1 (.inr rfl)⟩
  | cleaned =>
    refine hpays (MailboxReceipt.reserve_lt id id id ?_ ?_ (.inr (.inr (.inr (.inr ?_)))))
    · exact fun hopen => (nomatch hopen.2)
    · nofun
    · exact ⟨hfits.1, rfl⟩
  | conflicted | failed | unavailable | held | revoked | delivered | processing | waited
  | released => exact hordinary hroom

/-- **Every change keeps what holds of a receipt.** -/
theorem Change.revises (hfits : change.Fits receipt)
    (hroom : receipt.revision < change.room) (h : receipt.Coherent)
    (hbounded : receipt.revision + receipt.reserve senderRetired ≤ MailboxLimits.revisions) :
    Revises senderRetired receipt (change.apply receipt) :=
  ⟨change.follows hfits, change.coherent hfits h, change.bounded hfits hroom h hbounded⟩

/-! ## Admission, absence, the end of a peer, and the reply -/

theorem admittedReceipt_revises (policy : PeerPolicy) (hpending : receipt.delivery.Pending)
    (h : receipt.Coherent)
    (hbounded : receipt.revision + receipt.reserve senderRetired ≤ MailboxLimits.revisions) :
    Revises senderRetired receipt (admittedReceipt receipt policy) where
  follows := ⟨rfl, rfl, rfl, rfl, rfl, rfl, fun _ => ⟨rfl, rfl⟩,
    fun hexp => absurd hexp hpending.ne_expired, fun _ => rfl⟩
  coherent := MailboxReceipt.coherent_of_open h rfl rfl
    (.inr ⟨hpending.ne_expired, (nomatch ·), (nomatch ·)⟩) id
  bounded := by
    refine @bounded_of_reserve_lt _ _ _ (admittedReceipt receipt policy) hbounded rfl
      (MailboxReceipt.reserve_lt (fun _ => hpending) (fun _ => .inl hpending)
        (fun _ => hpending.ne_expired) id id (.inl ⟨hpending, ?_⟩))
    exact not_or.2 ⟨(nomatch ·), (nomatch ·)⟩

theorem queuedReceipt_revises (haccepted : receipt.delivery = .acceptedForPersistence)
    (h : receipt.Coherent)
    (hbounded : receipt.revision + receipt.reserve senderRetired ≤ MailboxLimits.revisions) :
    Revises senderRetired receipt (queuedReceipt receipt) where
  follows := ⟨rfl, rfl, rfl, rfl, rfl, rfl, fun _ => ⟨rfl, rfl⟩,
    fun hexp => absurd (haccepted.symm.trans hexp) (nomatch ·), fun _ => rfl⟩
  coherent := MailboxReceipt.coherent_of_open h rfl rfl
    (.inr ⟨haccepted ▸ (nomatch ·), (nomatch ·), (nomatch ·)⟩) id
  bounded := by
    refine @bounded_of_reserve_lt _ _ _ (queuedReceipt receipt) hbounded rfl
      (MailboxReceipt.reserve_lt ?_ ?_ ?_ id id (.inr (.inl ⟨haccepted, ?_, (nomatch ·)⟩)))
    · exact fun hp => absurd hp (not_or.2 ⟨(nomatch ·), (nomatch ·)⟩)
    · exact fun hp => hp.elim (fun hp => absurd hp (not_or.2 ⟨(nomatch ·), (nomatch ·)⟩)) (nomatch ·)
    · exact fun _ => haccepted ▸ (nomatch ·)
    · exact not_or.2 ⟨(nomatch ·), (nomatch ·)⟩

/-- What an endpoint that ends leaves is a receipt that nobody waits for. -/
theorem endedReceipt_wait (state : EndpointState) (inbound : Bool) :
    (endedReceipt receipt state inbound).wait ≠ .open := by
  show (if receipt.wait = .open then
      if inbound then Wait.settled else .cancelledLocally else receipt.wait) ≠ .open
  split_ifs with hopen
  · exact (nomatch ·)
  · exact (nomatch ·)
  · exact hopen

theorem endedReceipt_follows (state : EndpointState) (inbound : Bool)
    (hopen : ¬ receipt.handling.Closed) : Follows receipt (endedReceipt receipt state inbound) :=
  ⟨rfl, rfl, rfl, rfl, rfl, rfl, fun h => absurd h hopen, id, fun h => if_neg h⟩

theorem endedReceipt_coherent (state : EndpointState) (inbound : Bool) (h : receipt.Coherent) :
    (endedReceipt receipt state inbound).Coherent :=
  ⟨fun _ => endedReceipt_wait state inbound, h.buried⟩

/-- The end of the recipient pays with the flag of an open receipt. -/
theorem endedReceipt_bounded_of_inbound (state : EndpointState) (hopen : receipt.Open)
    (hbounded : receipt.revision + receipt.reserve senderRetired ≤ MailboxLimits.revisions) :
    (endedReceipt receipt state true).revision
      + (endedReceipt receipt state true).reserve senderRetired ≤ MailboxLimits.revisions := by
  refine @bounded_of_reserve_lt _ _ _ (endedReceipt receipt state true) hbounded rfl
    (MailboxReceipt.reserve_lt id id id ?_ id (.inr (.inr (.inr (.inl ?_)))))
  · exact fun hopen => absurd (.inr rfl) hopen.1
  · exact ⟨hopen, fun hopen => hopen.1 (.inr rfl)⟩

/-- The end of the sender pays with the flag of a sender that has not retired. -/
theorem endedReceipt_bounded_of_outbound (state : EndpointState) {retired : Prop}
    (hopen : receipt.Open) (hbefore : ¬ senderRetired) (hafter : retired)
    (hbounded : receipt.revision + receipt.reserve senderRetired ≤ MailboxLimits.revisions) :
    (endedReceipt receipt state false).revision
      + (endedReceipt receipt state false).reserve retired ≤ MailboxLimits.revisions := by
  refine @bounded_of_reserve_lt _ _ _ (endedReceipt receipt state false) hbounded rfl ?_
  have ht : flag (receipt.Open ∧ ¬ senderRetired) = 1 := flag_of_true ⟨hopen, hbefore⟩
  have hf : flag ((endedReceipt receipt state false).Open ∧ ¬ retired) = 0 :=
    flag_of_false fun h => h.2 hafter
  unfold MailboxReceipt.reserve
  rw [ht, hf]
  exact Nat.add_lt_add_right (Nat.add_lt_add_right (Nat.lt_succ_self _) _) _

theorem repliedPatch_revises (reply : MessageKey) (hopen : receipt.Open) (h : receipt.Coherent)
    (hbounded : receipt.revision + receipt.reserve senderRetired ≤ MailboxLimits.revisions) :
    Revises senderRetired receipt ((repliedPatch receipt reply).apply receipt) where
  follows := ReceiptPatch.follows (fun h => absurd h hopen.1) (fun _ => .inl rfl)
    fun h => .inr (congrArg some (Wait.settle_of_ne h))
  coherent := MailboxReceipt.coherent_of_settled h rfl rfl id
  bounded := by
    refine bounded_of_reserve_lt hbounded rfl
      (MailboxReceipt.reserve_lt id id id ?_ id (.inr (.inr (.inr (.inl ?_)))))
    · exact fun hopen => absurd (.inl rfl) hopen.1
    · exact ⟨hopen, fun hopen => hopen.1 (.inl rfl)⟩

/-- **A request that is open and whose sender is there has room for its reply.** -/
theorem room_of_open (hopen : receipt.Open) (hretired : ¬ senderRetired)
    (hbounded : receipt.revision + receipt.reserve senderRetired ≤ MailboxLimits.revisions) :
    receipt.revision < MailboxLimits.revisions - 2 := by
  have h₄ : flag (receipt.Open ∧ ¬ senderRetired) = 1 := flag_of_true ⟨hopen, hretired⟩
  have h₅ : flag receipt.Open = 1 := flag_of_true hopen
  have h₆ : flag (receipt.tombstoned = false) = 1 := flag_of_true hopen.2
  have hlimit : MailboxLimits.revisions = 16 := rfl
  unfold MailboxReceipt.reserve at hbounded
  omega

end Falryn.Orchestration.Mailbox
