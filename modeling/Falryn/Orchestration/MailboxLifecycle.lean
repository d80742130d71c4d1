import Falryn.Orchestration.MailboxRevisions

/-!
# The life of a receipt

What every receipt change does: one revision more and one event with it, a reply, a refusal and an
expiry that are final, a wait that ends once, and no save that is refused.  A delivery that was given
up is final as well, unless the recipient acknowledges the message after all: `acknowledge` turns away
a message that is proposed or expired, and not one that has failed.
-/

namespace Falryn.Orchestration.Mailbox

open StateMachine Transaction

/-- What a receipt change does. -/
structure Advances (old new : MailboxReceipt) : Prop where
  revision : new.revision = old.revision + 1
  handling : old.handling.Closed → new.handling = old.handling
  expired : old.delivery = .expired → new.delivery = .expired
  failed : old.delivery = .failed → new.delivery = .failed ∨ new.delivery = .expired
  wait : old.wait ≠ .open → new.wait = old.wait

/-- The life of every receipt so far. -/
structure MailboxState.Lifecycle (s : MailboxState) : Prop where
  /-- One event for each revision. -/
  revisions : ∀ {key row}, s.messages.get key = some row →
    (s.history key).map MailboxEvent.revision = List.range' 1 row.receipt.revision
  bounded : ∀ {key row}, s.messages.get key = some row →
    row.receipt.revision ≤ MailboxLimits.revisions
  /-- The last event has the receipt that is stored. -/
  current : ∀ {key row}, s.messages.get key = some row →
    (s.history key).getLast?.map MailboxEvent.receipt = some row.receipt
  numbered : ∀ {key}, ∀ event ∈ s.history key, event.revision = event.receipt.revision
  chain : ∀ key, (s.history key).IsChain fun a b => Advances a.receipt b.receipt
  /-- Nobody waits for a message that is settled or cannot arrive. -/
  settled : ∀ {key}, ∀ event ∈ s.history key, event.receipt.handling.Closed
    ∨ event.receipt.delivery = .expired ∨ event.receipt.delivery = .failed →
      event.receipt.wait ≠ .open
  /-- A request is answered by one admitted reply at most. -/
  replies : ∀ {a b rowA rowB}, s.messages.get a = some rowA → s.messages.get b = some rowB →
    rowA.accepted = true → rowB.accepted = true → rowA.receipt.correlation ≠ none →
      rowA.receipt.correlation = rowB.receipt.correlation → a.sender = b.sender →
        a.recipient = b.recipient → a = b

/-- An acknowledgement that is about to change the receipt of a message that has failed. -/
def Revives (s : MailboxState) : Operation → Prop
  | .acknowledge lease ack now =>
    ack.kind ≠ .refused
      ∧ ∃ receipt, Acknowledges s lease ack now receipt ∧ receipt.delivery = .failed
  | _ => False

/-- A move that does not bring a failed message back. -/
def Unrevived (p : Post) (m : Move) : Prop :=
  ∀ key story, m = .change key .delivered ∨ m = .change key .processing →
    p.stories key = some story → story.receipt.delivery ≠ .failed

variable {m : Move} {p : Post} {ports : MailboxPorts} {s t : MailboxState}

theorem unrevived_of_harmless (h : Harmless p m) : Unrevived p m := by
  rintro key story (rfl | rfl) _
  · exact h.elim
  · exact h.elim

/-- A step that revives nothing makes moves that revive nothing. -/
theorem unrevived_of_returns {operation : Operation} (hnot : ¬ Revives s operation) (h : Returns ports s m operation) :
    Unrevived s.post m := by
  cases operation with
  | acknowledge lease ack now =>
    obtain ⟨rfl, hkind, receipt, hacks⟩ := h
    rintro key story hmove hstory hfailed
    have hkey : key = ack.key := by
      rcases hmove with hmove | hmove <;> exact (congrArg (fun | .change key _ => key | _ => key) hmove).symm
    subst hkey
    have hreceipt := (receipt_of_story hstory).symm.trans hacks.1
    cases hreceipt
    exact hnot ⟨hkind, _, hacks, hfailed⟩
  | admitPeer lease _ now =>
    obtain ⟨⟨policy, answers, rfl⟩, -⟩ := h
    rintro key story (hmove | hmove) _ <;> cases hmove
  | renew lease _ now | release lease key now =>
    obtain ⟨rfl, -⟩ := h
    rintro key story (hmove | hmove) _ <;> cases hmove
  | _ => exact h.elim

/-- **A receipt goes on as it may**, unless an acknowledgement revives it. -/
theorem advances_of_revised {key : MessageKey} {old : Story}
    {receipt : MailboxReceipt} {fact : Fact} (hB : Unrevived p m) (hold : p.stories key = some old)
    (h : Revised m key old receipt fact) : Advances old.receipt receipt where
  revision := h.follows.revision
  handling := fun hclosed => (h.follows.handling hclosed).1
  expired := h.follows.delivery
  wait := h.follows.wait
  failed := fun hfailed => by
    have hpending (h : old.receipt.delivery.Pending) : False := by
      rw [hfailed] at h
      rcases h with h | h <;> cases h
    cases h with
    | @change change hmove hfits _ =>
      cases change with
      | expired => exact .inr rfl
      | failed | unavailable => exact (hpending hfits).elim
      | delivered => exact absurd hfailed (hB key old (.inl hmove) hold)
      | processing => exact absurd hfailed (hB key old (.inr hmove) hold)
      | _ => exact .inl hfailed
    | admitted _ hadmitted => exact (hpending hadmitted).elim
    | replied | ended => exact .inl hfailed
    | queued _ hqueues => exact nomatch hqueues.2.symm.trans hfailed

/-- A run whose steps revive nothing makes moves that revive nothing. -/
theorem run_unrevived {operations : List Operation}
    (h : s.Good) (hrun : run (step ports) s operations = some t)
    (halong : Along (step ports) (fun s operation => ¬ Revives s operation) s operations) :
    Made Unrevived s t := by
  refine run_made (fun _ _ => unrevived_of_harmless) h hrun (along_mono ?_ halong)
  exact fun s operation hnot _ => unrevived_of_returns hnot

theorem firstReceipt_coherent (message : PeerMessage) (receiving : Bool) (policy : PeerPolicy) :
    (firstReceipt message receiving policy).Coherent where
  closed := fun h => by
    rcases h with hclosed | hgone
    · exact absurd hclosed (not_or.2 ⟨(nomatch ·), (nomatch ·)⟩)
    · rcases firstReceipt_delivery message receiving policy with h | h
      · exact absurd (h ▸ hgone) (not_or.2 ⟨(nomatch ·), (nomatch ·)⟩)
      · exact absurd (h ▸ hgone) (not_or.2 ⟨(nomatch ·), (nomatch ·)⟩)
  buried := nofun

theorem lifecycle_of_made (hmade : Made Unrevived .empty t) : t.Lifecycle := by
  have hgood := hmade.good
  have htold {key : MessageKey} {row : MessageRow} (hrow : t.messages.get key = some row) :
      t.post.stories key = some _ := MailboxState.story_eq_some.2 ⟨row, hrow, rfl⟩
  have hsound {key : MessageKey} {row : MessageRow} (hrow : t.messages.get key = some row) :=
    hgood.story (htold hrow)
  refine
    { revisions := fun hrow => (hsound hrow).revisions
      bounded := fun hrow => (Nat.le_add_right _ _).trans (hsound hrow).bounded
      current := fun hrow => (hsound hrow).current
      numbered := fun {key} => ?_
      chain := fun key => ?_
      settled := fun {key} => ?_
      replies := fun {a b rowA rowB} hrowA hrowB hacceptedA hacceptedB hsome hsame hsender
        hrecipient => ?_ }
  · exact hgood.history (P := fun log => ∀ event ∈ log, event.revision = event.receipt.revision)
      (fun _ h => nomatch h) (fun key story hstory event hmem =>
        ((hgood.story hstory).events event hmem).2) key
  · exact hgood.history (P := fun log => log.IsChain fun a b => Advances a.receipt b.receipt) .nil
      (fun key story hstory => hmade.reaches.chained good_empty.sound
        (fun _ hB hold h => advances_of_revised hB hold h) (fun h => (nomatch h)) hstory) key
  · refine hgood.history (P := fun log => ∀ event ∈ log, event.receipt.handling.Closed
      ∨ event.receipt.delivery = .expired ∨ event.receipt.delivery = .failed →
        event.receipt.wait ≠ .open) (fun _ h => nomatch h) (fun key story hstory event hmem => ?_) key
    have hcoherent := hmade.reaches.told
      (I := fun _ story => ∀ event ∈ story.log, event.receipt.Coherent) good_empty.sound
      (fun message receiving policy event hmem => by
        rw [List.mem_singleton.1 hmem]
        exact firstReceipt_coherent message receiving policy)
      (fun _ _ _ _ _ hall _ hnew event hmem => by
        rcases List.mem_append.1 hmem with hmem | hmem
        · exact hall event hmem
        · rw [List.mem_singleton.1 hmem]
          exact hnew)
      (fun h => (nomatch h)) hstory
    exact (hcoherent event hmem).closed
  · obtain ⟨correlation, hcorrelation⟩ := Option.ne_none_iff_exists'.1 hsome
    obtain ⟨request, hrequest, -, hreply⟩ := hgood.sound.answered (htold hrowA) hacceptedA hcorrelation
    obtain ⟨request', hrequest', -, hreply'⟩ :=
      hgood.sound.answered (htold hrowB) hacceptedB (hsame ▸ hcorrelation)
    rw [hsender, hrecipient, hrequest'] at hrequest
    cases hrequest
    exact Option.some.inj (hreply.symm.trans hreply')

/-- **The life of a receipt.**  In a run without an acknowledgement of a failed message, every receipt
has lived as it may, events are only added, and no save and no settlement of a reply throws. -/
theorem mailbox_lifecycle {ports : MailboxPorts} {operations : List Operation} {t : MailboxState}
    (hrun : run (step ports) .empty operations = some t)
    (halong : Along (step ports) (fun s operation => ¬ Revives s operation) .empty operations) :
    t.Lifecycle
      ∧ (∀ k s, run (step ports) .empty (operations.take k) = some s →
        ∀ key, s.history key <+: t.history key)
      ∧ ∀ operation thrown, exec (perform ports operation) t = .error thrown →
        thrown = .policyRevisionCapacity ∨ thrown = .routeRevisionCapacity := by
  have hmade := run_unrevived good_empty hrun halong
  refine ⟨lifecycle_of_made hmade, fun k s hs key => ?_, fun operation thrown hthrown => ?_⟩
  · have hgood := run_good good_empty hs
    have hrest : run (step ports) s (operations.drop k) = some t := by
      rw [← List.take_append_drop k operations] at hrun
      obtain ⟨s', hs', hrest⟩ := run_append.1 hrun
      rw [hs] at hs'
      cases hs'
      exact hrest
    have hreaches := (run_made (B := fun _ _ => True) (fun _ _ _ => trivial) hgood hrest
      (along_of_forall fun _ _ _ _ => trivial)).reaches
    rcases hrow : s.messages.get key with _ | row
    · rw [(hgood.orderly key hrow).1]
      exact List.nil_prefix
    · obtain ⟨new, hnew, hlog⟩ := hreaches.log_prefix hgood.sound
        (MailboxState.story_eq_some.2 ⟨row, hrow, rfl⟩ : s.post.stories key = some _)
      obtain ⟨row', hrow', rfl⟩ := MailboxState.story_eq_some.1 hnew
      exact hlog
  · exact (perform_moves (B := fun _ _ => True) hmade.good (fun _ _ _ => trivial) ports operation
      fun _ _ => trivial).thrown hthrown

/-- The life of a message that is proposed. -/
theorem mailbox_lifecycle_proposed :
    ∃ t, run (step laxPorts) .empty proposed = some t ∧ t.Lifecycle :=
  ⟨_, rfl, (@mailbox_lifecycle laxPorts proposed _ rfl
    ⟨id, fun _ _ => ⟨id, fun _ _ => ⟨id, fun _ _ => ⟨id, fun _ _ => trivial⟩⟩⟩⟩).1⟩

/-- One attempt to deliver a message, and its failure. -/
def attempted (key : MessageKey) : List Operation :=
  [.deliveryAttempt (leaseOf alice) key .started 0,
    .deliveryAttempt (leaseOf alice) key .unavailable 0]

/-- A message that could not be delivered three times, and is acknowledged then. -/
def revived : List Operation :=
  proposed ++ attempted ⟨alice, bob, "message"⟩ ++ attempted ⟨alice, bob, "message"⟩
    ++ attempted ⟨alice, bob, "message"⟩
    ++ [.acknowledge (leaseOf bob) ⟨⟨alice, bob, "message"⟩, bob, "process", .delivered⟩ 0]

theorem revived_deliveries :
    (run (step laxPorts) .empty revived).map (fun t =>
      (t.history ⟨alice, bob, "message"⟩).map fun event => event.receipt.delivery)
      = some [.proposed, .unavailable, .unavailable, .failed, .deliveredToEndpoint] := by
  decide +kernel

/-- **A failed message is delivered after all**: not every run keeps the life of a receipt. -/
theorem not_lifecycle : ¬ ∀ (ports : MailboxPorts) (operations : List Operation) (t : MailboxState),
    run (step ports) .empty operations = some t → t.Lifecycle := by
  intro hall
  obtain ⟨t, hrun, hdeliveries⟩ := Option.map_eq_some_iff.1 revived_deliveries
  have hchain := (hall laxPorts revived t hrun).chain ⟨alice, bob, "message"⟩
  have hfailed := hchain.imp fun _ _ h => h.failed
  rw [← List.isChain_map (fun event : MailboxEvent => event.receipt.delivery)
    (R := fun a b => a = .failed → b = .failed ∨ b = .expired), hdeliveries] at hfailed
  exact absurd hfailed (by decide)

end Falryn.Orchestration.Mailbox
