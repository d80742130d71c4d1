import Falryn.Orchestration.MailboxRevisions

/-!
# A refusal that is settled

A receipt is denied once its recipient has refused the message, or a revoked route has settled the wait
of the sender.  Nothing looks at this when a message is admitted, when its recipient goes offline, when
a held message is released, or when a message whose policy was allowed again is acknowledged: these are
the steps of `Restores`, and without them a denied message stays away for good.
-/

namespace Falryn.Orchestration.Mailbox

open StateMachine Transaction

/-! ## Denied messages -/

/-- The message is refused, or its route was revoked and its sender told. -/
def MailboxReceipt.Denied (receipt : MailboxReceipt) : Prop :=
  receipt.handling = .refused ∨ (receipt.policy = .revoked ∧ receipt.wait = .settled)

/-- The receipt of a message was denied once. -/
def MailboxState.WasDenied (s : MailboxState) (key : MessageKey) : Prop :=
  ∃ event ∈ s.history key, event.receipt.Denied

/-- A step that is about to bring a denied message to its recipient. -/
def Restores (ports : MailboxPorts) (s : MailboxState) : Operation → Prop
  | .admitPeer lease message now route available =>
    s.WasDenied (messageKey message) ∧ Admits ports s lease message now route available
  | .renew lease state now label =>
    state = .offline ∧ GoesOffline ports s lease now label
      ∧ ∃ key row, s.messages.get key = some row ∧ s.WasDenied key
        ∧ row.receipt.recipient = lease.identity
        ∧ row.receipt.delivery = .acceptedForPersistence
  | .acknowledge lease ack now =>
    ack.kind ≠ .refused ∧ s.WasDenied ack.key
      ∧ ∃ receipt, Acknowledges s lease ack now receipt
        ∧ receipt.delivery ≠ .deliveredToEndpoint
  | .release lease key now =>
    s.WasDenied key ∧ ¬ s.Notified key
      ∧ ∃ receipt, Releases s lease key now receipt ∧ receipt.delivery.Arrived
  | _ => False

/-- The story of a message was denied once. -/
def Story.WasDenied (story : Story) : Prop := ∃ event ∈ story.log, event.receipt.Denied

/-- A move that brings no denied message to its recipient. -/
def Withheld (p : Post) (m : Move) : Prop :=
  ∀ key story, p.stories key = some story → story.WasDenied →
    match m with
    | .admitted other _ _ => other ≠ key
    | .change other .delivered =>
      other = key → story.receipt.delivery = .deliveredToEndpoint
    | .change other .processing =>
      other = key → story.receipt.delivery = .deliveredToEndpoint
    | .change other .released => other = key → story.receipt.delivery.Arrived → story.notified
    | .wentOffline identity => ¬ story.Queues identity
    | _ => True

variable {p : Post} {m : Move}

theorem withheld_of_harmless (h : Harmless p m) : Withheld p m := by
  intro key story hstory _
  cases m with
  | admitted | wentOffline => exact h.elim
  | change _ change =>
    cases change with
    | delivered | processing => exact h.elim
    | released =>
      rintro rfl harrived
      exact absurd harrived (h story hstory)
    | _ => trivial
  | _ => trivial

variable {key : MessageKey} {s : MailboxState} {story : Story}

theorem wasDenied_of_story
    (hstory : s.story key = some story) : story.WasDenied ↔ s.WasDenied key := by
  obtain ⟨row, -, rfl⟩ := MailboxState.story_eq_some.1 hstory
  exact Iff.rfl

/-- A step that restores nothing makes moves that bring nothing back. -/
theorem withheld_of_returns {ports : MailboxPorts} {operation : Operation} (hnot : ¬ Restores ports s operation) (h : Returns ports s m operation) :
    Withheld s.post m := by
  intro key story hstory hdenied
  have hwas := (wasDenied_of_story hstory).1 hdenied
  have hreceipt := receipt_of_story hstory
  cases operation with
  | admitPeer lease _ now =>
    obtain ⟨⟨policy, answers, rfl⟩, hadmits⟩ := h
    rintro rfl
    exact hnot ⟨hwas, hadmits⟩
  | renew lease _ now =>
    obtain ⟨rfl, hoffline, hgoes⟩ := h
    intro hqueues
    obtain ⟨row, hrow, rfl⟩ := MailboxState.story_eq_some.1 hstory
    exact hnot ⟨hoffline, hgoes, key, row, hrow, hwas, hqueues⟩
  | acknowledge lease ack now =>
    obtain ⟨rfl, hkind, receipt, hacks⟩ := h
    have hdelivered (hkey : ack.key = key) : story.receipt.delivery = .deliveredToEndpoint := by
      subst hkey
      have hsame := hreceipt.symm.trans hacks.1
      cases hsame
      by_contra hne
      exact hnot ⟨hkind, hwas, _, hacks, hne⟩
    cases hack : ack.kind with
    | delivered | processing => exact hdelivered
    | refused => exact absurd hack hkind
  | release lease _ now =>
    obtain ⟨rfl, receipt, hreleases, harrived⟩ := h
    rintro rfl _
    obtain ⟨row, -, rfl⟩ := MailboxState.story_eq_some.1 hstory
    by_contra hnotified
    exact hnot ⟨hwas, hnotified, receipt, hreleases, harrived⟩
  | _ => exact h.elim

/-! ## What is denied stays away -/

theorem not_arrived_expired : ¬ Delivery.Arrived .expired :=
  not_or.2 ⟨(nomatch ·), not_or.2 ⟨(nomatch ·), (nomatch ·)⟩⟩

theorem not_arrived_failed : ¬ Delivery.Arrived .failed :=
  not_or.2 ⟨(nomatch ·), not_or.2 ⟨(nomatch ·), (nomatch ·)⟩⟩

theorem not_arrived_unavailable : ¬ Delivery.Arrived .unavailable :=
  not_or.2 ⟨(nomatch ·), not_or.2 ⟨(nomatch ·), (nomatch ·)⟩⟩

/-- What a receipt that goes on after a denial may not do. -/
structure Away (old : Story) (receipt : MailboxReceipt) (fact : Fact) : Prop where
  /-- The message does not come any further. -/
  delivery : receipt.delivery.Arrived → receipt.delivery = old.receipt.delivery
  /-- Its arrival is not announced, unless it was before. -/
  notified : fact = .transition → receipt.Announces → old.notified

variable {old : Story} {receipt : MailboxReceipt} {fact : Fact} {q : Post}

/-- A receipt with the delivery and the policy of the one before. -/
theorem away_of_same (hannounced : old.receipt.Announces → old.notified)
    (hdelivery : receipt.delivery = old.receipt.delivery)
    (hpolicy : receipt.policy = old.receipt.policy) : Away old receipt fact where
  delivery := fun _ => hdelivery
  notified := fun _ hannounces => hannounced ⟨hdelivery ▸ hannounces.1, hpolicy ▸ hannounces.2⟩

/-- A receipt whose policy does not allow the message. -/
theorem away_of_policy
    (hdelivery : receipt.delivery = old.receipt.delivery) (hpolicy : receipt.policy ≠ .allowed) :
    Away old receipt fact where
  delivery := fun _ => hdelivery
  notified := fun _ hannounces => absurd hannounces.2 hpolicy

/-- A receipt of a message that has not come to its recipient. -/
theorem away_of_not_arrived (h : ¬ receipt.delivery.Arrived) : Away old receipt fact where
  delivery := fun harrived => absurd harrived h
  notified := fun _ hannounces => absurd hannounces.1 h

/-- **A denied message stays away** in a move that does not bring it back. -/
theorem away_of_revised (hp : p.Sound) (hB : Withheld p m)
    (hold : p.stories key = some old) (hdenied : old.WasDenied)
    (h : Revised m key old receipt fact) : Away old receipt fact := by
  have hannounced := (hp.stories hold).announced
  have hB := hB key old hold hdenied
  cases h with
  | @change change hmove hfits _ =>
    subst hmove
    cases change with
    | expired => exact away_of_not_arrived not_arrived_expired
    | conflicted | declined | waited state | cleaned => exact away_of_same hannounced rfl rfl
    | failed => exact away_of_not_arrived not_arrived_failed
    | unavailable => exact away_of_not_arrived not_arrived_unavailable
    | held | refused | revoked => exact away_of_policy rfl (nomatch ·)
    | delivered | processing => exact away_of_same hannounced (hB rfl).symm rfl
    | released => exact ⟨fun _ => rfl, fun _ hannounces => hB rfl hannounces.1⟩
  | admitted hmove =>
    subst hmove
    exact absurd rfl hB
  | replied => exact away_of_same hannounced rfl rfl
  | queued hmove hqueues =>
    subst hmove
    exact absurd hqueues hB
  | @ended identity state _ =>
    refine away_of_policy rfl ?_
    show (if state = .retired then ReceiptPolicy.revoked else .refused) ≠ .allowed
    split_ifs <;> exact (nomatch ·)

/-- The deliveries of a message that was denied: none of them brings it further. -/
def KeptAway (log : List MailboxEvent) : Prop :=
  ∀ before a b rest, log = before ++ a :: b :: rest →
    (∃ event ∈ before ++ [a], event.receipt.Denied) →
      b.receipt.delivery.Arrived → b.receipt.delivery = a.receipt.delivery

theorem keptAway_singleton (event : MailboxEvent) : KeptAway [event] := by
  intro before a b rest h
  have hlength := congrArg List.length h
  simp only [List.length_append, List.length_cons, List.length_nil] at hlength
  omega

/-- One more event, which does not bring the message further if it was denied. -/
theorem keptAway_concat {log : List MailboxEvent} {event : MailboxEvent} {last : MailboxReceipt}
    (h : KeptAway log) (hlast : log.getLast?.map MailboxEvent.receipt = some last)
    (hevent : (∃ event ∈ log, event.receipt.Denied) → event.receipt.delivery.Arrived →
      event.receipt.delivery = last.delivery) : KeptAway (log ++ [event]) := by
  intro before a b rest heq hdenied harrived
  rcases List.eq_nil_or_concat rest with rfl | ⟨rest', e, rfl⟩
  · have hsplit : log ++ [event] = (before ++ [a]) ++ [b] := by
      rw [heq, List.append_assoc]
      rfl
    obtain ⟨rfl, hb⟩ := List.append_inj' hsplit rfl
    cases hb
    rw [List.getLast?_concat, Option.map_some, Option.some.injEq] at hlast
    rw [hlast]
    exact hevent hdenied harrived
  · have hsplit : log ++ [event] = (before ++ a :: b :: rest') ++ [e] := by
      rw [heq, List.append_assoc, List.concat_eq_append]
      rfl
    exact h before a b rest' (List.append_inj' hsplit rfl).1 hdenied harrived

/-- The run rule: moves that bring nothing back keep denied messages away. -/
theorem keptAway_of_reaches (h : Reaches Withheld p q) (hp : p.Sound)
    (hstart : ∀ {key story}, p.stories key = some story → KeptAway story.log) (hstory : q.stories key = some story) : KeptAway story.log :=
  h.told (I := fun _ story => KeptAway story.log) hp (fun _ _ _ => keptAway_singleton _)
    (fun _ _ hp hB hold hkept hrevised _ => keptAway_concat hkept (hp.stories hold).current
      fun hdenied => (away_of_revised hp hB hold hdenied hrevised).delivery)
    hstart hstory

/-- A denied message is not announced any more. -/
theorem notified_of_reaches (h : Reaches Withheld p q) (hp : p.Sound) (hold : p.stories key = some old) (hdenied : old.WasDenied) :
    ∃ new, q.stories key = some new ∧ new.WasDenied ∧ (new.notified → old.notified) := by
  refine h.kept (I := fun story => story.WasDenied ∧ (story.notified → old.notified)) hp hold
    ⟨hdenied, id⟩ fun _ _ hp hB hstory hI hrevised => ⟨?_, fun hnotified => ?_⟩
  · obtain ⟨event, hmem, hevent⟩ := hI.1
    exact ⟨event, List.mem_append_left _ hmem, hevent⟩
  · rcases hnotified with hbefore | ⟨hfact, hannounces⟩
    · exact hI.2 hbefore
    · exact hI.2 ((away_of_revised hp hB hstory hI.1 hrevised).notified hfact hannounces)

/-! ## Every run -/

/-- **A settled refusal is final**, in a run without a step that restores a denied message: after the
denial the delivery of the message is not one of those that have arrived, unless it was that one
already, and no arrival is announced. -/
theorem denied_stays_away {ports : MailboxPorts} {operations : List Operation} {t : MailboxState}
    (hrun : run (step ports) .empty operations = some t)
    (halong : Along (step ports) (fun s operation => ¬ Restores ports s operation) .empty
      operations) :
    (∀ key, KeptAway (t.history key))
      ∧ ∀ k s, run (step ports) .empty (operations.take k) = some s →
        ∀ key, s.WasDenied key → t.WasDenied key ∧ (t.Notified key → s.Notified key) := by
  have hkind (s : MailboxState) (operation : Operation) (hnot : ¬ Restores ports s operation)
      (m : Move) : Returns ports s m operation → Withheld s.post m := withheld_of_returns hnot
  have hmade := run_made (fun _ _ => withheld_of_harmless) good_empty hrun (along_mono hkind halong)
  refine ⟨fun key => ?_, fun k s hs key hwas => ?_⟩
  · exact hmade.good.history (fun before a b rest h => (List.append_ne_nil_of_right_ne_nil before
      (List.cons_ne_nil a (b :: rest)) h.symm).elim) (fun key _ hstory =>
        keptAway_of_reaches hmade.reaches good_empty.sound nofun hstory) key
  · rw [← List.take_append_drop k operations] at hrun halong
    obtain ⟨s', hs', hrest⟩ := run_append.1 hrun
    rw [hs] at hs'
    cases hs'
    have hgood := run_good good_empty hs
    have hlater := run_made (fun _ _ => withheld_of_harmless) hgood hrest
      (along_mono hkind ((along_append.1 halong).2 s hs))
    rcases hrow : s.messages.get key with _ | row
    · obtain ⟨event, hmem, -⟩ := hwas
      rw [(hgood.orderly key hrow).1] at hmem
      cases hmem
    · obtain ⟨new, hnew, hdenied, hnotified⟩ := notified_of_reaches hlater.reaches hgood.sound
        (MailboxState.story_eq_some.2 ⟨row, hrow, rfl⟩ : s.post.stories key = some _) hwas
      obtain ⟨row', -, rfl⟩ := MailboxState.story_eq_some.1 hnew
      exact ⟨hdenied, hnotified⟩

/-- A message that its recipient refuses before it is admitted. -/
def denied : List Operation :=
  proposed ++ [.policy (leaseOf bob) alice ⟨.refuse, false, 64⟩ 0]

theorem denied_stays_away_refused :
    ∃ t, run (step laxPorts) .empty denied = some t ∧ ∀ key, KeptAway (t.history key) :=
  ⟨_, rfl, (@denied_stays_away laxPorts denied _ rfl
    ⟨id, fun _ _ => ⟨id, fun _ _ => ⟨id, fun _ _ => ⟨id, fun _ _ => ⟨id, fun _ _ => trivial⟩⟩⟩⟩⟩).1⟩

/-- A message that is admitted after it was refused: its recipient lets the sender write again. -/
def readmitted : List Operation :=
  denied ++ [.policy (leaseOf bob) alice ⟨.allow, false, 64⟩ 0,
    .admitPeer (leaseOf bob) (aliceToBob "text") 0 none fun _ => true]

theorem readmitted_events :
    (run (step laxPorts) .empty readmitted).map (fun t =>
      (t.history ⟨alice, bob, "message"⟩).map fun event =>
        (event.receipt.delivery, event.receipt.handling))
      = some [(.proposed, .unacknowledged), (.proposed, .refused),
        (.acceptedForPersistence, .refused)] := by
  decide +kernel

/-- **A message that was refused is accepted**: not every run keeps denied messages away. -/
theorem not_denied_stays_away :
    ¬ ∀ (ports : MailboxPorts) (operations : List Operation) (t : MailboxState),
      run (step ports) .empty operations = some t → ∀ key, KeptAway (t.history key) := by
  intro hall
  obtain ⟨t, hrun, hevents⟩ := Option.map_eq_some_iff.1 readmitted_events
  have hkept := hall laxPorts readmitted t hrun ⟨alice, bob, "message"⟩
  obtain ⟨first, _, hhistory, -, hevents⟩ := List.map_eq_cons_iff.1 hevents
  obtain ⟨second, _, rfl, hsecond, hevents⟩ := List.map_eq_cons_iff.1 hevents
  obtain ⟨third, _, rfl, hthird, -⟩ := List.map_eq_cons_iff.1 hevents
  have hdelivery := hkept [first] second third _ hhistory
    ⟨second, List.mem_append_right _ List.mem_cons_self, .inl (congrArg Prod.snd hsecond)⟩
    (.inl (congrArg Prod.fst hthird))
  exact nomatch (congrArg Prod.fst hthird).symm.trans
    (hdelivery.trans (congrArg Prod.fst hsecond))

end Falryn.Orchestration.Mailbox
