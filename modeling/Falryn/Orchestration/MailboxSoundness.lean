import Falryn.Orchestration.MailboxReserve

/-!
# The stories stay sound

`Story.Sound` is what holds of the story of every message, and `Post.Sound` what holds of all stories
together: a reply that was admitted is the one its request names.  Every move keeps it.
-/

namespace Falryn.Orchestration.Mailbox

/-! ## One story -/

/-- What holds of the story of a message. -/
structure Story.Sound (senderRetired : Prop) (key : MessageKey) (story : Story) : Prop where
  keyed : story.receipt.key = key
  digest : messageKey story.receipt.digest = key
  sender : story.receipt.sender = key.sender
  recipient : story.receipt.recipient = key.recipient
  correlation : story.receipt.correlation = story.receipt.digest.correlation
  /-- Only a reply names a request. -/
  kind : story.receipt.digest.correlation = none ↔ story.receipt.digest.kind ≠ .reply
  /-- The payload is there until the message is cleaned up. -/
  payload : story.payload =
    if story.receipt.tombstoned then none else some story.receipt.digest
  events : ∀ event ∈ story.log, event.key = key ∧ event.revision = event.receipt.revision
  /-- One event for each revision. -/
  revisions : story.log.map MailboxEvent.revision = List.range' 1 story.receipt.revision
  /-- The last event has the receipt. -/
  current : story.log.getLast?.map MailboxEvent.receipt = some story.receipt
  /-- Each event has the receipt that follows the one before. -/
  chain : story.log.IsChain fun a b => Follows a.receipt b.receipt
  coherent : story.receipt.Coherent
  bounded : story.receipt.revision + story.receipt.reserve senderRetired ≤ MailboxLimits.revisions
  /-- A receipt that announces the message was announced. -/
  announced : story.receipt.Announces → story.notified

/-- A log whose receipts are related one to the next stays so with one more. -/
theorem chain_concat {R : MailboxReceipt → MailboxReceipt → Prop} {log : List MailboxEvent}
    {event : MailboxEvent} {old : MailboxReceipt}
    (hchain : log.IsChain fun a b => R a.receipt b.receipt)
    (hlast : log.getLast?.map MailboxEvent.receipt = some old) (h : R old event.receipt) :
    (log ++ [event]).IsChain fun a b => R a.receipt b.receipt := by
  refine List.isChain_append.2 ⟨hchain, List.isChain_singleton _, fun a ha b hb => ?_⟩
  rw [List.head?_cons, Option.mem_some_iff] at hb
  rw [Option.mem_def] at ha
  rw [ha, Option.map_some, Option.some.injEq] at hlast
  rw [← hb, hlast]
  exact h

namespace Story.Sound

variable {P Q : Prop} {key : MessageKey} {story : Story} {receipt : MailboxReceipt} {fact : Fact}

theorem not_tombstoned (h : story.Sound P key) {message : PeerMessage}
    (hpayload : story.payload = some message) :
    story.receipt.tombstoned = false ∧ message = story.receipt.digest := by
  rw [h.payload] at hpayload
  rcases htomb : story.receipt.tombstoned with _ | _
  · rw [htomb, if_neg Bool.false_ne_true] at hpayload
    exact ⟨rfl, (Option.some.inj hpayload).symm⟩
  · rw [htomb, if_pos rfl] at hpayload
    cases hpayload

/-- A story goes on with a receipt that follows. -/
theorem after (h : story.Sound P key)
    (hfollows : Follows story.receipt receipt) (hcoherent : receipt.Coherent)
    (hbounded : receipt.revision + receipt.reserve Q ≤ MailboxLimits.revisions)
    (htomb : receipt.tombstoned = story.receipt.tombstoned)
    (hfact : fact = .transition ∨ (receipt.Announces → story.receipt.Announces)) :
    (story.after receipt fact).Sound Q key where
  keyed := hfollows.key.trans h.keyed
  digest := by
    show messageKey receipt.digest = key
    rw [hfollows.digest, h.digest]
  sender := hfollows.sender.trans h.sender
  recipient := hfollows.recipient.trans h.recipient
  correlation := by
    show receipt.correlation = receipt.digest.correlation
    rw [hfollows.correlation, hfollows.digest, h.correlation]
  kind := by
    show receipt.digest.correlation = none ↔ receipt.digest.kind ≠ .reply
    rw [hfollows.digest]
    exact h.kind
  payload := by
    show story.payload = if receipt.tombstoned then none else some receipt.digest
    rw [htomb, hfollows.digest]
    exact h.payload
  events := fun event hmem => by
    rcases List.mem_append.1 hmem with hold | hnew
    · exact h.events event hold
    · rw [List.mem_singleton.1 hnew]
      exact ⟨hfollows.key.trans h.keyed, rfl⟩
  revisions := by
    show (story.log ++ [_]).map MailboxEvent.revision = List.range' 1 receipt.revision
    rw [List.map_append, h.revisions, hfollows.revision, List.range'_1_concat]
    exact congrArg (List.range' 1 story.receipt.revision ++ [·])
      (Nat.add_comm _ _)
  current := by
    show (story.log ++ [_]).getLast?.map MailboxEvent.receipt = some receipt
    rw [List.getLast?_concat]
    rfl
  chain := chain_concat h.chain h.current hfollows
  coherent := hcoherent
  bounded := hbounded
  announced := fun hannounces => by
    rcases hfact with htransition | hbefore
    · exact .inr ⟨htransition, hannounces⟩
    · exact .inl (h.announced (hbefore hannounces))

theorem revise (h : story.Sound P key) (hrevises : Revises Q story.receipt receipt)
    (htomb : receipt.tombstoned = story.receipt.tombstoned)
    (hfact : fact = .transition ∨ (receipt.Announces → story.receipt.Announces)) :
    (story.after receipt fact).Sound Q key :=
  h.after hrevises.follows hrevises.coherent hrevises.bounded htomb hfact

theorem mono (h : story.Sound P key) (hPQ : P → Q) : story.Sound Q key :=
  { h with bounded := (Nat.add_le_add_left (MailboxReceipt.reserve_anti hPQ _) _).trans h.bounded }

/-- **A change keeps a story sound.** -/
theorem tell (h : story.Sound P key) {change : Change} (hroom : story.receipt.revision < change.room)
    (hfits : change.Fits story.receipt) : (change.tell story).Sound P key := by
  have hrevises := Change.revises hfits hroom h.coherent h.bounded
  by_cases hcleaned : change = .cleaned
  · subst hcleaned
    exact
      { keyed := hrevises.follows.key.trans h.keyed
        digest := h.digest
        sender := h.sender
        recipient := h.recipient
        correlation := h.correlation
        kind := h.kind
        payload := rfl
        events := fun event hmem => by
          rcases List.mem_append.1 hmem with hold | hnew
          · exact h.events event hold
          · rw [List.mem_singleton.1 hnew]
            exact ⟨h.keyed, rfl⟩
        revisions := by
          show (story.log ++ [_]).map MailboxEvent.revision
            = List.range' 1 (story.receipt.revision + 1)
          rw [List.map_append, h.revisions, List.range'_1_concat]
          exact congrArg (List.range' 1 story.receipt.revision ++ [·]) (Nat.add_comm _ _)
        current := by
          show (story.log ++ [_]).getLast?.map MailboxEvent.receipt = _
          rw [List.getLast?_concat]
          rfl
        chain := chain_concat h.chain h.current hrevises.follows
        coherent := hrevises.coherent
        bounded := hrevises.bounded
        announced := fun hannounces => .inr ⟨rfl, hannounces⟩ }
  · have hpayload : change.tell story = story.after (change.apply story.receipt) change.fact := by
      cases change with
      | cleaned => exact absurd rfl hcleaned
      | _ => rfl
    rw [hpayload]
    refine h.revise hrevises ?_ ?_
    · cases change with
      | cleaned => exact absurd rfl hcleaned
      | _ => rfl
    · cases change with
      | conflicted => exact .inr id
      | _ => exact .inl rfl

/-- The request that is answered. -/
theorem answered (h : story.Sound P key) (reply : MessageKey) (hopen : story.receipt.Open) :
    (story.answered reply).Sound P key :=
  h.revise (repliedPatch_revises reply hopen h.coherent h.bounded) rfl (.inl rfl)

theorem admitted (h : story.Sound P key) (policy : PeerPolicy)
    (hpending : story.receipt.delivery.Pending) : (story.admitted policy).Sound P key := by
  have hsound : (story.after (admittedReceipt story.receipt policy) .transition).Sound P key :=
    h.revise (admittedReceipt_revises policy hpending h.coherent h.bounded) rfl (.inl rfl)
  exact { hsound with }

theorem queued (h : story.Sound P key) (identity : PeerIdentity) :
    (story.queued identity).Sound P key := by
  unfold Story.queued
  split_ifs with hqueues
  · exact h.revise (queuedReceipt_revises hqueues.2 h.coherent h.bounded) rfl (.inl rfl)
  · exact h

/-- The end of a peer keeps a story sound, if the peer had not retired before. -/
theorem ended (h : story.Sound P key) (identity : PeerIdentity) (state : EndpointState)
    (hbefore : key.sender = identity → ¬ P)
    (hafter : Q ↔ P ∨ (key.sender = identity ∧ state = .retired)) :
    (story.ended identity state).Sound Q key := by
  unfold Story.ended
  split_ifs with hends
  · obtain ⟨hpeer, -, htomb, hopen⟩ := hends
    refine h.after (endedReceipt_follows state _ hopen) (endedReceipt_coherent state _ h.coherent)
      ?_ rfl (.inl rfl)
    by_cases hinbound : story.receipt.recipient = identity
    · rw [decide_eq_true hinbound]
      refine (Nat.add_le_add_left (MailboxReceipt.reserve_anti ?_ _) _).trans
        (endedReceipt_bounded_of_inbound state ⟨hopen, htomb⟩ h.bounded)
      exact fun hP => hafter.2 (.inl hP)
    · rw [decide_eq_false hinbound]
      obtain ⟨hsender, hretired⟩ := hpeer.resolve_left hinbound
      rw [h.sender] at hsender
      exact endedReceipt_bounded_of_outbound state ⟨hopen, htomb⟩ (hbefore hsender)
        (hafter.2 (.inr ⟨hsender, hretired⟩)) h.bounded
  · exact h.mono fun hP => hafter.2 (.inl hP)

end Story.Sound

theorem firstReceipt_delivery (message : PeerMessage) (receiving : Bool) (policy : PeerPolicy) :
    (firstReceipt message receiving policy).delivery = .proposed
      ∨ (firstReceipt message receiving policy).delivery = .acceptedForPersistence := by
  cases receiving with
  | false => exact .inl rfl
  | true => exact .inr rfl

/-- The first receipt of a message has all its reserve. -/
theorem firstStory_sound {P : Prop} {message : PeerMessage} (receiving : Bool)
    (policy : PeerPolicy) (hkind : message.correlation = none ↔ message.kind ≠ .reply) :
    (firstStory message receiving policy).Sound P (messageKey message) where
  keyed := rfl
  digest := rfl
  sender := rfl
  recipient := rfl
  correlation := rfl
  kind := hkind
  payload := rfl
  events := fun _ hmem => by
    rw [List.mem_singleton.1 hmem]
    exact ⟨rfl, rfl⟩
  revisions := rfl
  current := rfl
  chain := List.isChain_singleton _
  coherent :=
    { closed := fun h => by
        rcases h with hclosed | hgone
        · exact absurd hclosed (not_or.2 ⟨(nomatch ·), (nomatch ·)⟩)
        · rcases firstReceipt_delivery message receiving policy with h | h
          · exact absurd (h ▸ hgone) (not_or.2 ⟨(nomatch ·), (nomatch ·)⟩)
          · exact absurd (h ▸ hgone) (not_or.2 ⟨(nomatch ·), (nomatch ·)⟩)
      buried := fun h => nomatch h }
  bounded := by
    have hreserve := (firstReceipt message receiving policy).reserve_le P
    have hlimit : MailboxLimits.revisions = 16 := rfl
    show 1 + (firstReceipt message receiving policy).reserve P ≤ _
    omega
  announced := fun hannounces => .inr ⟨rfl, hannounces⟩

/-! ## All stories -/

/-- What holds of all stories together. -/
structure Post.Sound (p : Post) : Prop where
  stories : ∀ {key story}, p.stories key = some story → story.Sound (p.retired key.sender) key
  /-- A reply that was admitted is the one its request names. -/
  answered : ∀ {key story correlation}, p.stories key = some story → story.accepted = true →
    story.receipt.correlation = some correlation →
      ∃ request, p.stories ⟨key.recipient, key.sender, correlation⟩ = some request
        ∧ request.receipt.handling = .replied ∧ request.receipt.reply = some key

/-- What a story keeps besides its soundness. -/
structure Story.Keeps (old new : Story) : Prop where
  accepted : new.accepted = old.accepted
  correlation : new.receipt.correlation = old.receipt.correlation
  handling : old.receipt.handling.Closed →
    new.receipt.handling = old.receipt.handling ∧ new.receipt.reply = old.receipt.reply

theorem Story.Keeps.refl (story : Story) : story.Keeps story := ⟨rfl, rfl, fun _ => ⟨rfl, rfl⟩⟩

variable {story : Story}

theorem Story.keeps_after {receipt : MailboxReceipt} {fact : Fact}
    (h : Follows story.receipt receipt) : story.Keeps (story.after receipt fact) :=
  ⟨rfl, h.correlation, h.handling⟩

theorem Story.keeps_tell {change : Change} (h : change.Fits story.receipt) :
    story.Keeps (change.tell story) :=
  have hfollows := Change.follows h
  ⟨rfl, hfollows.correlation, hfollows.handling⟩

theorem Story.keeps_queued (story : Story) (identity : PeerIdentity) :
    story.Keeps (story.queued identity) := by
  unfold Story.queued
  split_ifs with h
  · exact ⟨rfl, rfl, fun _ => ⟨rfl, rfl⟩⟩
  · exact .refl story

theorem Story.keeps_ended (story : Story) (identity : PeerIdentity) (state : EndpointState) :
    story.Keeps (story.ended identity state) := by
  unfold Story.ended
  split_ifs with h
  · exact Story.keeps_after (endedReceipt_follows state _ h.2.2.2)
  · exact .refl story

namespace Post

theorem put_self (p : Post) (key : MessageKey) (story : Story) :
    (p.put key story).stories key = some story := Function.update_self ..

theorem put_ne (p : Post) {key other : MessageKey} (story : Story) (h : other ≠ key) :
    (p.put key story).stories other = p.stories other := Function.update_of_ne h ..

@[simp] theorem put_retired (p : Post) (key : MessageKey) (story : Story) :
    (p.put key story).retired = p.retired := rfl

theorem answer_none (p : Post) (reply : MessageKey) : p.answer none reply = p := rfl

theorem answer_some {p : Post} {request reply : MessageKey} (h : p.stories request = some story) :
    p.answer (some request) reply = p.put request (story.answered reply) := by
  unfold answer
  rw [Option.bind_some, h]
  rfl

namespace Sound

variable {p : Post}

variable {q : Post} {key : MessageKey}

/-- Where every story is kept, the replies are still the ones their requests name. -/
theorem of_keeps (hp : p.Sound) (hstories : ∀ {key story}, q.stories key = some story →
      story.Sound (q.retired key.sender) key
        ∧ ∃ old, p.stories key = some old ∧ old.Keeps story)
    (hall : ∀ {key old}, p.stories key = some old → ∃ story, q.stories key = some story
      ∧ old.Keeps story) : q.Sound where
  stories := fun h => (hstories h).1
  answered := fun h haccepted hcorrelation => by
    obtain ⟨-, old, hold, hkeeps⟩ := hstories h
    obtain ⟨request, hrequest, hhandling, hreply⟩ := hp.answered hold
      (hkeeps.accepted ▸ haccepted) (hkeeps.correlation ▸ hcorrelation)
    obtain ⟨request', hrequest', hkeeps'⟩ := hall hrequest
    obtain ⟨h₁, h₂⟩ := hkeeps'.handling (.inl hhandling)
    exact ⟨request', hrequest', h₁.trans hhandling, h₂.trans hreply⟩

/-- One story that is kept. -/
theorem put (hp : p.Sound) {old new : Story} (hold : p.stories key = some old)
    (hsound : new.Sound (p.retired key.sender) key) (hkeeps : old.Keeps new) :
    (p.put key new).Sound := by
  refine hp.of_keeps (fun {other story} h => ?_) fun {other story} h => ?_
  · by_cases hother : other = key
    · subst hother
      rw [put_self] at h
      cases h
      exact ⟨hsound, old, hold, hkeeps⟩
    · rw [put_ne _ _ hother] at h
      exact ⟨hp.stories h, story, h, .refl story⟩
  · by_cases hother : other = key
    · subst hother
      rw [hold] at h
      cases h
      exact ⟨new, put_self .., hkeeps⟩
    · exact ⟨story, (put_ne _ _ hother).trans h, .refl story⟩

/-- **A request that is answered is open, and names its reply from then on.** -/
theorem answer (hp : p.Sound) (new : Story) {answers : Option MessageKey}
    (hother : ∀ {other}, other ≠ key → q.stories other = p.stories other)
    (hself : q.stories key = some new) (hretired : q.retired = p.retired)
    (hsound : new.Sound (p.retired key.sender) key) (hdigest : new.receipt.digest.kind = .reply →
      ∀ old, p.stories key = some old → old.receipt.digest = new.receipt.digest)
    (hclosed : ∀ old, p.stories key = some old → old.Keeps { new with accepted := old.accepted })
    (hanswers : if new.accepted then p.AnswersAll new.receipt.digest answers else answers = none) :
    (q.answer answers key).Sound := by
  have hkept : ∀ {other request}, p.stories other = some request →
      ∃ request', q.stories other = some request'
        ∧ (request.receipt.handling.Closed →
          request'.receipt.handling = request.receipt.handling
            ∧ request'.receipt.reply = request.receipt.reply) := by
    intro other request h
    by_cases hne : other = key
    · subst hne
      exact ⟨new, hself, (hclosed request h).handling⟩
    · exact ⟨request, (hother hne).trans h, fun _ => ⟨rfl, rfl⟩⟩
  have hstories : ∀ {other story}, q.stories other = some story →
      story.Sound (q.retired other.sender) other := by
    intro other story h
    rw [hretired]
    by_cases hne : other = key
    · subst hne
      rw [hself] at h
      cases h
      exact hsound
    · rw [hother hne] at h
      exact hp.stories h
  -- Every admitted reply but the new one is named by a request that is closed already.
  have hold : ∀ {other story correlation}, other ≠ key → q.stories other = some story →
      story.accepted = true → story.receipt.correlation = some correlation →
        ∃ request request', p.stories ⟨other.recipient, other.sender, correlation⟩ = some request
          ∧ q.stories ⟨other.recipient, other.sender, correlation⟩ = some request'
          ∧ request.receipt.handling = .replied ∧ request'.receipt.handling = .replied
          ∧ request'.receipt.reply = some other := by
    intro other story correlation hne h haccepted hcorrelation
    rw [hother hne] at h
    obtain ⟨request, hrequest, hhandling, hreply⟩ := hp.answered h haccepted hcorrelation
    obtain ⟨request', hrequest', hkeeps⟩ := hkept hrequest
    obtain ⟨h₁, h₂⟩ := hkeeps (.inl hhandling)
    exact ⟨request, request', hrequest, hrequest', hhandling, h₁.trans hhandling, h₂.trans hreply⟩
  rcases answers with _ | request
  · rw [answer_none]
    refine ⟨hstories, fun {other story correlation} h haccepted hcorrelation => ?_⟩
    by_cases hne : other = key
    · subst hne
      rw [hself] at h
      cases h
      rw [if_pos haccepted] at hanswers
      rw [hsound.correlation] at hcorrelation
      exact absurd (hanswers.symm.trans hcorrelation) (nomatch ·)
    · obtain ⟨_, request', _, hrequest', _, hhandling, hreply⟩ := hold hne h haccepted hcorrelation
      exact ⟨request', hrequest', hhandling, hreply⟩
  · have haccepted : new.accepted = true := by
      by_contra hnot
      rw [if_neg hnot] at hanswers
      cases hanswers
    rw [if_pos haccepted] at hanswers
    obtain ⟨correlation, hcorrelation, rfl, story, hstory, hkind, hopen⟩ := hanswers
    have hsoundRequest := hp.stories hstory
    obtain ⟨message, hpayload, hkind⟩ := Option.map_eq_some_iff.1 hkind
    obtain ⟨htomb, rfl⟩ := hsoundRequest.not_tombstoned hpayload
    have hsender : new.receipt.digest.sender = key.sender := by rw [← hsound.digest]; rfl
    have hrecipient : new.receipt.digest.recipient = key.recipient := by rw [← hsound.digest]; rfl
    rw [hsender, hrecipient] at hstory ⊢
    -- A reply is no request, so it does not answer itself.
    have hne : (⟨key.recipient, key.sender, correlation⟩ : MessageKey) ≠ key := by
      intro heq
      have hreply : new.receipt.digest.kind = .reply := by
        by_contra hnot
        exact absurd ((hsound.kind.2 hnot).symm.trans hcorrelation) (nomatch ·)
      rw [heq] at hstory
      rw [hdigest hreply story hstory] at hkind
      exact absurd (hkind.symm.trans hreply) (nomatch ·)
    rw [answer_some ((hother hne).trans hstory)]
    refine ⟨fun {other found} h => ?_, fun {other found correlation'} h hfound hnames => ?_⟩
    · by_cases hreq : other = ⟨key.recipient, key.sender, correlation⟩
      · subst hreq
        rw [put_self] at h
        cases h
        rw [put_retired, hretired]
        rw [hsender, hrecipient] at hsoundRequest
        exact hsoundRequest.answered key ⟨hopen, htomb⟩
      · rw [put_ne _ _ hreq] at h
        exact hstories h
    · by_cases hself' : other = key
      · subst hself'
        have hnew : found = new := by
          rw [put_ne _ _ (Ne.symm hne), hself] at h
          exact (Option.some.inj h).symm
        rw [hnew, hsound.correlation, hcorrelation] at hnames
        cases hnames
        exact ⟨_, put_self .., rfl, rfl⟩
      · -- Another admitted reply: its request is closed, so it is not the one answered now.
        have hbefore : ∃ before, q.stories other = some before ∧ before.accepted = true
            ∧ before.receipt.correlation = some correlation' := by
          by_cases hreq : other = ⟨key.recipient, key.sender, correlation⟩
          · subst hreq
            rw [put_self] at h
            cases h
            exact ⟨story, (hother hne).trans hstory, hfound, hnames⟩
          · rw [put_ne _ _ hreq] at h
            exact ⟨found, h, hfound, hnames⟩
        obtain ⟨before, hbefore, haccepted', hcorrelation'⟩ := hbefore
        obtain ⟨old, request', hold', hrequest', hclosed', hhandling, hreply⟩ :=
          hold hself' hbefore haccepted' hcorrelation'
        refine ⟨request', (put_ne _ _ fun heq => ?_).trans hrequest', hhandling, hreply⟩
        rw [heq, hstory] at hold'
        cases hold'
        exact hopen (.inl hclosed')

/-- **Every move keeps the stories sound.** -/
theorem move (hp : p.Sound) {m : Move} (hmove : p.move m = some q) : q.Sound := by
  obtain ⟨hlegal, rfl⟩ := move_eq_some.1 hmove
  cases m with
  | post message receiving policy answers =>
    obtain ⟨hnone, -, -, hanswers, hkind⟩ := hlegal
    refine hp.answer (firstStory message receiving policy)
      (fun hne => put_ne _ _ hne) (put_self ..) rfl (firstStory_sound receiving policy hkind)
      (fun _ old hold => absurd (hnone.symm.trans hold) (fun h => by cases h))
      (fun old hold => absurd (hnone.symm.trans hold) (fun h => by cases h)) hanswers
  | admitted key policy answers =>
    obtain ⟨story, hstory, hpending, -, -, hanswers⟩ := hlegal
    rw [after_admitted hstory]
    have hsound := (hp.stories hstory).admitted policy hpending
    refine hp.answer (story.admitted policy) (fun hne => put_ne _ _ hne) (put_self ..) rfl
      hsound (fun _ old hold => ?_) (fun old hold => ?_) ?_
    · rw [hstory] at hold
      cases hold
      rfl
    · rw [hstory] at hold
      cases hold
      exact ⟨rfl, rfl, fun _ => ⟨rfl, rfl⟩⟩
    · exact hanswers
  | change key change =>
    obtain ⟨story, hstory, hroom, hfits⟩ := hlegal
    rw [after_change hstory]
    exact hp.put hstory ((hp.stories hstory).tell hroom hfits) (Story.keeps_tell hfits)
  | enrolled identity state =>
    refine hp.of_keeps (fun {key story} h => ⟨(hp.stories h).mono fun hretired => ?_, story, h,
      .refl story⟩) fun {key story} h => ⟨story, h, .refl story⟩
    show if key.sender = identity then state = .retired else p.retired key.sender
    have hne : key.sender ≠ identity := by
      rintro rfl
      exact hlegal hretired
    rw [if_neg hne]
    exact hretired
  | wentOffline identity =>
    refine hp.of_keeps (fun {key story} h => ?_) fun {key story} h => ?_
    · obtain ⟨old, hold, rfl⟩ := Option.map_eq_some_iff.1 h
      exact ⟨(hp.stories hold).queued identity, old, hold, old.keeps_queued identity⟩
    · exact ⟨story.queued identity, Option.map_eq_some_iff.2 ⟨story, h, rfl⟩,
        story.keeps_queued identity⟩
  | ended identity state =>
    refine hp.of_keeps (fun {key story} h => ?_) fun {key story} h => ?_
    · obtain ⟨old, hold, rfl⟩ := Option.map_eq_some_iff.1 h
      exact ⟨(hp.stories hold).ended identity state (fun h' => by rw [h']; exact hlegal) Iff.rfl,
        old, hold,
        old.keeps_ended identity state⟩
    · exact ⟨story.ended identity state, Option.map_eq_some_iff.2 ⟨story, h, rfl⟩,
        story.keeps_ended identity state⟩

end Sound

end Post

end Falryn.Orchestration.Mailbox
