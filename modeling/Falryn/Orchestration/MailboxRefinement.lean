import Falryn.Orchestration.MailboxMoves

/-!
# Every transaction makes moves

One theorem for each transaction of the store: where it ends, answered or refused, moves have led there,
and it throws only where a policy or a revocation finds no revision left.  A transaction that can bring
a message back to its recipient asks its moves of that kind to be in `B`.
-/

namespace Falryn.Orchestration.Mailbox

open Transaction

/-- What a transaction may throw: a policy or a revocation found no revision left on a receipt. -/
def Capacity (t : MailboxThrow) : Prop :=
  t = .policyRevisionCapacity ∨ t = .routeRevisionCapacity

/-- A transaction makes moves of a kind, and throws for no other reason than the capacity. -/
def Moves {α : Type} (B : Post → Move → Prop) (p : Tx α) (s : MailboxState) : Prop :=
  Ends Capacity (fun _ s' => Made B s s') p s

variable {B : Post → Move → Prop} {s : MailboxState}

/-! ## Receipts the peers change -/

theorem inspect_moves (h : s.Good) (hB : ∀ p m, Harmless p m → B p m) (lease : PeerLease)
    (key : MessageKey) (now : ℕ) (reviewHeld : Bool) (subject : PeerIdentity) :
    Moves B (inspect lease key now reviewHeld subject) s := by
  refine Ends.bind (ends_access h hB (Q := fun _ s' => Made B s s') (fun _ => .refl h) ?_) ?_ ?_
  · exact fun _ haccess => haccess.made
  · exact fun _ _ hmade => hmade
  · exact fun _ _ hmade => ends_pure.2 hmade

variable {lease : PeerLease} {key : MessageKey} {now : ℕ} {α : Type}

/-- `access` in front of a transaction. -/
theorem access_moves (h : s.Good) (hB : ∀ p m, Harmless p m → B p m) {subject : PeerIdentity}
    {k : MailboxRecord → Tx α}
    (hk : ∀ {s' record story current}, reader lease subject now s = .ok current →
      Accessed B s s' key now record story → Ends Capacity (fun _ t => Made B s t) (k record) s') :
    Moves B (access lease key now subject >>= k) s := by
  refine ends_bind.2 (ends_access h hB (fun _ => .refl h) fun hreader haccess => ?_)
  exact hk hreader haccess

variable {story : Story} {current : PeerEndpoint}

theorem change_moves {Q : MailboxState → Prop} (h : s.Good)
    (hstory : s.story key = some story) (change : Change) (hfits : change.Fits story.receipt)
    (hceiling : (change.patch story.receipt).ceiling = change.room) (hne : change ≠ .cleaned)
    (hB : story.receipt.revision < change.room → B s.post (.change key change))
    (hQ : ∀ s', Made B s s' → Q s') :
    Ends Capacity (fun _ s' => Q s')
      (Mailbox.change story.receipt (change.patch story.receipt) change.fact) s :=
  ends_change h hstory change hfits hceiling hne hB (fun _ => hQ s (.refl h))
    fun _ hmade => hQ _ hmade

theorem localWait_moves (h : s.Good) (hB : ∀ p m, Harmless p m → B p m) (lease : PeerLease)
    (key : MessageKey) (state : LocalWait) (now : ℕ) :
    Moves B (localWait lease key state now) s := by
  refine access_moves h hB fun {s' record story current} _ haccess => ?_
  dsimp only
  rw [haccess.receipt]
  refine ends_check_bind (fun _ _ => haccess.made) fun _ _ => ?_
  by_cases hwait : story.receipt.wait ≠ .open
  · rw [if_pos hwait]
    exact ends_pure.2 haccess.made
  · rw [if_neg hwait]
    exact change_moves haccess.made.good haccess.told (.waited state) (not_not.1 hwait) rfl
      (nomatch ·) (fun _ => hB _ _ trivial) fun _ hmade => haccess.made.trans hmade

/-- What `release` finds where it changes a receipt. -/
def Releases (s : MailboxState) (lease : PeerLease) (key : MessageKey) (now : ℕ)
    (receipt : MailboxReceipt) : Prop :=
  (s.messages.get key).map MessageRow.receipt = some receipt
    ∧ (owner lease now false s).isOk ∧ receipt.recipient = lease.identity
    ∧ (allowed s receipt.sender receipt.recipient).map PeerPolicy.mode = some .allow
    ∧ now < receipt.expiresAt ∧ receipt.policy = .held
    ∧ receipt.revision < MailboxLimits.revisions - 6

theorem receipt_of_story (h : s.story key = some story) :
    (s.messages.get key).map MessageRow.receipt = some story.receipt := by
  obtain ⟨row, hrow, rfl⟩ := MailboxState.story_eq_some.1 h
  rw [hrow]
  rfl

theorem reader_self
    (h : reader lease lease.identity now s = .ok current) : (owner lease now false s).isOk := by
  obtain ⟨found, hfound, -⟩ := except_bind_ok.1 h
  rw [hfound]
  rfl

theorem release_moves (h : s.Good) (hB : ∀ p m, Harmless p m → B p m) (lease : PeerLease)
    (key : MessageKey) (now : ℕ)
    (hrelease : ∀ receipt, Releases s lease key now receipt → receipt.delivery.Arrived →
      B s.post (.change key .released)) : Moves B (release lease key now) s := by
  refine access_moves h hB fun {s' record story current} hreader haccess => ?_
  dsimp only
  rw [haccess.receipt]
  refine ends_check_bind (fun _ _ => haccess.made) fun _ hrecipient => ?_
  refine ends_query_bind (fun _ _ => haccess.made) fun _ hallowed => ?_
  by_cases hheld : story.receipt.policy = .held
  · rw [if_pos hheld]
    refine change_moves (B := B) haccess.made.good haccess.told .released hheld rfl (nomatch ·)
      (fun hroom => ?_) fun _ hmade => haccess.made.trans hmade
    · by_cases harrived : story.receipt.delivery.Arrived
      · have hne : story.receipt.delivery ≠ .expired := fun hexp => by
          rw [hexp] at harrived
          rcases harrived with h | h | h <;> cases h
        obtain rfl := haccess.same.resolve_left hne
        exact hrelease story.receipt ⟨receipt_of_story haccess.told, reader_self hreader,
          not_not.1 (refuseIf_ok.1 hrecipient), not_not.1 (refuseIf_ok.1 hallowed),
          haccess.current.resolve_right hne, hheld, hroom⟩ harrived
      · refine hB _ _ fun _ hother => ?_
        rw [show s'.post.stories key = s'.story key from rfl, haccess.told] at hother
        cases hother
        exact harrived
  · rw [if_neg hheld]
    exact ends_pure.2 haccess.made

/-- The change that an acknowledgement is. -/
def AckKind.change : AckKind → Change
  | .delivered => .delivered
  | .processing => .processing
  | .refused => .declined

/-- What `acknowledge` finds where it changes a receipt. -/
def Acknowledges (s : MailboxState) (lease : PeerLease) (ack : DeliveryAck) (now : ℕ)
    (receipt : MailboxReceipt) : Prop :=
  (s.messages.get ack.key).map MessageRow.receipt = some receipt
    ∧ (owner lease now false s).isOk ∧ lease.identity = receipt.recipient
    ∧ ack.recipient = lease.identity ∧ ack.processGeneration = lease.processGeneration
    ∧ (receipt.policy = .allowed ∨ ack.kind = .refused)
    ∧ receipt.delivery ≠ .proposed ∧ receipt.delivery ≠ .expired ∧ now < receipt.expiresAt
    ∧ ¬ receipt.handling.Closed ∧ ¬ receipt.Acknowledged ack.kind
    ∧ receipt.revision < ack.kind.change.room

theorem acknowledge_moves (h : s.Good) (hB : ∀ p m, Harmless p m → B p m) (lease : PeerLease)
    (ack : DeliveryAck) (now : ℕ)
    (hack : ∀ receipt, ack.kind ≠ .refused → Acknowledges s lease ack now receipt →
      B s.post (.change ack.key ack.kind.change)) : Moves B (acknowledge lease ack now) s := by
  refine access_moves h hB fun {s' record story current} hreader haccess => ?_
  dsimp only
  rw [haccess.receipt]
  refine ends_check_bind (fun _ _ => haccess.made) fun _ hpeer => ?_
  refine ends_check_bind (fun _ _ => haccess.made) fun _ hpolicy => ?_
  refine ends_check_bind (fun _ _ => haccess.made) fun _ hproposed => ?_
  refine ends_check_bind (fun _ _ => haccess.made) fun _ hexpired => ?_
  have hexpired := refuseIf_ok.1 hexpired
  obtain rfl := haccess.same.resolve_left hexpired
  by_cases hclosed : story.receipt.handling.Closed
  · rw [if_pos hclosed]
    by_cases hagain : story.receipt.handling = .refused ∧ ack.kind = .refused
    · rw [if_pos hagain]
      exact ends_pure.2 haccess.made
    · rw [if_neg hagain]
      exact ends_conflict h hB haccess.told fun _ hmade => hmade
  · rw [if_neg hclosed]
    by_cases hdone : story.receipt.Acknowledged ack.kind
    · rw [if_pos hdone]
      exact ends_pure.2 haccess.made
    · rw [if_neg hdone]
      obtain ⟨hidentity, hrest⟩ := not_or.1 (refuseIf_ok.1 hpeer)
      obtain ⟨hack', hgeneration⟩ := not_or.1 hrest
      have hmoves (hroom : story.receipt.revision < ack.kind.change.room) :
          Acknowledges s' lease ack now story.receipt :=
        ⟨receipt_of_story haccess.told, reader_self hreader, not_not.1 hidentity, not_not.1 hack',
          not_not.1 hgeneration, (not_and_or.1 (refuseIf_ok.1 hpolicy)).imp not_not.1 not_not.1,
          refuseIf_ok.1 hproposed, hexpired, haccess.current.resolve_right hexpired, hclosed, hdone,
          hroom⟩
      have hpatch : ackPatch story.receipt ack.kind = ack.kind.change.patch story.receipt := by
        cases ack.kind <;> rfl
      have hfact : ack.kind.change.fact = .transition := by cases ack.kind <;> rfl
      have hfits : ack.kind.change.Fits story.receipt := by
        cases ack.kind <;> exact ⟨hexpired, hclosed⟩
      rw [hpatch, ← hfact]
      refine change_moves h haccess.told ack.kind.change hfits ?_ ?_ (fun hroom => ?_)
        fun _ hmade => hmade
      · cases ack.kind <;> rfl
      · cases ack.kind <;> exact (nomatch ·)
      · by_cases hrefused : ack.kind = .refused
        · rw [hrefused]
          exact hB _ _ trivial
        · exact hack story.receipt hrefused (hmoves hroom)

/-! ## Delivery attempts -/

theorem deliveryAttempt_moves (h : s.Good) (hB : ∀ p m, Harmless p m → B p m) (lease : PeerLease)
    (key : MessageKey) (phase : AttemptPhase) (now : ℕ) :
    Moves B (deliveryAttempt lease key phase now) s := by
  refine access_moves h hB fun {s' record story current} _ haccess => ?_
  dsimp only
  rw [haccess.receipt]
  refine ends_check_bind (fun _ _ => haccess.made) fun _ _ => ?_
  by_cases hpending : story.receipt.delivery.Pending
  swap
  · rw [if_pos hpending]
    exact ends_pure.2 haccess.made
  rw [if_neg (not_not.2 hpending)]
  -- The table of attempts is beside the stories: both changes find the story as it was.
  have hattempts (attempts : List DeliveryAttempt) : Made B s { s' with attempts := attempts } :=
    haccess.made.trans (.aside haccess.made.good rfl rfl rfl rfl)
  have hchange (change : Change) (attempts : List DeliveryAttempt)
      (hfits : change.Fits story.receipt)
      (hceiling : (change.patch story.receipt).ceiling = change.room) (hne : change ≠ .cleaned)
      (hharmless : ∀ p, Harmless p (.change key change)) :
      Ends Capacity (fun _ t => Made B s t)
        (Mailbox.change story.receipt (change.patch story.receipt) change.fact)
        { s' with attempts := attempts } :=
    change_moves (hattempts attempts).good haccess.told change hfits hceiling hne
      (fun _ => hB _ _ (hharmless _)) fun _ hmade => (hattempts attempts).trans hmade
  refine ends_query_bind nofun fun _ _ => ?_
  cases phase with
  | started =>
    refine ends_check_bind (fun _ _ => haccess.made) fun _ _ => ?_
    split_ifs with hlast hstarted
    · exact hchange .failed s'.attempts hpending rfl (nomatch ·) fun _ => trivial
    · exact ends_write_bind.2 (ends_write_bind.2 (ends_pure.2 (hattempts _)))
    · exact ends_write_bind.2 (ends_pure.2 (hattempts _))
  | unavailable =>
    dsimp only
    split_ifs with hstarted hlast
    · exact ends_write_bind.2 (hchange .failed _ hpending rfl (nomatch ·) fun _ => trivial)
    · exact ends_write_bind.2 (hchange .unavailable _ hpending rfl (nomatch ·) fun _ => trivial)
    · exact ends_pure.2 haccess.made

/-! ## Cleanup -/

theorem Post.put_put (p : Post) (key : MessageKey) (a b : Story) :
    (p.put key a).put key b = p.put key b :=
  Post.ext (Function.update_idem ..) rfl

variable {t : MailboxState}

/-- A payload that is deleted is gone from one story. -/
theorem MailboxState.post_clean (hstory : t.story key = some story) :
    (t.updateMessage key fun row => { row with payload := none, bytes := 0 }).post
      = t.post.put key { story with payload := none } := by
  obtain ⟨row, hrow, rfl⟩ := story_eq_some.1 hstory
  have hother : ∀ u : MailboxState, u.updateMessage key (fun row =>
      { row with payload := none, bytes := 0 }) =
        { u with messages := (u.updateMessage key (fun row =>
          { row with payload := none, bytes := 0 })).messages } := by
    intro u
    unfold updateMessage
    rcases u.messages.get key <;> rfl
  refine Post.ext (funext fun other => ?_) (by rw [hother]; rfl)
  rw [hother]
  show Option.map _ ((t.updateMessage key _).messages.get other) = _
  rw [get_updateMessage]
  by_cases h : other = key
  · subst h
    rw [if_pos rfl, hrow, Post.put_self]
    rfl
  · rw [if_neg h, Post.put_ne _ _ h]
    rfl

theorem MailboxState.Orderly.clean (h : t.Orderly) (key : MessageKey)
    (update : MessageRow → MessageRow) : (t.updateMessage key update).Orderly := by
  intro other hnone
  have hback : t.messages.get other = none := by
    rw [MailboxState.get_updateMessage] at hnone
    by_cases hother : other = key
    · rw [if_pos hother, Option.map_eq_none_iff] at hnone
      rw [hother, hnone]
    · rwa [if_neg hother] at hnone
  unfold MailboxState.updateMessage
  rcases t.messages.get key with _ | row
  · exact h other hback
  · exact h other hback

theorem cleanup_moves (h : s.Good) (hB : ∀ p m, Harmless p m → B p m) (lease : PeerLease)
    (key : MessageKey) (now : ℕ) : Moves B (cleanup lease key now) s := by
  refine access_moves h hB fun {s' record story current} _ haccess => ?_
  dsimp only
  rw [haccess.receipt]
  have hgood := haccess.made.good
  have hsound := hgood.story haccess.told
  by_cases htomb : story.receipt.tombstoned = true
  · rw [if_pos htomb]
    exact ends_pure.2 haccess.made
  rw [if_neg htomb]
  refine ends_check_bind (fun _ _ => haccess.made) fun _ hheld => ?_
  have hlate : ¬ now < story.receipt.expiresAt := (not_or.1 (refuseIf_ok.1 hheld)).1
  have hfits : Change.Fits story.receipt .cleaned :=
    ⟨Bool.eq_false_of_not_eq_true htomb, haccess.current.resolve_left hlate⟩
  show Ends _ _ (Mailbox.change story.receipt (Change.patch story.receipt .cleaned) .transition
    >>= _) s'
  refine ends_bind.2 (ends_check_bind (fun _ _ => haccess.made) fun _ hroom => ?_)
  have hroom : story.receipt.revision < Change.room .cleaned :=
    Nat.lt_of_not_le (refuseIf_ok.1 hroom)
  have hkey : (Change.apply .cleaned story.receipt).key = key := hsound.keyed
  have hrecipient : (Change.apply .cleaned story.receipt).recipient
      = (Change.apply .cleaned story.receipt).key.recipient := by
    rw [hkey]
    exact hsound.recipient
  have hstory : s'.story (Change.apply .cleaned story.receipt).key = some story :=
    hkey.symm ▸ haccess.told
  refine ends_save (hkey.symm ▸ hsound) hstory rfl hroom ?_
  refine ends_write_bind.2 (ends_pure.2 (haccess.made.trans (.one (m := .change key .cleaned) hgood
    ⟨story, haccess.told, hroom, hfits⟩ (hB _ _ trivial) ?_
    ((hgood.orderly.record hstory hrecipient).clean key _))))
  have hafter := MailboxState.story_record .transition hstory hrecipient
  rw [hkey] at hafter
  refine (MailboxState.post_clean hafter).trans ?_
  rw [MailboxState.post_record hstory hrecipient, hkey, Post.put_put]
  rw [Post.after_change (show s'.post.stories key = some story from haccess.told)]
  rfl

/-! ## Policies and routes -/

/-- A message that is there stays there. -/
theorem Reaches.present {p q : Post} (h : Reaches B p q)
    (hkey : p.stories key ≠ none) : q.stories key ≠ none := by
  obtain ⟨moves, hrun, -⟩ := h
  have hput : ∀ (p : Post) (other : MessageKey) (story : Story),
      p.stories key ≠ none → (p.put other story).stories key ≠ none := by
    intro p other story hp
    by_cases hother : key = other
    · rw [hother, Post.put_self]
      exact Option.some_ne_none _
    · rwa [Post.put_ne _ _ hother]
  have hanswer : ∀ (p : Post) (answers : Option MessageKey) (reply : MessageKey),
      p.stories key ≠ none → (p.answer answers reply).stories key ≠ none := by
    intro p answers reply hp
    rcases answers with _ | request
    · exact hp
    · rcases hrequest : p.stories request with _ | story
      · unfold Post.answer
        rw [Option.bind_some, hrequest]
        exact hp
      · rw [Post.answer_some hrequest]
        exact hput _ _ _ hp
  refine StateMachine.run_invariant (I := fun p => p.stories key ≠ none) (fun p m _ hp hmove => ?_)
    hkey hrun
  obtain ⟨hlegal, rfl⟩ := Post.move_eq_some.1 hmove
  cases m with
  | post _ _ policy answers => exact hanswer _ _ _ (hput _ _ _ hp)
  | admitted other policy answers =>
    obtain ⟨story, hstory, -⟩ := hlegal
    rw [Post.after_admitted hstory]
    exact hanswer _ _ _ (hput _ _ _ hp)
  | change other change =>
    obtain ⟨story, hstory, -⟩ := hlegal
    rw [Post.after_change hstory]
    exact hput _ _ _ hp
  | enrolled identity state => exact hp
  | wentOffline identity | ended identity state =>
    exact fun hnone => hp (Option.map_eq_none_iff.1 hnone)

/-- A loop over messages that are there, each of which makes moves. -/
theorem forM_moves (hmade : Made B s t) {keys : List MessageKey}
    (hkeys : ∀ key ∈ keys, t.story key ≠ none) {body : MessageKey → Tx Unit}
    (hbody : ∀ {t : MailboxState} {key story}, t.Good → t.story key = some story →
      Ends Capacity (fun r t' => r = .ok () ∧ Made B t t') (body key) t) :
    Ends Capacity (fun r t' => r = .ok () ∧ Made B s t') (keys.forM body) t := by
  refine ends_forM (I := fun rest t' => Made B s t' ∧ ∀ key ∈ rest, t'.story key ≠ none)
    ⟨hmade, hkeys⟩ (fun key rest t' _ hI => ?_) fun t' hI => ⟨rfl, hI.1⟩
  obtain ⟨story, hstory⟩ := Option.ne_none_iff_exists'.1 (hI.2 key List.mem_cons_self)
  refine (hbody hI.1.good hstory).weaken fun r _ hr => ?_
  obtain ⟨rfl, hmade'⟩ := hr
  exact ⟨hI.1.trans hmade', fun other hother =>
    hmade'.reaches.present (hI.2 other (List.mem_cons_of_mem _ hother))⟩

theorem load_of_story
    (h : t.story key = some story) : load key t = .ok ⟨story.receipt, story.payload⟩ := by
  obtain ⟨row, hrow, rfl⟩ := MailboxState.story_eq_some.1 h
  unfold load
  rw [hrow]

/-- A change inside a loop throws where there is no room for it. -/
theorem ends_changeOrThrow (h : t.Good)
    (hstory : t.story key = some story) (change : Change) (hfits : change.Fits story.receipt)
    (hceiling : (change.patch story.receipt).ceiling = change.room) (hne : change ≠ .cleaned)
    (hB : B t.post (.change key change)) {thrown : MailboxThrow} (hthrown : Capacity thrown) :
    Ends Capacity (fun r t' => r = .ok () ∧ Made B t t') (do
      let changed ← attempt
        (Mailbox.change story.receipt (change.patch story.receipt) change.fact)
      match changed with
      | .error _ => abort thrown
      | .ok _ => pure () : Tx Unit) t := by
  refine ends_attempt_bind.2 (ends_change h hstory change hfits hceiling hne (fun _ => hB) ?_ ?_)
  · exact fun _ => ends_abort.2 hthrown
  · exact fun _ hmade => ends_pure.2 ⟨rfl, hmade⟩

theorem policyMessage_moves (h : t.Good)
    (hB : ∀ p m, Harmless p m → B p m) (hstory : t.story key = some story) (mode : PolicyMode) :
    Ends Capacity (fun r t' => r = .ok () ∧ Made B t t') (policyMessage mode key) t := by
  unfold policyMessage
  refine ends_attempt_bind.2 (ends_query.2 ?_)
  rw [load_of_story hstory]
  dsimp only
  by_cases hover : story.receipt.tombstoned = true ∨ story.receipt.handling.Closed
  · rw [if_pos hover]
    exact ends_pure.2 ⟨rfl, .refl h⟩
  rw [if_neg hover]
  obtain ⟨htomb, hclosed⟩ := not_or.1 hover
  by_cases hsame : story.receipt.policy = if mode = .hold then .held else .refused
  · rw [if_pos hsame]
    exact ends_pure.2 ⟨rfl, .refl h⟩
  rw [if_neg hsame]
  have hfits : story.receipt.tombstoned = false ∧ ¬ story.receipt.handling.Closed :=
    ⟨Bool.eq_false_of_not_eq_true htomb, hclosed⟩
  by_cases hhold : mode = .hold
  · rw [if_pos hhold]
    exact ends_changeOrThrow h hstory .held hfits rfl (nomatch ·) (hB _ _ trivial) (.inl rfl)
  · rw [if_neg hhold]
    exact ends_changeOrThrow h hstory .refused hfits rfl (nomatch ·) (hB _ _ trivial) (.inl rfl)

theorem story_ne_none_of_mem (h : key ∈ t.messages.keys) : t.story key ≠ none := by
  intro hnone
  exact OrderedMap.get_eq_none.1 (MailboxState.story_eq_none.1 hnone) h

theorem setPolicy_moves (h : s.Good) (hB : ∀ p m, Harmless p m → B p m) (lease : PeerLease)
    (sender : PeerIdentity) (policy : PeerPolicy) (now : ℕ) :
    Moves B (setPolicy lease sender policy now) s := by
  refine ends_check_bind (fun _ _ => .refl h) fun _ _ => ?_
  refine ends_query_bind (fun _ _ => .refl h) fun _ _ => ?_
  refine ends_query_bind (fun _ _ => .refl h) fun _ _ => ?_
  refine ends_query_bind (fun _ _ => .refl h) fun _ _ => ?_
  refine ends_write_bind.2 ?_
  have hmade : Made B s { s with policies := s.policies.set ⟨sender, lease.identity⟩ policy } :=
    .aside h rfl rfl rfl rfl
  by_cases hmode : policy.mode ≠ .allow
  · rw [if_pos hmode]
    refine ends_query_bind nofun fun _ hkeys => ?_
    cases hkeys
    refine ends_bind.2 ((forM_moves hmade (fun _ hkey => ?_) fun ht hstory =>
      policyMessage_moves ht hB hstory policy.mode).weaken fun _ _ hr => ?_)
    · exact story_ne_none_of_mem (List.mem_of_mem_filter hkey)
    · obtain ⟨rfl, hmade'⟩ := hr
      exact ends_write.2 (hmade'.trans (.settleSubscriptions hmade'.good now))
  · rw [if_neg hmode]
    exact ends_write.2 (hmade.trans (.settleSubscriptions hmade.good now))

theorem grantRoute_moves (h : s.Good) (lease : PeerLease) (sender : PeerIdentity)
    (input : GrantInput) (now : ℕ) : Moves B (grantRoute lease sender input now) s := by
  refine ends_check_bind (fun _ _ => .refl h) fun _ _ => ?_
  refine ends_query_bind (fun _ _ => .refl h) fun _ _ => ?_
  exact ends_write_bind.2 (ends_query.2 (.aside h rfl rfl rfl rfl))

theorem revokeMessage_moves (h : t.Good)
    (hB : ∀ p m, Harmless p m → B p m) (hstory : t.story key = some story) :
    Ends Capacity (fun r t' => r = .ok () ∧ Made B t t') (revokeMessage key) t := by
  unfold revokeMessage
  refine ends_attempt_bind.2 (ends_query.2 ?_)
  rw [load_of_story hstory]
  dsimp only
  by_cases hover : story.receipt.tombstoned = true ∨ story.receipt.policy = .revoked
      ∨ ¬ story.receipt.delivery.Pending
  · rw [if_pos hover]
    exact ends_pure.2 ⟨rfl, .refl h⟩
  rw [if_neg hover]
  obtain ⟨htomb, hrest⟩ := not_or.1 hover
  have hpending := not_not.1 (not_or.1 hrest).2
  exact ends_changeOrThrow h hstory .revoked ⟨Bool.eq_false_of_not_eq_true htomb, hpending⟩ rfl
    (nomatch ·) (hB _ _ trivial) (.inr rfl)

theorem revokeRoute_moves (h : s.Good) (hB : ∀ p m, Harmless p m → B p m) (lease : PeerLease)
    (peer : PeerIdentity) (direction : Option RouteDirection) (expectedRevision now : ℕ) :
    Moves B (revokeRoute lease peer direction expectedRevision now) s := by
  refine ends_query_bind (fun _ _ => .refl h) fun _ _ => ?_
  refine ends_query_bind (fun _ _ => .refl h) fun grant _ => ?_
  refine ends_check_bind (fun _ _ => .refl h) fun _ _ => ?_
  by_cases hrevoked : grant.state = .revoked
  · rw [if_pos hrevoked]
    exact ends_query.2 (.refl h)
  rw [if_neg hrevoked]
  refine ends_write_bind.2 (ends_query_bind nofun fun _ hkeys => ?_)
  cases hkeys
  have hmade : Made B s { s with grants := s.grants.set (grant.revoke now).id (grant.revoke now) } :=
    .aside h rfl rfl rfl rfl
  refine ends_bind.2 ((forM_moves hmade (fun _ hkey => ?_) fun ht hstory =>
    revokeMessage_moves ht hB hstory).weaken fun _ _ hr => ?_)
  · exact story_ne_none_of_mem (List.mem_of_mem_filter (List.mem_of_mem_filter hkey))
  · obtain ⟨rfl, hmade'⟩ := hr
    exact ends_query.2 hmade'

/-! ## Subscriptions and notifications -/

theorem Made.putSubscription (h : s.Good) (subscription : PeerSubscription) :
    Made B s (putSubscription s subscription) := .aside h rfl rfl rfl rfl

theorem subscribe_moves (h : s.Good) (ports : MailboxPorts) (lease : PeerLease)
    (input : PeerSubscriptionInput) (now : ℕ) : Moves B (subscribe ports lease input now) s := by
  have hsettled : Made B s (settleSubscriptions now s) := .settleSubscriptions h now
  refine ends_check_bind (fun _ _ => .refl h) fun _ _ => ?_
  refine ends_query_bind (fun _ _ => .refl h) fun _ _ => ?_
  refine ends_attempt_bind.2 (ends_query.2 ?_)
  rcases getSubscription (subscriptionKey input) s with _ | previous
  · refine ends_check_bind (fun _ _ => .refl h) fun _ _ => ?_
    generalize checkSubscriptionRoom ports = room
    refine ends_write_bind.2 ?_
    refine ends_query_bind (fun _ _ => hsettled) fun _ _ => ?_
    refine ends_write_bind.2 ?_
    refine ends_write_bind.2 ?_
    refine ends_query.2 ?_
    have hput := hsettled.trans (.putSubscription hsettled.good ⟨input, .open, none, none⟩)
    exact hput.trans (.settleSubscriptions hput.good now)
  · refine ends_check_bind (fun _ _ => .refl h) fun _ _ => ?_
    exact ends_write_bind.2 (ends_query.2 hsettled)

theorem subscription_moves (h : s.Good) (lease : PeerLease) (sender : PeerIdentity) (id : String)
    (now : ℕ) : Moves B (subscription lease sender id now) s := by
  refine ends_query_bind (fun _ _ => .refl h) fun _ _ => ?_
  refine ends_query_bind (fun _ _ => .refl h) fun _ _ => ?_
  refine ends_check_bind (fun _ _ => .refl h) fun _ _ => ?_
  exact ends_write_bind.2 (ends_query.2 (.settleSubscriptions h now))

theorem cancelSubscription_moves (h : s.Good) (lease : PeerLease) (id : String) (now : ℕ) :
    Moves B (cancelSubscription lease id now) s := by
  have hsettled : Made B s (settleSubscriptions now s) := .settleSubscriptions h now
  refine ends_query_bind (fun _ _ => .refl h) fun _ _ => ?_
  refine ends_query_bind (fun _ _ => .refl h) fun _ _ => ?_
  refine ends_write_bind.2 (ends_query_bind (fun _ _ => hsettled) fun record _ => ?_)
  by_cases hwait : record.wait ≠ .open
  · rw [if_pos hwait]
    exact ends_pure.2 hsettled
  · rw [if_neg hwait]
    exact ends_write_bind.2 (ends_pure.2
      (hsettled.trans (.putSubscription hsettled.good _)))

theorem Made.consume {row : Notification} (h : s.Good) (hrow : row ∈ s.notifications.keys) :
    Made B s { s with notifications := s.notifications.set row true } :=
  .aside h rfl rfl (OrderedMap.keys_set_of_mem true hrow) rfl

theorem mem_pendingNotifications {me : PeerIdentity} {row : Notification} :
    row ∈ pendingNotifications me s ↔ row.key ∈ s.messages.keys
      ∧ s.notifications.get row = some false ∧ row.endpoint = me ∧ Unmuted s row.key := by
  unfold pendingNotifications
  rw [List.mem_flatMap]
  constructor
  · rintro ⟨key, hkey, hmem⟩
    obtain ⟨entry, hentry, rfl⟩ := List.mem_map.1 hmem
    obtain ⟨hin, hselected⟩ := List.mem_filter.1 hentry
    obtain ⟨rfl, hme, hconsumed, hunmuted⟩ := of_decide_eq_true hselected
    exact ⟨hkey, OrderedMap.mem_entries.1 (hconsumed ▸ hin), hme, hunmuted⟩
  · rintro ⟨hkey, hget, hme, hunmuted⟩
    refine ⟨row.key, hkey, List.mem_map.2 ⟨(row, false), List.mem_filter.2 ⟨?_, ?_⟩, rfl⟩⟩
    · exact OrderedMap.mem_entries.2 hget
    · exact decide_eq_true ⟨rfl, hme, rfl, hunmuted⟩

theorem notifications_moves (h : s.Good) (lease : PeerLease) (now : ℕ) :
    Moves B (notifications lease now) s := by
  refine ends_query_bind (fun _ _ => .refl h) fun _ _ => ?_
  refine ends_query_bind nofun fun _ hrows => ?_
  cases hrows
  refine ends_foldlM (I := fun rest _ t => Made B s t ∧ ∀ row ∈ rest, row ∈ t.notifications.keys)
    ⟨.refl h, fun row hrow => ?_⟩ (fun row rest _ t hI => ?_) fun _ t hI => hI.1
  · obtain ⟨-, hget, -⟩ := mem_pendingNotifications.1 (List.mem_of_mem_take hrow)
    exact OrderedMap.mem_keys.2 ⟨false, hget⟩
  · obtain ⟨hmade, hkeys⟩ := hI
    have hrest : ∀ row ∈ rest, row ∈ t.notifications.keys :=
      fun row hrow => hkeys row (List.mem_cons_of_mem _ hrow)
    refine ends_query_bind (fun _ _ => hmade) fun loaded _ => ?_
    by_cases hskip : row.kind = .arrival ∧ loaded.receipt.policy ≠ .allowed
    · rw [if_pos hskip]
      exact ends_pure.2 ⟨hmade, hrest⟩
    · rw [if_neg hskip]
      have hrow := hkeys row List.mem_cons_self
      refine ends_write_bind.2 (ends_pure.2 ⟨hmade.trans (.consume hmade.good hrow), ?_⟩)
      intro other hother
      show other ∈ (t.notifications.set row true).keys
      rw [OrderedMap.keys_set_of_mem true hrow]
      exact hrest other hother

/-! ## Endpoints -/

theorem retired_putEndpoint (s : MailboxState) (identity other : PeerIdentity) (row : EndpointRow) :
    (s.putEndpoint identity row).post.retired other =
      if other = identity then row.endpoint.state = .retired else s.post.retired other := by
  show (∃ row', (s.endpoints.set identity row).get other = some row' ∧ _) = _
  rw [OrderedMap.get_set]
  split_ifs
  · refine propext ⟨?_, fun hretired => ⟨row, rfl, hretired⟩⟩
    rintro ⟨row', hrow', hretired⟩
    cases hrow'
    exact hretired
  · rfl

theorem register_moves (h : s.Good) (hB : ∀ p m, Harmless p m → B p m) (ports : MailboxPorts)
    (registration : PeerRegistration) (now : ℕ) :
    Moves B (register ports registration now) s := by
  refine ends_check_bind (fun _ _ => .refl h) fun _ _ => ?_
  refine ends_query_bind (fun _ _ => .refl h) fun _ hcheck => ?_
  refine ends_write_bind.2 (ends_write_bind.2 (ends_pure.2 ?_))
  obtain ⟨_, hprior, -⟩ := except_bind_ok.1 hcheck
  have hlegal : ¬ s.post.retired registration.endpoint.identity := by
    rintro ⟨row, hrow, hretired⟩
    exact refuseIf_ok.1 hprior ⟨row, hrow, .inl (.inl hretired)⟩
  have hmade : Made B s (s.putEndpoint registration.endpoint.identity
      (registeredRow registration now)) := by
    refine .one (m := .enrolled registration.endpoint.identity registration.endpoint.state) h hlegal
      (hB _ _ trivial) (Post.ext rfl (funext fun other => propext ?_)) h.orderly
    rw [retired_putEndpoint]
    by_cases hother : other = registration.endpoint.identity
    · exact (iff_of_eq (if_pos hother)).trans (iff_of_eq (if_pos hother)).symm
    · exact (iff_of_eq (if_neg hother)).trans (iff_of_eq (if_neg hother)).symm
  exact hmade.trans (.settleSubscriptions hmade.good now)

theorem owner_ok {offline : Bool} (h : owner lease now offline s = .ok current) :
    ∃ row, s.endpoints.get lease.identity = some row ∧ row.endpoint = current
      ∧ authorized lease.fence row.fence ∧ current.processGeneration = lease.processGeneration
      ∧ superseded s lease.identity = false ∧ current.state ≠ .retired
      ∧ (offline = false → now < current.leaseUntil ∧ current.state ≠ .offline) := by
  obtain ⟨found, hfound, h⟩ := except_bind_ok.1 h
  obtain ⟨_, hfence, h⟩ := except_bind_ok.1 h
  obtain ⟨_, hstale, h⟩ := except_bind_ok.1 h
  obtain rfl := except_pure_ok.1 h
  unfold endpoint at hfound
  rcases hrow : s.endpoints.get lease.identity with _ | row
  · rw [hrow] at hfound
    cases hfound
  · rw [hrow] at hfound
    cases hfound
    obtain ⟨hgeneration, hstale⟩ := not_or.1 (refuseIf_ok.1 hstale)
    obtain ⟨hsuperseded, hstale⟩ := not_or.1 hstale
    obtain ⟨hretired, hoffline⟩ := not_or.1 hstale
    refine ⟨row, rfl, rfl, not_not.1 (refuseIf_ok.1 hfence), not_not.1 hgeneration,
      Bool.eq_false_of_not_eq_true hsuperseded, hretired, fun hflag => ?_⟩
    obtain ⟨hlease, hstate⟩ := not_or.1 fun hor => hoffline ⟨hflag, hor⟩
    exact ⟨Nat.lt_of_not_le hlease, hstate⟩

/-- The story of a message after an endpoint went offline or ended. -/
noncomputable def Story.renewed (story : Story) (identity : PeerIdentity) (state : EndpointState) :
    Story :=
  if state = .offline then story.queued identity else story.ended identity state

variable {identity : PeerIdentity} {state : EndpointState} {view : EndpointView}

theorem Story.renewed_eq_self
    (hqueues : ¬ story.Queues identity) (hends : ¬ story.EndsWith identity state) :
    story.renewed identity state = story := by
  unfold Story.renewed
  split_ifs
  · exact if_neg hqueues
  · exact if_neg hends

theorem Post.put_eq_self {p : Post} (h : p.stories key = some story) : p.put key story = p :=
  Post.ext (Function.update_eq_self_iff.2 h.symm) rfl

section
variable {t : MailboxState} {key : MessageKey} {story : Story} {P : Prop} {E : MailboxThrow → Prop}

/-- A loop step that saves one receipt. -/
theorem ends_saveStep {receipt : MailboxReceipt}
    (hsound : story.Sound P key) (hstory : t.story key = some story) (horderly : t.Orderly)
    (hkey : receipt.key = story.receipt.key)
    (hrecipient : receipt.recipient = story.receipt.recipient)
    (hrevision : receipt.revision = story.receipt.revision + 1)
    (hbound : receipt.revision ≤ MailboxLimits.revisions) :
    Ends E (fun r t' => r = .ok ()
        ∧ t'.post = t.post.put key (story.after receipt .transition) ∧ t'.Orderly) (do
      let _ ← save receipt .transition
      pure () : Tx Unit) t := by
  have hkey' : receipt.key = key := hkey.trans hsound.keyed
  have hrecipient' : receipt.recipient = receipt.key.recipient := by
    rw [hrecipient, hkey', hsound.recipient]
  have hstory' : t.story receipt.key = some story := hkey'.symm ▸ hstory
  refine ends_bind.2 (ends_save (hkey'.symm ▸ hsound) hstory' hrevision hbound (ends_pure.2 ?_))
  refine ⟨rfl, ?_, horderly.record hstory' hrecipient'⟩
  rw [MailboxState.post_record hstory' hrecipient', hkey']

/-- One message of an endpoint that goes offline or ends. -/
theorem ends_renewMessage (hsound : story.Sound P key) (hstory : t.story key = some story)
    (horderly : t.Orderly)
    (hpeer : story.receipt.recipient = identity ∨ story.receipt.sender = identity)
    (hstate : state = .retired ∨ state = .terminal ∨ state = .offline)
    (hbound : (story.renewed identity state).receipt.revision ≤ MailboxLimits.revisions) :
    Ends E (fun r t' => r = .ok ()
        ∧ t'.post = t.post.put key (story.renewed identity state) ∧ t'.Orderly)
      (renewMessage identity state key) t := by
  have hsame : story.renewed identity state = story →
      Ends E (fun r t' => r = .ok ()
          ∧ t'.post = t.post.put key (story.renewed identity state) ∧ t'.Orderly)
        (pure () : Tx Unit) t := fun heq => by
    refine ends_pure.2 ⟨rfl, ?_, horderly⟩
    rw [heq, Post.put_eq_self hstory]
  unfold renewMessage
  refine ends_attempt_bind.2 (ends_query.2 ?_)
  rw [load_of_story hstory]
  dsimp only
  by_cases hexpired : story.receipt.delivery = .expired
  · rw [if_pos hexpired]
    refine hsame (Story.renewed_eq_self (fun hqueues => ?_) fun hends => hends.2.1 hexpired)
    exact nomatch hexpired.symm.trans hqueues.2
  rw [if_neg hexpired]
  by_cases hoffline : state = .offline
  · rw [if_pos hoffline]
    have hrenewed : story.renewed identity state = story.queued identity := if_pos hoffline
    rw [hrenewed] at hbound hsame ⊢
    by_cases hqueues : story.receipt.recipient = identity
        ∧ story.receipt.delivery = .acceptedForPersistence
    · rw [if_pos hqueues]
      have hqueued : story.queued identity
          = story.after (queuedReceipt story.receipt) .transition := if_pos hqueues
      rw [hqueued] at hbound ⊢
      exact ends_saveStep hsound hstory horderly rfl rfl rfl hbound
    · rw [if_neg hqueues]
      exact hsame (if_neg hqueues)
  rw [if_neg hoffline]
  have hrenewed : story.renewed identity state = story.ended identity state := if_neg hoffline
  rw [hrenewed] at hbound hsame ⊢
  by_cases hother : state = .terminal ∧ story.receipt.recipient ≠ identity
  · rw [if_pos hother]
    refine hsame (if_neg fun hends => ?_)
    rcases hends.1 with hrecipient | ⟨-, hretired⟩
    · exact hother.2 hrecipient
    · exact nomatch hother.1.symm.trans hretired
  rw [if_neg hother]
  by_cases hopen : story.receipt.tombstoned = false ∧ ¬ story.receipt.handling.Closed
  · rw [if_pos hopen]
    have hends : story.EndsWith identity state := by
      refine ⟨?_, hexpired, hopen⟩
      by_cases hrecipient : story.receipt.recipient = identity
      · exact .inl hrecipient
      · refine .inr ⟨hpeer.resolve_left hrecipient, ?_⟩
        rcases hstate with hretired | hterminal | hoffline'
        · exact hretired
        · exact absurd ⟨hterminal, hrecipient⟩ hother
        · exact absurd hoffline' hoffline
    have hended : story.ended identity state
        = story.after (endedReceipt story.receipt state (story.receipt.recipient = identity))
          .transition := if_pos hends
    rw [hended] at hbound ⊢
    exact ends_saveStep hsound hstory horderly rfl rfl rfl hbound
  · rw [if_neg hopen]
    exact hsame (if_neg fun hends => hopen hends.2.2)

end

/-- The message is one of the endpoint's. -/
theorem peer_of_mem_messagesOf : key ∈ messagesOf identity s ↔
      key ∈ s.messages.keys ∧ (key.recipient = identity ∨ key.sender = identity) := by
  unfold messagesOf
  rw [List.mem_filter, decide_eq_true_iff]

/-- A message of other endpoints is not touched. -/
theorem Story.renewed_of_not_peer
    (state : EndpointState) (hrecipient : story.receipt.recipient ≠ identity)
    (hsender : story.receipt.sender ≠ identity) : story.renewed identity state = story :=
  Story.renewed_eq_self (fun hqueues => hrecipient hqueues.1)
    fun hends => hends.1.elim hrecipient fun hand => hsender hand.1

/-- **The loop of `renew`.**  It renews the story of every message of the endpoint once. -/
theorem ends_renewLoop {E : MailboxThrow → Prop} (hs : s.post.Sound) (hstories : t.story = s.story)
    (horderly : t.Orderly) (hstate : state = .retired ∨ state = .terminal ∨ state = .offline)
    (hmessages : t.messages = s.messages)
    (hbound : ∀ {key story}, s.story key = some story →
      (story.renewed identity state).receipt.revision ≤ MailboxLimits.revisions) :
    Ends E (fun r t' => r = .ok ⟨⟩ ∧ t'.post =
        { stories := fun key => (s.story key).map fun story => story.renewed identity state
          retired := t.post.retired } ∧ t'.Orderly)
      ((messagesOf identity t).forM (renewMessage identity state)) t := by
  -- The stories of the messages still to come are as they were before the loop.
  refine ends_forM (I := fun rest t' => t'.Orderly ∧ rest.Nodup
      ∧ (∀ key ∈ rest, key ∈ messagesOf identity t)
      ∧ t'.post = { stories := fun key => if key ∈ rest then s.story key
                      else (s.story key).map fun story => story.renewed identity state
                    retired := t.post.retired })
    ⟨horderly, t.messages.nodup_keys.filter _, fun _ h => h, Post.ext (funext fun key => ?_) rfl⟩
    (fun key rest t' _ hI => ?_) fun t' hI => ⟨rfl, ?_, hI.1⟩
  · show t.story key = if key ∈ messagesOf identity t then s.story key
      else (s.story key).map fun story => story.renewed identity state
    rw [hstories]
    by_cases hkey : key ∈ messagesOf identity t
    · rw [if_pos hkey]
    rw [if_neg hkey]
    rcases hstory : s.story key with _ | story
    · rfl
    · have hsound := hs.stories hstory
      have hmem : key ∈ t.messages.keys := by
        rw [hmessages, OrderedMap.mem_keys]
        obtain ⟨row, hrow, -⟩ := MailboxState.story_eq_some.1 hstory
        exact ⟨row, hrow⟩
      obtain ⟨hrecipient, hsender⟩ := not_or.1 fun hor =>
        hkey (peer_of_mem_messagesOf.2 ⟨hmem, hor⟩)
      exact congrArg some (Story.renewed_of_not_peer state (hsound.recipient ▸ hrecipient)
        (hsound.sender ▸ hsender)).symm
  · obtain ⟨horderly', hnodup, hkeys, hpost⟩ := hI
    obtain ⟨hout, hnodup⟩ := List.nodup_cons.1 hnodup
    obtain ⟨hmem, hpeer⟩ := peer_of_mem_messagesOf.1 (hkeys key List.mem_cons_self)
    have hne : s.story key ≠ none := hstories ▸ story_ne_none_of_mem hmem
    obtain ⟨story, hstory⟩ := Option.ne_none_iff_exists'.1 hne
    have hsound := hs.stories hstory
    have htold : t'.story key = some story := by
      have h := congrArg (fun p : Post => p.stories key) hpost
      exact h.trans ((if_pos List.mem_cons_self).trans hstory)
    rw [← hsound.recipient, ← hsound.sender] at hpeer
    refine (ends_renewMessage hsound htold horderly' hpeer hstate (hbound hstory)).weaken
      fun r _ hr => ?_
    obtain ⟨rfl, hpost', horderly''⟩ := hr
    refine ⟨horderly'', hnodup, fun other hother => hkeys other (List.mem_cons_of_mem _ hother), ?_⟩
    rw [hpost', hpost]
    refine Post.ext (funext fun other => ?_) rfl
    by_cases hother : other = key
    · subst hother
      refine (Post.put_self ..).trans (Eq.trans ?_ (if_neg hout).symm)
      rw [hstory]
      rfl
    · rw [Post.put_ne _ _ hother]
      by_cases hrest : other ∈ rest
      · exact (if_pos (List.mem_cons_of_mem _ hrest)).trans (if_pos hrest).symm
      · exact (if_neg fun h => (List.mem_cons.1 h).elim hother hrest).trans (if_neg hrest).symm
  · rw [hI.2.2.2]
    refine Post.ext (funext fun key => ?_) rfl
    show (if key ∈ [] then s.story key else Option.map _ (s.story key)) = _
    rw [if_neg List.not_mem_nil]

/-- What `renew` finds where an endpoint goes offline. -/
def GoesOffline (ports : MailboxPorts) (s : MailboxState) (lease : PeerLease) (now : ℕ)
    (label : Option String) : Prop :=
  ∃ prior, owner lease now false s = .ok prior ∧ prior.state ≠ .terminal
    ∧ ports.endpointFormat { prior with
      state := .offline
      label := label.getD prior.label
      leaseUntil := now + MailboxLimits.leaseMs } = true

theorem Story.renewed_revision_le {P : Prop}
    (hsound : story.Sound P key) (identity : PeerIdentity) (state : EndpointState)
    (hbefore : key.sender = identity → ¬ P) :
    (story.renewed identity state).receipt.revision ≤ MailboxLimits.revisions := by
  unfold Story.renewed
  split_ifs
  · exact Nat.le_of_add_right_le (hsound.queued identity).bounded
  · exact Nat.le_of_add_right_le (hsound.ended identity state hbefore Iff.rfl).bounded

theorem renew_moves (h : s.Good) (hB : ∀ p m, Harmless p m → B p m) (ports : MailboxPorts)
    (lease : PeerLease) (state : EndpointState) (now : ℕ) (label : Option String)
    (hrenew : state = .offline → GoesOffline ports s lease now label →
      B s.post (.wentOffline lease.identity)) :
    Moves B (renew ports lease state now label) s := by
  refine ends_query_bind (fun _ _ => .refl h) fun prior hprior => ?_
  refine ends_check_bind (fun _ _ => .refl h) fun _ hterminal => ?_
  refine ends_check_bind (fun _ _ => .refl h) fun _ hformat => ?_
  refine ends_write_bind.2 ?_
  have hgoes (hoffline : state = .offline) : GoesOffline ports s lease now label := by
    subst hoffline
    refine ⟨prior, hprior, fun hstate => ?_, Bool.eq_true_of_not_eq_false (refuseIf_ok.1 hformat)⟩
    exact refuseIf_ok.1 hterminal ⟨hstate, (nomatch ·)⟩
  obtain ⟨row, hrow, rfl, -, -, -, hretired, -⟩ := owner_ok hprior
  rw [hrow]
  dsimp only
  generalize hupdated : ({ row with endpoint := { row.endpoint with
    state := state
    label := label.getD row.endpoint.label
    leaseUntil := now + MailboxLimits.leaseMs } } : EndpointRow) = updated
  have hstate : updated.endpoint.state = state := by rw [← hupdated]
  -- The endpoint had not retired before.
  have hbefore : ¬ s.post.retired lease.identity := by
    rintro ⟨row', hrow', hretired'⟩
    rw [hrow] at hrow'
    cases hrow'
    exact hretired hretired'
  have hbound {key story} (hstory : s.story key = some story) :=
    Story.renewed_revision_le (h.story hstory) lease.identity state fun heq => heq ▸ hbefore
  by_cases hends : state = .retired ∨ state = .terminal ∨ state = .offline
  · rw [if_pos hends]
    refine ends_query_bind nofun fun _ hkeys => ?_
    cases hkeys
    refine ends_bind.2 ((ends_renewLoop (t := s.putEndpoint lease.identity updated) h.sound rfl
      h.orderly hends rfl hbound).weaken fun _ t hr => ?_)
    obtain ⟨rfl, hpost, horderly⟩ := hr
    have hmade : Made B s t := by
      by_cases hoffline : state = .offline
      · refine .one (m := .wentOffline lease.identity) h trivial
          (hrenew hoffline (hgoes hoffline)) (hpost.trans ?_) horderly
        refine Post.ext (funext fun key => ?_) (funext fun other => ?_)
        · exact congrArg (Option.map · (s.story key)) (funext fun story => if_pos hoffline)
        · show (s.putEndpoint lease.identity updated).post.retired other = s.post.retired other
          rw [retired_putEndpoint]
          split_ifs with hother
          · rw [hother, hstate, hoffline]
            exact propext ⟨(nomatch ·), fun h => absurd h hbefore⟩
          · rfl
      · refine .one (m := .ended lease.identity state) h hbefore (hB _ _ trivial)
          (hpost.trans ?_) horderly
        refine Post.ext (funext fun key => ?_) (funext fun other => ?_)
        · exact congrArg (Option.map · (s.story key)) (funext fun story => if_neg hoffline)
        · show (s.putEndpoint lease.identity updated).post.retired other = _
          rw [retired_putEndpoint]
          split_ifs with hother
          · rw [hother, hstate]
            exact propext ⟨fun h => .inr ⟨rfl, h⟩, fun h => h.elim (absurd · hbefore) And.right⟩
          · exact propext ⟨.inl, fun h => h.elim id fun hand => absurd hand.1 hother⟩
    exact ends_write_bind.2 (ends_pure.2 (hmade.trans (.settleSubscriptions hmade.good now)))
  · rw [if_neg hends]
    have hmade : Made B s (s.putEndpoint lease.identity updated) := by
      refine .aside h rfl rfl rfl (funext fun other => ?_)
      rw [retired_putEndpoint]
      split_ifs with hother
      · rw [hother, hstate]
        exact propext ⟨fun h => absurd (.inl h) hends, fun h => absurd h hbefore⟩
      · rfl
    exact ends_write_bind.2 (ends_pure.2 (hmade.trans (.settleSubscriptions hmade.good now)))

/-! ## Proposing and admitting -/

theorem endpoint_ok (h : endpoint identity s = .ok view) :
    ∃ row, s.endpoints.get identity = some row ∧ row.endpoint = view.endpoint
      ∧ view.fence = row.fence ∧ view.current = !superseded s identity := by
  unfold endpoint at h
  rcases hrow : s.endpoints.get identity with _ | row
  · rw [hrow] at h
    cases h
  · rw [hrow] at h
    cases h
    exact ⟨row, rfl, rfl, rfl, rfl⟩

theorem not_retired_of_endpoint
    (h : endpoint identity s = .ok view) (hended : ¬ view.endpoint.state.Ended) :
    ¬ s.post.retired identity := by
  obtain ⟨row, hrow, hview, -⟩ := endpoint_ok h
  rintro ⟨row', hrow', hretired⟩
  rw [hrow] at hrow'
  cases hrow'
  exact hended (.inl (hview ▸ hretired))

variable {message : PeerMessage} {receiving : Bool}

/-- A message whose lane is open has neither a retired sender nor a retired recipient. -/
theorem checkLane_ok {route : Option PeerRouteProof} {crossScope : Bool}
    (h : checkLane lease message now receiving route s = .ok crossScope) :
    ¬ s.post.retired message.sender ∧ ¬ s.post.retired message.recipient := by
  obtain ⟨current, -, h⟩ := except_bind_ok.1 h
  obtain ⟨_, -, h⟩ := except_bind_ok.1 h
  rcases hsender : endpoint message.sender s with _ | sender
  · rw [hsender] at h
    cases h
  rcases hrecipient : endpoint message.recipient s with _ | recipient
  · rw [hsender, hrecipient] at h
    cases h
  rw [hsender, hrecipient] at h
  dsimp only at h
  obtain ⟨_, -, h⟩ := except_bind_ok.1 h
  obtain ⟨_, -, h⟩ := except_bind_ok.1 h
  obtain ⟨cross, -, h⟩ := except_bind_ok.1 h
  obtain ⟨_, hended, -⟩ := except_bind_ok.1 h
  obtain ⟨h₁, h₂⟩ := not_or.1 (refuseIf_ok.1 hended)
  exact ⟨not_retired_of_endpoint hsender h₁, not_retired_of_endpoint hrecipient h₂⟩

/-- The request of a reply, as `requestOf` finds it. -/
structure IsRequest (s : MailboxState) (message : PeerMessage) (request : MessageKey)
    (record : MailboxRecord) : Prop where
  reply : message.kind = .reply
  named : ∃ correlation, message.correlation = some correlation
    ∧ request = ⟨message.recipient, message.sender, correlation⟩
  told : ∃ story, s.story request = some story ∧ record = ⟨story.receipt, story.payload⟩
  answerable : record.Answerable message

variable {request : MessageKey} {operations : List Operation}

theorem IsRequest.answers {record : MailboxRecord}
    (h : IsRequest s message request record) : s.post.Answers message request := by
  obtain ⟨correlation, hcorrelation, hrequest⟩ := h.named
  obtain ⟨story, hstory, hrecord⟩ := h.told
  have hanswerable := h.answerable
  rw [hrecord] at hanswerable
  exact ⟨correlation, hcorrelation, hrequest, story, hstory, hanswerable.1, hanswerable.2.2.2⟩

theorem ends_requestOf {Q : Except PeerFailure (Option MailboxRecord) → MailboxState → Prop}
    (h : s.Good) (hB : ∀ p m, Harmless p m → B p m) (message : PeerMessage)
    (herror : ∀ e s', Made B s s' → Q (.error e) s')
    (hnone : message.kind ≠ .reply → Q (.ok none) s)
    (hsome : ∀ {request record}, IsRequest s message request record → Q (.ok (some record)) s) :
    Ends Capacity Q (requestOf message) s := by
  unfold requestOf
  by_cases hkind : message.kind = .reply
  swap
  · rw [if_neg hkind]
    exact ends_pure.2 (hnone hkind)
  rw [if_pos hkind]
  refine ends_query_bind nofun fun _ hprior => ?_
  cases hprior
  rcases hrow : message.correlation.bind fun correlation =>
      s.messages.get ⟨message.recipient, message.sender, correlation⟩ with _ | row
  · exact ends_refuse.2 (herror _ s (.refl h))
  obtain ⟨correlation, hcorrelation, hrow⟩ := Option.bind_eq_some_iff.1 hrow
  have hstory := MailboxState.story_eq_some.2 ⟨row, hrow, rfl⟩
  dsimp only
  by_cases hanswerable : (MailboxRecord.mk row.receipt row.payload).Answerable message
  · rw [if_pos hanswerable]
    exact ends_pure.2 (hsome ⟨hkind, ⟨correlation, hcorrelation, rfl⟩, ⟨_, hstory, rfl⟩,
      hanswerable⟩)
  · rw [if_neg hanswerable]
    exact ends_conflict h hB hstory fun s' hmade => herror _ s' hmade

/-- The settlement of a request finds the request as it was, and room for it. -/
theorem ends_settleRequest {new : Story}
    {receipt : MailboxReceipt} (h : s.Good) (hpost : t.post = s.post.put key new)
    (horderly : t.Orderly) (hne : request ≠ key) (hstory : s.story request = some story)
    (hopen : story.receipt.Open) (hretired : ¬ s.post.retired request.sender) :
    Ends Capacity (fun _ t' =>
        t'.post = (s.post.put key new).put request (story.answered key) ∧ t'.Orderly) (do
      let settled ← attempt
        (change story.receipt (repliedPatch story.receipt key) .transition)
      match settled with
      | .error _ => abort .replySettlementFailed
      | .ok _ => pure receipt : Tx MailboxReceipt) t := by
  have hsound := h.story hstory
  have hroom := room_of_open hopen hretired hsound.bounded
  have hrevises := repliedPatch_revises key hopen hsound.coherent hsound.bounded
  have hkey : ((repliedPatch story.receipt key).apply story.receipt).key = request := hsound.keyed
  have hrecipient : ((repliedPatch story.receipt key).apply story.receipt).recipient
      = ((repliedPatch story.receipt key).apply story.receipt).key.recipient := by
    rw [hkey]
    exact hsound.recipient
  have htold : t.story request = some story := by
    have hstories := congrArg (fun p : Post => p.stories request) hpost
    exact hstories.trans ((Post.put_ne _ _ hne).trans hstory)
  have htold' : t.story ((repliedPatch story.receipt key).apply story.receipt).key = some story :=
    hkey.symm ▸ htold
  refine ends_attempt_bind.2 (ends_check_bind (fun _ he => ?_) fun _ _ => ?_)
  · have hceiling : ¬ (repliedPatch story.receipt key).ceiling ≤ story.receipt.revision :=
      Nat.not_le.2 hroom
    rw [refuseIf, if_neg hceiling] at he
    cases he
  · refine ends_save (hkey.symm ▸ hsound) htold' rfl
      (Nat.le_of_add_right_le hrevises.bounded) (ends_pure.2 ⟨?_, ?_⟩)
    · rw [MailboxState.post_record htold' hrecipient, hkey, hpost]
      rfl
    · exact horderly.record htold' hrecipient

/-- The stories after the first write of `writeMessage`. -/
theorem post_acceptRow (hstory : s.story key = some story) :
    (s.updateMessage key fun row => { row with accepted := true }).post
      = s.post.put key { story with accepted := true } := by
  obtain ⟨row, hrow, rfl⟩ := MailboxState.story_eq_some.1 hstory
  have hupdate : (s.updateMessage key fun row => { row with accepted := true })
      = s.putMessage key { row with accepted := true } := by
    unfold MailboxState.updateMessage
    rw [hrow]
  rw [hupdate]
  refine Post.ext (funext fun other => ?_) rfl
  show Option.map _ ((s.messages.set key _).get other) = _
  rw [OrderedMap.get_set]
  by_cases hother : other = key
  · subst hother
    rw [if_pos rfl, Post.put_self]
    rfl
  · rw [if_neg hother, Post.put_ne _ _ hother]
    rfl

theorem post_insertRow (row : MessageRow) (h : s.Orderly) (hnone : s.messages.get key = none) :
    (s.putMessage key row).post
      = s.post.put key ⟨row.receipt, row.accepted, row.payload, [], False⟩ := by
  obtain ⟨hhistory, hnotified⟩ := h key hnone
  refine Post.ext (funext fun other => ?_) rfl
  show Option.map _ ((s.messages.set key row).get other) = _
  rw [OrderedMap.get_set]
  by_cases hother : other = key
  · subst hother
    rw [if_pos rfl, Post.put_self]
    show some (⟨row.receipt, row.accepted, row.payload, s.history other, s.Notified other⟩ : Story)
      = _
    rw [hhistory, eq_false hnotified]
  · rw [if_neg hother, Post.put_ne _ _ hother]
    rfl

/-- The writes of `persist` after its first one. -/
theorem ends_writeRest {receipt : MailboxReceipt}
    {written : Story} {original : Option MailboxRecord}
    {answers : Option MessageKey} (h : s.Good) (hpost : t.post = s.post.put key written)
    (horderly : t.Orderly) (hkey : receipt.key = key)
    (hrecipient : receipt.recipient = key.recipient) (haccepted : ¬ t.Refuses receipt)
    (hanswers : match if receiving then original else none with
      | none => answers = none
      | some record => ∃ request story, answers = some request ∧ request ≠ key
        ∧ s.story request = some story ∧ record = ⟨story.receipt, story.payload⟩
        ∧ story.receipt.Open ∧ ¬ s.post.retired request.sender) :
    Ends Capacity (fun _ t' =>
        t'.post = (s.post.put key (written.after receipt .transition)).answer answers key
          ∧ t'.Orderly) (do
      let _ ← save receipt .transition
      write fun s => if receiving then s.acceptAttempts key now else s
      match if receiving then original else none with
      | none => pure receipt
      | some original =>
        let settled ← attempt
          (change original.receipt (repliedPatch original.receipt key) .transition)
        match settled with
        | .error _ => abort .replySettlementFailed
        | .ok _ => pure receipt : Tx MailboxReceipt) t := by
  have htold : t.story key = some written := by
    have hstories := congrArg (fun p : Post => p.stories key) hpost
    exact hstories.trans (Post.put_self ..)
  have htold' : t.story receipt.key = some written := hkey.symm ▸ htold
  have hrecipient' : receipt.recipient = receipt.key.recipient := hkey.symm ▸ hrecipient
  refine ends_bind.2 (ends_save_of_accepted haccepted ?_)
  refine ends_write_bind.2 ?_
  have hattempts : ∀ u : MailboxState, (if receiving then u.acceptAttempts key now else u).post = u.post
      ∧ (u.Orderly → (if receiving then u.acceptAttempts key now else u).Orderly) := by
    intro u
    cases receiving with
    | true | false => exact ⟨rfl, fun hu => hu⟩
  have hpost' : (if receiving then (t.record receipt .transition).acceptAttempts key now
      else t.record receipt .transition).post
        = s.post.put key (written.after receipt .transition) := by
    rw [(hattempts _).1, MailboxState.post_record htold' hrecipient', hkey, hpost, Post.put_put]
  have horderly' := (hattempts (t.record receipt .transition)).2
    (horderly.record htold' hrecipient')
  generalize horiginal : (if receiving then original else none) = settles at hanswers ⊢
  rcases settles with _ | record
  · dsimp only at hanswers
    rw [hanswers]
    exact ends_pure.2 ⟨hpost', horderly'⟩
  · dsimp only at hanswers ⊢
    obtain ⟨request, story, rfl, hne, hstory, rfl, hopen, hretired⟩ := hanswers
    rw [Post.answer_some ((Post.put_ne _ _ hne).trans hstory)]
    exact ends_settleRequest h hpost' horderly' hne hstory hopen hretired

/-- What `admit` finds where it admits a message that was proposed. -/
def Admits (ports : MailboxPorts) (s : MailboxState) (lease : PeerLease) (message : PeerMessage)
    (now : ℕ) (route : Option PeerRouteProof) (available : PeerArtifact → Bool) : Prop :=
  ports.messageFormat message = true ∧ message.Refined
    ∧ ports.messageBytes message ≤ MailboxLimits.envelopeBytes
    ∧ (∃ crossScope policy, checkLane lease message now true route s = .ok crossScope
      ∧ checkMessage ports message now true available crossScope false s = .ok policy)
    ∧ (∃ row, s.messages.get (messageKey message) = some row ∧ row.receipt.digest = message
      ∧ row.receipt.delivery.Pending)
    ∧ (message.kind = .reply → ∃ request record, IsRequest s message request record)

theorem PeerMessage.Refined.correlation (h : message.Refined) :
    message.correlation = none ↔ message.kind ≠ .reply := by
  obtain ⟨-, -, hkind, -⟩ := h
  by_cases hreply : message.kind = .reply
  · rw [if_pos hreply] at hkind
    exact ⟨fun hnone => absurd hnone hkind, fun hne => absurd hreply hne⟩
  · rw [if_neg hreply] at hkind
    exact ⟨fun _ => hreply, fun _ => hkind⟩

/-- A request is not its own reply. -/
theorem IsRequest.open {record : MailboxRecord}
    (h : IsRequest s message request record) (hs : s.Good) :
    ∃ story, s.story request = some story ∧ record = ⟨story.receipt, story.payload⟩
      ∧ story.receipt.Open ∧ story.receipt.digest.kind = .request := by
  obtain ⟨story, hstory, hrecord⟩ := h.told
  have hanswerable := h.answerable
  rw [hrecord] at hanswerable
  obtain ⟨payload, hpayload, hkind⟩ := Option.map_eq_some_iff.1 hanswerable.1
  obtain ⟨htomb, rfl⟩ := (hs.story hstory).not_tombstoned hpayload
  exact ⟨story, hstory, hrecord, ⟨hanswerable.2.2.2, htomb⟩, hkind⟩

/-- What `requestOf` found fits the writes of `persist`. -/
theorem settles_of_request (receiving : Bool)
    {original : Option MailboxRecord} {answers : Option MessageKey} (h : s.Good)
    (hretired : ¬ s.post.retired message.recipient)
    (hself : ∀ story, s.story (messageKey message) = some story → story.receipt.digest = message)
    (horiginal : original.elim (answers = none) fun record => ∃ request,
      answers = (if receiving then some request else none)
        ∧ IsRequest s message request record) :
    match if receiving then original else none with
    | none => answers = none
    | some record => ∃ request story, answers = some request ∧ request ≠ messageKey message
      ∧ s.story request = some story ∧ record = ⟨story.receipt, story.payload⟩
      ∧ story.receipt.Open ∧ ¬ s.post.retired request.sender := by
  rcases original with _ | record
  · rw [ite_self]
    exact horiginal
  obtain ⟨request, hanswers, hrequest⟩ := horiginal
  cases receiving with
  | false => exact hanswers
  | true =>
    obtain ⟨story, hstory, hrecord, hopen, hkind⟩ := hrequest.open h
    obtain ⟨correlation, -, rfl⟩ := hrequest.named
    refine ⟨_, story, hanswers, ?_, hstory, hrecord, hopen, hretired⟩
    intro heq
    rw [hself story (heq ▸ hstory), hrequest.reply] at hkind
    cases hkind

theorem admitMessage_moves (h : s.Good) (hB : ∀ p m, Harmless p m → B p m) (ports : MailboxPorts)
    {route : Option PeerRouteProof} {available : PeerArtifact → Bool} {crossScope : Bool}
    {existing : Option MessageRow} (hrefined : message.Refined)
    (hlane : checkLane lease message now receiving route s = .ok crossScope)
    (hexisting : s.messages.get (messageKey message) = existing)
    (hknown : ∀ row ∈ existing, receiving = true ∧ row.receipt.digest = message
      ∧ row.receipt.delivery.Pending)
    (hadmission : ∀ row policy answers, existing = some row →
      checkMessage ports message now receiving available crossScope false s = .ok policy →
      (message.kind = .reply → ∃ request record, IsRequest s message request record) →
      B s.post (.admitted (messageKey message) policy answers)) :
    Moves B (admitMessage ports message now receiving available crossScope existing) s := by
  obtain ⟨hsender, hrecipient⟩ := checkLane_ok hlane
  have hself : ∀ story, s.story (messageKey message) = some story →
      story.receipt.digest = message := by
    intro story hstory
    obtain ⟨row, hrow, rfl⟩ := MailboxState.story_eq_some.1 hstory
    exact (hknown row (hexisting ▸ hrow)).2.1
  refine ends_query_bind (fun _ _ => .refl h) fun policy hpolicy => ?_
  -- The writes, once it is known which request is answered.
  have hwrites : ∀ (original : Option MailboxRecord) (answers : Option MessageKey),
      (original.elim (answers = none) fun record => ∃ request,
        answers = (if receiving then some request else none)
          ∧ IsRequest s message request record) →
      (receiving = true → s.post.AnswersAll message answers) →
      (receiving = false → answers = none) →
      (message.kind = .reply → ∃ request record, IsRequest s message request record) →
      Ends Capacity (fun _ s' => Made B s s')
        (writeMessage ports message now receiving policy existing original) s := by
    intro original answers horiginal hall hproposed hreply
    have hsettles := settles_of_request receiving h hrecipient hself horiginal
    refine ends_write_bind.2 ?_
    rcases existing with _ | row
    · show Ends _ _ _ (s.putMessage (messageKey message)
        (newRow ports message now receiving (firstReceipt message receiving policy)))
      have hpost := post_insertRow (newRow ports message now receiving
        (firstReceipt message receiving policy)) h.orderly hexisting
      have horderly : (s.putMessage (messageKey message) (newRow ports message now receiving
          (firstReceipt message receiving policy))).Orderly := by
        intro other hnone
        refine h.orderly other ?_
        unfold MailboxState.putMessage at hnone
        rw [OrderedMap.get_set] at hnone
        split_ifs at hnone with hother
        exact hnone
      have haccepted : ¬ (s.putMessage (messageKey message) (newRow ports message now receiving
          (firstReceipt message receiving policy))).Refuses
            (firstReceipt message receiving policy) := by
        rintro (hlow | hhigh | hnone | ⟨event, hevent, hkey, -⟩)
        · exact Nat.lt_irrefl 1 hlow
        · exact absurd hhigh (show ¬ MailboxLimits.revisions < 1 by decide)
        · exact absurd ((OrderedMap.get_set_self ..).symm.trans hnone) (fun h => by cases h)
        · have hmem : event ∈ s.history (messageKey message) :=
            List.mem_filter.2 ⟨hevent, decide_eq_true hkey⟩
          rw [(h.orderly _ hexisting).1] at hmem
          exact List.not_mem_nil hmem
      refine (ends_writeRest h hpost horderly rfl rfl haccepted hsettles).weaken fun r t hr => ?_
      refine .one (m := .post message receiving policy answers) h
        ⟨MailboxState.story_eq_none.2 hexisting, hsender, hrecipient, ?_, hrefined.correlation⟩
        (hB _ _ trivial) (hr.1.trans ?_) hr.2
      · cases receiving with
        | true => exact hall rfl
        | false => exact hproposed rfl
      · rfl
    · obtain ⟨rfl, hdigest, hpending⟩ := hknown row rfl
      have hstory := MailboxState.story_eq_some.2 ⟨row, hexisting, rfl⟩
      have hsound := h.story hstory
      have hpost := post_acceptRow hstory
      have horderly := h.orderly.clean (messageKey message) fun row => { row with accepted := true }
      have htold := congrArg (fun p : Post => p.stories (messageKey message)) hpost
      have htold := htold.trans (Post.put_self ..)
      have hkey : (admittedReceipt row.receipt policy).key = messageKey message := hsound.keyed
      have htold' : (s.updateMessage (messageKey message)
          fun row => { row with accepted := true }).story (admittedReceipt row.receipt policy).key
            = some ⟨row.receipt, true, row.payload, s.history (messageKey message),
              s.Notified (messageKey message)⟩ := by
        rw [hkey]
        exact htold
      have haccepted : ¬ (s.updateMessage (messageKey message)
          fun row => { row with accepted := true }).Refuses (admittedReceipt row.receipt policy) := by
        refine MailboxState.not_refuses (P := s.post.retired message.sender) ?_ htold' rfl
          (Nat.le_of_add_right_le (hsound.admitted policy hpending).bounded)
        rw [hkey]
        exact { hsound with }
      refine (ends_writeRest h hpost horderly hkey hsound.recipient haccepted hsettles).weaken
        fun r t hr => ?_
      have hanswers : s.post.AnswersAll row.receipt.digest answers := hdigest.symm ▸ hall rfl
      refine .one (m := .admitted (messageKey message) policy answers) h
        ⟨_, hstory, hpending, hsender, hrecipient, hanswers⟩
        (hadmission row policy answers rfl hpolicy hreply) (hr.1.trans ?_) hr.2
      rw [Post.after_admitted
        (show s.post.stories (messageKey message) = some _ from hstory)]
      rfl
  refine ends_bind.2 (ends_requestOf h hB message (fun _ _ hmade => hmade) (fun hkind => ?_)
    fun {request record} hrequest => ?_)
  · exact hwrites none none rfl (fun _ => hrefined.correlation.2 hkind) (fun _ => rfl)
      fun hreply => absurd hreply hkind
  · refine hwrites (some record) (if receiving then some request else none)
      ⟨request, rfl, hrequest⟩ (fun hreceiving => ?_) (fun hproposed => ?_)
      fun _ => ⟨request, record, hrequest⟩
    · rw [if_pos hreceiving]
      exact hrequest.answers
    · rw [if_neg (Bool.not_eq_true _ ▸ hproposed)]

theorem persist_moves (h : s.Good) (hB : ∀ p m, Harmless p m → B p m) (ports : MailboxPorts)
    (lease : PeerLease) (message : PeerMessage) (now : ℕ) (receiving : Bool)
    (route : Option PeerRouteProof) (available : PeerArtifact → Bool)
    (hadmission : ∀ policy answers, receiving = true →
      Admits ports s lease message now route available →
      B s.post (.admitted (messageKey message) policy answers)) :
    Moves B (persist ports lease message now receiving route available) s := by
  refine ends_check_bind (fun _ _ => .refl h) fun _ hparsed => ?_
  obtain ⟨hformat, hparsed⟩ := not_or.1 (refuseIf_ok.1 hparsed)
  obtain ⟨hrefined, hbytes⟩ := not_or.1 hparsed
  have hrefined := not_not.1 hrefined
  refine ends_query_bind (fun _ _ => .refl h) fun crossScope hlane => ?_
  refine ends_query_bind (fun _ herror => nomatch herror) fun existing hexisting => ?_
  have hexisting : s.messages.get (messageKey message) = existing := Except.ok.inj hexisting
  rcases existing with _ | row
  · exact admitMessage_moves h hB ports hrefined hlane hexisting (fun row hrow => nomatch hrow)
      fun _ _ _ hrow => nomatch hrow
  have hstory := MailboxState.story_eq_some.2 ⟨row, hexisting, rfl⟩
  dsimp only
  by_cases hdigest : row.receipt.digest ≠ message
  · rw [if_pos hdigest]
    exact ends_conflict h hB hstory fun _ hmade => hmade
  rw [if_neg hdigest]
  have hdigest := not_not.1 hdigest
  by_cases hknown : receiving = false ∨ ¬ row.receipt.delivery.Pending
  · rw [if_pos hknown]
    refine ends_bind.2 (ends_expire h hB hstory rfl now (fun _ => ?_) fun _ _ hmade => ?_)
    · exact ends_pure.2 (.refl h)
    · exact ends_pure.2 hmade
  rw [if_neg hknown]
  obtain ⟨hreceiving, hpending⟩ := not_or.1 hknown
  have hreceiving : receiving = true := Bool.eq_true_of_not_eq_false hreceiving
  have hpending := not_not.1 hpending
  refine admitMessage_moves h hB ports hrefined hlane hexisting (fun row' hrow' => ?_)
    fun row' policy answers hrow' hpolicy hreply => ?_
  · cases hrow'
    exact ⟨hreceiving, hdigest, hpending⟩
  · subst hreceiving
    exact hadmission policy answers rfl ⟨Bool.eq_true_of_not_eq_false hformat, hrefined,
      Nat.le_of_not_lt hbytes, ⟨crossScope, policy, hlane, hpolicy⟩, ⟨row, hexisting, hdigest,
      hpending⟩, hreply⟩

/-! ## Any transaction -/

/-- The moves of a transaction that may bring a message back to its recipient. -/
def Returns (ports : MailboxPorts) (s : MailboxState) (m : Move) : Operation → Prop
  | .admitPeer lease message now route available =>
    (∃ policy answers, m = .admitted (messageKey message) policy answers)
      ∧ Admits ports s lease message now route available
  | .renew lease state now label =>
    m = .wentOffline lease.identity ∧ state = .offline ∧ GoesOffline ports s lease now label
  | .acknowledge lease ack now =>
    m = .change ack.key ack.kind.change ∧ ack.kind ≠ .refused
      ∧ ∃ receipt, Acknowledges s lease ack now receipt
  | .release lease key now =>
    m = .change key .released
      ∧ ∃ receipt, Releases s lease key now receipt ∧ receipt.delivery.Arrived
  | _ => False

theorem Moves.forget {p : Tx α} (h : Moves B p s) : Moves B (do let _ ← p : Tx Unit) s :=
  ends_bind.2 (h.weaken fun r _ hmade => by
    rcases r with e | a
    · exact hmade
    · exact ends_pure.2 hmade)

/-- **Every transaction makes moves**, and the ones that may bring a message back are those of
`Returns`. -/
theorem perform_moves (h : s.Good) (hB : ∀ p m, Harmless p m → B p m) (ports : MailboxPorts)
    (operation : Operation) (hreturns : ∀ m, Returns ports s m operation → B s.post m) :
    Moves B (perform ports operation) s := by
  cases operation with
  | register registration now => exact (register_moves h hB ports registration now).forget
  | renew lease state now label =>
    exact (renew_moves h hB ports lease state now label fun hoffline hgoes =>
      hreturns _ ⟨rfl, hoffline, hgoes⟩).forget
  | policy lease sender policy now => exact setPolicy_moves h hB lease sender policy now
  | grantRoute lease sender input now => exact (grantRoute_moves h lease sender input now).forget
  | revokeRoute lease peer direction expectedRevision now =>
    exact (revokeRoute_moves h hB lease peer direction expectedRevision now).forget
  | propose lease message now available =>
    exact (persist_moves h hB ports lease message now false none available
      fun _ _ hreceiving => nomatch hreceiving).forget
  | admitPeer lease message now route available =>
    exact (persist_moves h hB ports lease message now true route available
      fun policy answers _ hadmits => hreturns _ ⟨⟨policy, answers, rfl⟩, hadmits⟩).forget
  | deliveryAttempt lease key phase now =>
    exact (deliveryAttempt_moves h hB lease key phase now).forget
  | subscribe lease input now => exact (subscribe_moves h ports lease input now).forget
  | subscription lease sender id now => exact (subscription_moves h lease sender id now).forget
  | cancelSubscription lease id now => exact (cancelSubscription_moves h lease id now).forget
  | notifications lease now => exact (notifications_moves h lease now).forget
  | acknowledge lease ack now =>
    exact (acknowledge_moves h hB lease ack now fun receipt hkind hacks =>
      hreturns _ ⟨rfl, hkind, receipt, hacks⟩).forget
  | inspect lease key now reviewHeld subject =>
    exact (inspect_moves h hB lease key now reviewHeld subject).forget
  | localWait lease key state now => exact (localWait_moves h hB lease key state now).forget
  | release lease key now =>
    exact (release_moves h hB lease key now fun receipt hreleases harrived =>
      hreturns _ ⟨rfl, receipt, hreleases, harrived⟩).forget
  | cleanup lease key now => exact (cleanup_moves h hB lease key now).forget

theorem good_empty : MailboxState.empty.Good where
  sound := ⟨nofun, nofun⟩
  orderly := fun _ _ => ⟨rfl, List.not_mem_nil⟩

/-- **Every run makes moves.** -/
theorem run_made {ports : MailboxPorts} (hB : ∀ p m, Harmless p m → B p m) (h : s.Good)
    (hrun : StateMachine.run (step ports) s operations = some t)
    (halong : StateMachine.Along (step ports)
      (fun s operation => ∀ m, Returns ports s m operation → B s.post m) s operations) :
    Made B s t := by
  refine StateMachine.run_along_preserves (I := fun t => Made B s t)
    (fun t operation t' hmade hreturns hstep => ?_) (.refl h) halong hrun
  cases hstep
  exact Ends.commit (P := fun t' => Made B s t')
    ((perform_moves hmade.good hB ports operation hreturns).weaken fun _ _ h' => hmade.trans h')
    hmade

/-- Every reachable state is good. -/
theorem run_good {ports : MailboxPorts}
    (h : s.Good) (hrun : StateMachine.run (step ports) s operations = some t) : t.Good := by
  refine StateMachine.run_invariant (I := fun t => t.Good) (fun t operation t' hgood hstep => ?_)
    h hrun
  cases hstep
  exact Ends.commit (P := fun t' => t'.Good)
    ((perform_moves (B := fun _ _ => True) hgood (fun _ _ _ => trivial) ports operation
      fun _ _ => trivial).weaken fun _ _ h' => h'.good) hgood

end Falryn.Orchestration.Mailbox
