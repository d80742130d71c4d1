import Falryn.Orchestration.MailboxSoundness

/-!
# What a transaction writes is a move

The rules that connect the tables to the stories: a saved receipt is one more event of one story, and
the helpers that every transaction of the store uses, `save`, `change`, `conflict`, `expire` and
`access`, make moves.  A transaction may be bound to the moves of a kind `B`; most moves are harmless,
and a kind is only asked to have the others where a transaction makes them.
-/

namespace Falryn.Orchestration.Mailbox

open Transaction

/-! ## Sequences of moves -/

/-- Moves of a kind lead from one to the other. -/
def Reaches (B : Post → Move → Prop) (p q : Post) : Prop :=
  ∃ moves, StateMachine.run Post.move p moves = some q ∧ StateMachine.Along Post.move B p moves

namespace Reaches

variable {B : Post → Move → Prop} {p q r : Post}

theorem refl (p : Post) : Reaches B p p := ⟨[], rfl, trivial⟩

theorem one {m : Move} (hlegal : p.Legal m) (hB : B p m) : Reaches B p (p.after m) :=
  ⟨[m], StateMachine.run_cons.2 ⟨_, Post.move_eq_some.2 ⟨hlegal, rfl⟩, rfl⟩, hB, fun _ _ => trivial⟩

theorem trans (h : Reaches B p q) (h' : Reaches B q r) : Reaches B p r := by
  obtain ⟨moves, hrun, hall⟩ := h
  obtain ⟨moves', hrun', hall'⟩ := h'
  refine ⟨moves ++ moves', StateMachine.run_append.2 ⟨q, hrun, hrun'⟩,
    StateMachine.along_append.2 ⟨hall, fun _ ht => ?_⟩⟩
  rw [hrun] at ht
  cases ht
  exact hall'

theorem sound (h : Reaches B p q) (hp : p.Sound) : q.Sound := by
  obtain ⟨moves, hrun, -⟩ := h
  exact StateMachine.run_invariant (fun _ _ _ hp hmove => hp.move hmove) hp hrun

end Reaches

/-- A move after which no message can have come back to its recipient. -/
def Harmless (p : Post) : Move → Prop
  | .change _ .delivered => False
  | .change _ .processing => False
  | .change key .released => ∀ story, p.stories key = some story → ¬ story.receipt.delivery.Arrived
  | .admitted _ _ _ => False
  | .wentOffline _ => False
  | _ => True

/-! ## The tables -/

/-- A message that is not there has left no trace. -/
def MailboxState.Orderly (s : MailboxState) : Prop :=
  ∀ key, s.messages.get key = none → s.history key = [] ∧ ¬ s.Notified key

/-- What holds of the tables in every state. -/
structure MailboxState.Good (s : MailboxState) : Prop where
  sound : s.post.Sound
  orderly : s.Orderly

/-- Moves of a kind lead from one state of the tables to the other. -/
structure Made (B : Post → Move → Prop) (s s' : MailboxState) : Prop where
  reaches : Reaches B s.post s'.post
  good : s'.Good

namespace Made

variable {B : Post → Move → Prop} {s s' s'' : MailboxState}

theorem refl (h : s.Good) : Made B s s := ⟨.refl _, h⟩

theorem trans (h : Made B s s') (h' : Made B s' s'') : Made B s s'' :=
  ⟨h.reaches.trans h'.reaches, h'.good⟩

/-- One move. -/
theorem one {m : Move} (h : s.Good) (hlegal : s.post.Legal m) (hB : B s.post m)
    (hpost : s'.post = s.post.after m)
    (horderly : s'.Orderly) : Made B s s' where
  reaches := hpost ▸ .one hlegal hB
  good := ⟨hpost ▸ (Reaches.one (B := fun _ _ => True) hlegal trivial).sound h.sound, horderly⟩

end Made

variable {s : MailboxState} {key : MessageKey} {notifications : OrderedMap Notification Bool}

theorem MailboxState.story_eq_some {story : Story} :
    s.story key = some story ↔ ∃ row, s.messages.get key = some row
      ∧ (⟨row.receipt, row.accepted, row.payload, s.history key, s.Notified key⟩ : Story) = story :=
  Option.map_eq_some_iff

theorem MailboxState.story_eq_none :
    s.story key = none ↔ s.messages.get key = none := Option.map_eq_none_iff

theorem MailboxState.Good.story (h : s.Good) {story : Story}
    (hstory : s.story key = some story) : story.Sound (s.post.retired key.sender) key :=
  h.sound.stories hstory

/-! ## Saving a receipt -/

theorem mem_insertNotification {new other : Notification} :
    other ∈ (insertNotification notifications new).keys ↔
      other ∈ notifications.keys ∨ other = new := by
  unfold insertNotification
  split_ifs with h
  · refine ⟨.inl, fun hor => hor.elim id ?_⟩
    rintro rfl
    exact h
  · rw [OrderedMap.keys_set_of_not_mem _ h, List.mem_append, List.mem_singleton]

/-- A saved receipt announces its message and no other one. -/
theorem mem_notify {receipt : MailboxReceipt} {fact : Fact} (hrecipient : receipt.recipient = receipt.key.recipient) :
    (⟨key, key.recipient, .arrival⟩ : Notification) ∈ (notify receipt fact notifications).keys ↔
      ⟨key, key.recipient, .arrival⟩ ∈ notifications.keys
        ∨ (key = receipt.key ∧ fact = .transition ∧ receipt.Announces) := by
  have hnew : (⟨key, key.recipient, .arrival⟩ : Notification)
      = ⟨receipt.key, receipt.recipient, .arrival⟩ ↔ key = receipt.key := by
    constructor
    · intro h
      exact congrArg Notification.key h
    · rintro rfl
      rw [hrecipient]
  have hsettlement : (⟨key, key.recipient, .arrival⟩ : Notification)
      ≠ ⟨receipt.key, receipt.sender, .settlement⟩ := fun h => nomatch congrArg Notification.kind h
  have harrived : (⟨key, key.recipient, .arrival⟩ : Notification)
      ∈ (if receipt.Announces then
          insertNotification notifications ⟨receipt.key, receipt.recipient, .arrival⟩
        else notifications).keys ↔
      ⟨key, key.recipient, .arrival⟩ ∈ notifications.keys ∨ (key = receipt.key ∧ receipt.Announces) := by
    split_ifs with h
    · rw [mem_insertNotification, hnew, and_iff_left h]
    · exact ⟨.inl, fun hor => hor.elim id fun hand => absurd hand.2 h⟩
  unfold notify
  dsimp only
  by_cases hfact : fact = .transition
  · rw [if_pos hfact]
    by_cases hsettles : receipt.Settles
    · rw [if_pos hsettles, mem_insertNotification, harrived, or_iff_left hsettlement,
        and_iff_right hfact]
    · rw [if_neg hsettles, harrived, and_iff_right hfact]
  · rw [if_neg hfact]
    exact ⟨.inl, fun hor => hor.elim id fun hand => absurd hand.2.1 hfact⟩

section
variable {s : MailboxState} {receipt : MailboxReceipt} {fact : Fact} {key : MessageKey}

theorem MailboxState.get_updateMessage (s : MailboxState) (key other : MessageKey)
    (update : MessageRow → MessageRow) :
    (s.updateMessage key update).messages.get other =
      if other = key then (s.messages.get key).map update else s.messages.get other := by
  unfold updateMessage
  rcases hrow : s.messages.get key with _ | row
  · by_cases h : other = key
    · rw [if_pos h, h, hrow]
      rfl
    · rw [if_neg h]
  · by_cases h : other = key
    · rw [if_pos h, h]
      exact OrderedMap.get_set_self ..
    · rw [if_neg h]
      exact OrderedMap.get_set_ne _ _ h

theorem MailboxState.history_record (s : MailboxState) (receipt : MailboxReceipt) (fact : Fact)
    (other : MessageKey) :
    (s.record receipt fact).history other =
      if other = receipt.key then
        s.history other ++ [⟨receipt.key, receipt.revision, fact, receipt⟩]
      else s.history other := by
  show (s.events ++ [_]).filter _ = _
  rw [List.filter_append, List.filter_cons, List.filter_nil]
  show s.history other ++ (if decide (receipt.key = other) then _ else _) = _
  by_cases h : other = receipt.key
  · rw [if_pos h, if_pos (decide_eq_true h.symm)]
  · rw [if_neg h, if_neg (decide_eq_true_iff.not.2 (Ne.symm h)), List.append_nil]

theorem MailboxState.get_record (s : MailboxState) (receipt : MailboxReceipt) (fact : Fact)
    (other : MessageKey) :
    (s.record receipt fact).messages.get other =
      if other = receipt.key then
        (s.messages.get receipt.key).map fun row => { row with receipt := receipt }
      else s.messages.get other := s.get_updateMessage ..

theorem MailboxState.notified_record (hrecipient : receipt.recipient = receipt.key.recipient) :
    (s.record receipt fact).Notified key ↔
      s.Notified key ∨ (key = receipt.key ∧ fact = .transition ∧ receipt.Announces) :=
  mem_notify hrecipient

@[simp] theorem MailboxState.record_policies : (s.record receipt fact).policies = s.policies := by
  unfold record updateMessage
  rcases s.messages.get receipt.key <;> rfl

@[simp] theorem MailboxState.record_endpoints : (s.record receipt fact).endpoints = s.endpoints := by
  unfold record updateMessage
  rcases s.messages.get receipt.key <;> rfl

/-- **A saved receipt is one more event of one story.** -/
theorem MailboxState.post_record {story : Story} (hstory : s.story receipt.key = some story)
    (hrecipient : receipt.recipient = receipt.key.recipient) :
    (s.record receipt fact).post = s.post.put receipt.key (story.after receipt fact) := by
  obtain ⟨row, hrow, rfl⟩ := story_eq_some.1 hstory
  refine Post.ext (funext fun other => ?_) (funext fun identity => ?_)
  · show (s.record receipt fact).story other = _
    unfold story
    rw [get_record, history_record]
    by_cases h : other = receipt.key
    · subst h
      rw [if_pos rfl, if_pos rfl, hrow, Post.put_self]
      refine congrArg some ?_
      show (⟨_, _, _, _, _⟩ : Story) = ⟨_, _, _, _, _⟩
      congr 1
      exact propext ((notified_record hrecipient).trans
        (or_congr_right (and_iff_right (rfl : receipt.key = receipt.key))))
    · rw [if_neg h, if_neg h, Post.put_ne _ _ h]
      show _ = (s.messages.get other).map _
      congr 1
      funext row'
      congr 1
      exact propext ((notified_record hrecipient).trans (or_iff_left fun hand => h hand.1))
  · show (∃ row, (s.record receipt fact).endpoints.get identity = some row ∧ _) = _
    rw [record_endpoints]
    rfl

variable {story : Story} {P : Prop}

/-- A receipt that follows the one of a story is not refused. -/
theorem MailboxState.not_refuses (hsound : story.Sound P receipt.key)
    (hstory : s.story receipt.key = some story)
    (hrevision : receipt.revision = story.receipt.revision + 1)
    (hbound : receipt.revision ≤ MailboxLimits.revisions) : ¬ s.Refuses receipt := by
  obtain ⟨row, hrow, hrest⟩ := story_eq_some.1 hstory
  have hlog : story.log = s.history receipt.key := by rw [← hrest]
  rintro (hlow | hhigh | hnone | ⟨event, hevent, hkey, hsame⟩)
  · omega
  · omega
  · rw [hrow] at hnone
    cases hnone
  · have hmem : event ∈ story.log := by
      rw [hlog]
      exact List.mem_filter.2 ⟨hevent, decide_eq_true hkey⟩
    have hrange := List.mem_map_of_mem (f := MailboxEvent.revision) hmem
    rw [hsound.revisions, List.mem_range'_1] at hrange
    omega

/-- A receipt that is not refused is recorded. -/
theorem ends_save_of_accepted {E : MailboxThrow → Prop}
    {Q : Except PeerFailure MailboxReceipt → MailboxState → Prop} (haccepted : ¬ s.Refuses receipt)
    (hQ : Q (.ok receipt) (s.record receipt fact)) : Ends E Q (save receipt fact) s := by
  refine ends_query_bind nofun fun _ hs' => ?_
  cases hs'
  rw [if_neg haccepted]
  exact ends_write_bind.2 (ends_pure.2 hQ)

theorem ends_save {E : MailboxThrow → Prop}
    {Q : Except PeerFailure MailboxReceipt → MailboxState → Prop} (hsound : story.Sound P receipt.key)
    (hstory : s.story receipt.key = some story)
    (hrevision : receipt.revision = story.receipt.revision + 1)
    (hbound : receipt.revision ≤ MailboxLimits.revisions)
    (hQ : Q (.ok receipt) (s.record receipt fact)) : Ends E Q (save receipt fact) s :=
  ends_save_of_accepted (MailboxState.not_refuses hsound hstory hrevision hbound) hQ

theorem MailboxState.Orderly.record (h : s.Orderly) (hstory : s.story receipt.key = some story)
    (hrecipient : receipt.recipient = receipt.key.recipient) :
    (s.record receipt fact).Orderly := by
  intro other hnone
  obtain ⟨row, hrow, -⟩ := story_eq_some.1 hstory
  have hne : other ≠ receipt.key := by
    rintro rfl
    rw [get_record, if_pos rfl, hrow] at hnone
    cases hnone
  rw [get_record, if_neg hne] at hnone
  obtain ⟨hhistory, hnotified⟩ := h other hnone
  rw [history_record, if_neg hne, notified_record hrecipient]
  exact ⟨hhistory, not_or.2 ⟨hnotified, fun hand => hne hand.1⟩⟩

end

/-! ## Writes beside the stories -/

/-- A write that leaves messages, events, notifications and retired endpoints is no move. -/
theorem Made.aside {B : Post → Move → Prop} {s' : MailboxState} (h : s.Good)
    (hmessages : s'.messages = s.messages) (hevents : s'.events = s.events)
    (hnotifications : s'.notifications.keys = s.notifications.keys)
    (hretired : s'.post.retired = s.post.retired) : Made B s s' := by
  have hnotified : ∀ key, s'.Notified key = s.Notified key := fun key => by
    show (_ ∈ s'.notifications.keys) = (_ ∈ s.notifications.keys)
    rw [hnotifications]
  have hhistory : ∀ key, s'.history key = s.history key := fun key => by
    unfold MailboxState.history
    rw [hevents]
  have hpost : s'.post = s.post := by
    refine Post.ext (funext fun key => ?_) hretired
    show s'.story key = s.story key
    unfold MailboxState.story
    rw [hmessages, hhistory, hnotified]
  refine ⟨hpost ▸ .refl _, hpost ▸ h.sound, fun key hnone => ?_⟩
  rw [hmessages] at hnone
  rw [hhistory, hnotified]
  exact h.orderly key hnone

theorem foldl_keeps {α β : Type} {f : α → β → α} {P : α → Prop} (l : List β)
    (hstep : ∀ a b, P a → P (f a b)) {a : α} (ha : P a) : P (l.foldl f a) := by
  induction l generalizing a with
  | nil => exact ha
  | cons b l ih => exact ih (hstep a b ha)

/-- Settling subscriptions writes nothing else. -/
theorem settleSubscriptions_eq (now : ℕ) (s : MailboxState) :
    ∃ subscriptions, settleSubscriptions now s = { s with subscriptions := subscriptions } := by
  have hstep : ∀ (t : MailboxState) (current : PeerSubscription),
      (∃ subscriptions, t = { s with subscriptions := subscriptions }) →
        ∃ subscriptions, putSubscription t (settledSubscription t now current)
          = { s with subscriptions := subscriptions } := by
    rintro t current ⟨subscriptions, rfl⟩
    exact ⟨_, rfl⟩
  exact foldl_keeps _ hstep ⟨s.subscriptions, rfl⟩

theorem Made.settleSubscriptions {B : Post → Move → Prop} (h : s.Good)
    (now : ℕ) : Made B s (settleSubscriptions now s) := by
  obtain ⟨subscriptions, heq⟩ := settleSubscriptions_eq now s
  rw [heq]
  exact .aside h rfl rfl rfl rfl

/-! ## Changing a receipt -/

section
variable {B : Post → Move → Prop} {E : MailboxThrow → Prop} {s : MailboxState} {key : MessageKey}
  {story : Story}

theorem Change.tell_of_ne {change : Change} (h : change ≠ .cleaned) (story : Story) :
    change.tell story = story.after (change.apply story.receipt) change.fact := by
  cases change with
  | cleaned => exact absurd rfl h
  | _ => rfl

/-- The record of a change is its move. -/
theorem Made.record (h : s.Good) (hstory : s.story key = some story) {change : Change}
    (hfits : change.Fits story.receipt) (hroom : story.receipt.revision < change.room)
    (hne : change ≠ .cleaned) (hB : B s.post (.change key change)) :
    Made B s (s.record (change.apply story.receipt) change.fact) := by
  have hsound := h.story hstory
  have hkey : (change.apply story.receipt).key = key := hsound.keyed
  have hrecipient : (change.apply story.receipt).recipient
      = (change.apply story.receipt).key.recipient := by
    rw [hkey]
    exact hsound.recipient
  have hstory' : s.story (change.apply story.receipt).key = some story := hkey ▸ hstory
  have hlegal : s.post.Legal (.change key change) := ⟨story, hstory, hroom, hfits⟩
  refine .one h hlegal hB ?_ (h.orderly.record hstory' hrecipient)
  rw [MailboxState.post_record hstory' hrecipient, hkey]
  rw [Post.after_change (show s.post.stories key = some story from hstory)]
  exact congrArg (s.post.put key) (change.tell_of_ne hne story).symm

theorem MailboxState.story_record {receipt : MailboxReceipt} (fact : Fact) (hstory : s.story receipt.key = some story)
    (hrecipient : receipt.recipient = receipt.key.recipient) :
    (s.record receipt fact).story receipt.key = some (story.after receipt fact) := by
  have hpost := congrArg (fun p : Post => p.stories receipt.key)
    (@MailboxState.post_record _ _ fact _ hstory hrecipient)
  exact hpost.trans (Post.put_self ..)

theorem ends_change {Q : Except PeerFailure MailboxReceipt → MailboxState → Prop} (h : s.Good)
    (hstory : s.story key = some story) (change : Change) (hfits : change.Fits story.receipt)
    (hceiling : (change.patch story.receipt).ceiling = change.room) (hne : change ≠ .cleaned)
    (hB : story.receipt.revision < change.room → B s.post (.change key change))
    (hfull : change.room ≤ story.receipt.revision → Q (.error (failure .full)) s)
    (hok : story.receipt.revision < change.room →
      Made B s (s.record (change.apply story.receipt) change.fact) →
      Q (.ok (change.apply story.receipt)) (s.record (change.apply story.receipt) change.fact)) :
    Ends E Q (Mailbox.change story.receipt (change.patch story.receipt) change.fact) s := by
  have hsound := h.story hstory
  refine ends_check_bind (fun _ he => ?_) fun _ hu => ?_
  · by_cases hroom : (change.patch story.receipt).ceiling ≤ story.receipt.revision
    · rw [refuseIf, if_pos hroom] at he
      cases he
      exact hfull (hceiling ▸ hroom)
    · rw [refuseIf, if_neg hroom] at he
      cases he
  · have hroom : story.receipt.revision < change.room := by
      rw [← hceiling]
      exact Nat.lt_of_not_le (refuseIf_ok.1 hu)
    have hbounded := (Change.revises hfits hroom hsound.coherent hsound.bounded).bounded
    have hkey : (change.apply story.receipt).key = key := hsound.keyed
    exact ends_save (hkey.symm ▸ hsound) (hkey ▸ hstory) rfl (Nat.le_of_add_right_le hbounded)
      (hok hroom (.record h hstory hfits hroom hne (hB hroom)))

theorem harmless_conflicted {p : Post} : Harmless p (.change key .conflicted) :=
  trivial

theorem harmless_expired {p : Post} : Harmless p (.change key .expired) := trivial

/-- A conflict is recorded while there is room for it, and then refused. -/
theorem ends_conflict {α : Type} {Q : Except PeerFailure α → MailboxState → Prop} (h : s.Good)
    (hB : ∀ p m, Harmless p m → B p m) (hstory : s.story key = some story)
    (hQ : ∀ s', Made B s s' → Q (.error (failure .conflict)) s') :
    Ends E Q (conflict story.receipt) s := by
  unfold conflict
  by_cases hroom : story.receipt.revision < MailboxLimits.revisions - 6
  · rw [if_pos hroom]
    refine ends_attempt_bind.2 ?_
    refine ends_change (B := B) h hstory .conflicted trivial rfl (nomatch ·)
      (fun _ => hB _ _ harmless_conflicted) (fun hfull => absurd hroom (Nat.not_lt.2 hfull)) fun _ hmade => ?_
    exact ends_refuse.2 (hQ _ hmade)
  · rw [if_neg hroom]
    exact ends_refuse.2 (hQ s (.refl h))

/-- The receipt is up to date: it is not to expire any more. -/
def MailboxReceipt.UpToDate (receipt : MailboxReceipt) (now : ℕ) : Prop :=
  now < receipt.expiresAt ∨ receipt.delivery = .expired

theorem ends_expire {Q : Except PeerFailure MailboxRecord → MailboxState → Prop} (h : s.Good)
    (hB : ∀ p m, Harmless p m → B p m) (hstory : s.story key = some story) {record : MailboxRecord}
    (hreceipt : record.receipt = story.receipt) (now : ℕ)
    (hcurrent : story.receipt.UpToDate now → Q (.ok record) s)
    (hexpired : ¬ now < story.receipt.expiresAt → story.receipt.delivery ≠ .expired →
      Made B s (s.record (Change.apply .expired story.receipt) .transition) →
      Q (.ok { record with receipt := Change.apply .expired story.receipt })
        (s.record (Change.apply .expired story.receipt) .transition)) :
    Ends E Q (expire record now) s := by
  have hsound := h.story hstory
  unfold expire
  rw [hreceipt]
  by_cases hcurrent' : now < story.receipt.expiresAt ∨ story.receipt.tombstoned
      ∨ story.receipt.delivery = .expired
  · rw [if_pos hcurrent']
    refine ends_pure.2 (hcurrent ?_)
    rcases hcurrent' with hnow | htomb | hgone
    · exact .inl hnow
    · exact .inr (hsound.coherent.buried htomb)
    · exact .inr hgone
  · rw [if_neg hcurrent']
    obtain ⟨hnow, hrest⟩ := not_or.1 hcurrent'
    obtain ⟨htomb, hdelivery⟩ := not_or.1 hrest
    have hfits : Change.Fits story.receipt .expired := ⟨Bool.eq_false_of_not_eq_true htomb, hdelivery⟩
    have hroom : story.receipt.revision < Change.room .expired :=
      Nat.lt_succ_of_le ((Nat.le_add_right _ _).trans hsound.bounded)
    have hbounded := (Change.revises hfits hroom hsound.coherent hsound.bounded).bounded
    refine Ends.bind (Q := fun r s' => r = .ok (Change.apply .expired story.receipt)
      ∧ s' = s.record (Change.apply .expired story.receipt) .transition) ?_ ?_ ?_
    · have hkey : (Change.apply .expired story.receipt).key = key := hsound.keyed
      exact ends_save (hkey.symm ▸ hsound) (hkey ▸ hstory) rfl
        (Nat.le_of_add_right_le hbounded) ⟨rfl, rfl⟩
    · exact fun _ s' he => nomatch he.1
    · rintro receipt s' ⟨hr, rfl⟩
      cases hr
      exact ends_pure.2 (hexpired hnow hdelivery
        (.record h hstory hfits hroom (nomatch ·) (hB _ _ harmless_expired)))

/-- What `access` answers. -/
structure Accessed (B : Post → Move → Prop) (s s' : MailboxState) (key : MessageKey) (now : ℕ)
    (record : MailboxRecord) (story : Story) : Prop where
  made : Made B s s'
  told : s'.story key = some story
  receipt : record.receipt = story.receipt
  message : record.message = story.payload
  current : story.receipt.UpToDate now
  /-- Only an expiry was written. -/
  same : story.receipt.delivery = .expired ∨ s' = s

theorem load_ok {record : MailboxRecord}
    (h : load key s = .ok record) : ∃ story, s.story key = some story
      ∧ record.receipt = story.receipt ∧ record.message = story.payload := by
  unfold load at h
  rcases hrow : s.messages.get key with _ | row
  · rw [hrow] at h
    cases h
  · rw [hrow] at h
    cases h
    exact ⟨_, MailboxState.story_eq_some.2 ⟨row, hrow, rfl⟩, rfl, rfl⟩

theorem ends_access {Q : Except PeerFailure MailboxRecord → MailboxState → Prop} (h : s.Good)
    (hB : ∀ p m, Harmless p m → B p m) {lease : PeerLease} {now : ℕ} {subject : PeerIdentity}
    (herror : ∀ e, Q (.error e) s)
    (hok : ∀ {s' record story current}, reader lease subject now s = .ok current →
      Accessed B s s' key now record story → Q (.ok record) s') :
    Ends E Q (access lease key now subject) s := by
  refine ends_query_bind (fun e _ => herror e) fun current hcurrent => ?_
  refine ends_query_bind (fun e _ => herror e) fun record hrecord => ?_
  obtain ⟨story, hstory, hreceipt, hmessage⟩ := load_ok hrecord
  refine ends_check_bind (fun e _ => herror e) fun _ _ => ?_
  refine ends_expire h hB hstory hreceipt now (fun huptodate => ?_) fun _ _ hmade => ?_
  · exact hok hcurrent ⟨.refl h, hstory, hreceipt, hmessage, huptodate, .inr rfl⟩
  · have hsound := h.story hstory
    have hkey : (Change.apply .expired story.receipt).key = key := hsound.keyed
    have hafter : (s.record (Change.apply .expired story.receipt) .transition).story
        (Change.apply .expired story.receipt).key = some _ :=
      MailboxState.story_record _ (hkey.symm ▸ hstory) (by rw [hkey]; exact hsound.recipient)
    rw [hkey] at hafter
    exact hok hcurrent ⟨hmade, hafter, rfl, hmessage, .inr rfl, .inl rfl⟩

end

end Falryn.Orchestration.Mailbox
