import Falryn.Orchestration.MailboxRevisions

/-!
# Authority that is withdrawn

A policy that holds or refuses and a revoked route change the receipts of a lane one after the other, and
all of it is rolled back where one receipt has no revision left for the change.  Whether it goes through
is decided by the receipts at the start: every receipt that is to change needs room.  An altered
message that is proposed again uses a revision of its receipt, up to the tenth, and a hold or a
revocation asks for one below the tenth, so the sender can use up what the recipient needs.
-/

namespace Falryn.Orchestration.Mailbox

open StateMachine Transaction

/-! ## What a withdrawal does to one receipt -/

/-- The change that withdraws authority over a receipt. -/
inductive Withdrawal where
  | hold
  | refuse
  | revoke

namespace Withdrawal

/-- The change of the receipt. -/
def change : Withdrawal → Change
  | hold => .held
  | refuse => .refused
  | revoke => .revoked

/-- What is thrown where there is no room for the change. -/
def thrown : Withdrawal → MailboxThrow
  | hold => .policyRevisionCapacity
  | refuse => .policyRevisionCapacity
  | revoke => .routeRevisionCapacity

/-- Nothing is left to withdraw. -/
def Over (receipt : MailboxReceipt) : Withdrawal → Prop
  | hold => receipt.tombstoned = true ∨ receipt.handling.Closed ∨ receipt.policy = .held
  | refuse => receipt.tombstoned = true ∨ receipt.handling.Closed ∨ receipt.policy = .refused
  | revoke => receipt.tombstoned = true ∨ receipt.policy = .revoked ∨ ¬ receipt.delivery.Pending

/-- There is room for the change, or no need for it. -/
def HasRoom (w : Withdrawal) (receipt : MailboxReceipt) : Prop :=
  w.Over receipt ∨ receipt.revision < w.change.room

variable {w : Withdrawal} {receipt : MailboxReceipt}

theorem fits (h : ¬ w.Over receipt) : w.change.Fits receipt := by
  cases w with
  | hold | refuse =>
    obtain ⟨htomb, hrest⟩ := not_or.1 h
    exact ⟨Bool.eq_false_of_not_eq_true htomb, (not_or.1 hrest).1⟩
  | revoke =>
    obtain ⟨htomb, hrest⟩ := not_or.1 h
    exact ⟨Bool.eq_false_of_not_eq_true htomb, not_not.1 (not_or.1 hrest).2⟩

theorem ceiling_eq (w : Withdrawal) (receipt : MailboxReceipt) :
    (w.change.patch receipt).ceiling = w.change.room := by
  cases w <;> rfl

theorem fact_eq (w : Withdrawal) : w.change.fact = .transition := by
  cases w <;> rfl

theorem change_ne_cleaned (w : Withdrawal) : w.change ≠ .cleaned := by
  cases w <;> exact (nomatch ·)

/-- Once is enough. -/
theorem over_apply (w : Withdrawal) (receipt : MailboxReceipt) : w.Over (w.change.apply receipt) := by
  cases w with
  | hold | refuse => exact .inr (.inr rfl)
  | revoke => exact .inr (.inl rfl)

end Withdrawal

/-- What a loop body that withdraws does, by the receipt it finds: nothing, the change, or it throws. -/
def Withdrawing (w : Withdrawal) (body : MessageKey → Tx Unit) : Prop :=
  ∀ {t : MailboxState} {key : MessageKey} {story : Story} {E : MailboxThrow → Prop}
    {Q : Except PeerFailure Unit → MailboxState → Prop}, t.Good → t.story key = some story →
      (w.Over story.receipt → Q (.ok ()) t) →
      (¬ w.Over story.receipt → story.receipt.revision < w.change.room →
        Q (.ok ()) (t.record (w.change.apply story.receipt) .transition)) →
      (¬ w.Over story.receipt → w.change.room ≤ story.receipt.revision → E w.thrown) →
      Ends E Q (body key) t

/-- The common end of both loop bodies. -/
theorem ends_withdraw {w : Withdrawal} {t : MailboxState} {key : MessageKey} {story : Story}
    {E : MailboxThrow → Prop} {Q : Except PeerFailure Unit → MailboxState → Prop} (h : t.Good)
    (hstory : t.story key = some story) (hover : ¬ w.Over story.receipt)
    (hroom : story.receipt.revision < w.change.room →
      Q (.ok ()) (t.record (w.change.apply story.receipt) .transition))
    (hfull : w.change.room ≤ story.receipt.revision → E w.thrown) :
    Ends E Q (do
      let changed ← attempt
        (Mailbox.change story.receipt (w.change.patch story.receipt) .transition)
      match changed with
      | .error _ => abort w.thrown
      | .ok _ => pure () : Tx Unit) t := by
  rw [← w.fact_eq] at hroom ⊢
  refine ends_attempt_bind.2 (ends_change (B := fun _ _ => True) h hstory w.change
    (Withdrawal.fits hover) (w.ceiling_eq _) w.change_ne_cleaned (fun _ => trivial) ?_ ?_)
  · exact fun hlow => ends_abort.2 (hfull hlow)
  · exact fun hlow _ => ends_pure.2 (hroom hlow)

/-- The withdrawal that a policy is. -/
def PolicyMode.withdrawal : PolicyMode → Withdrawal
  | .hold => .hold
  | _ => .refuse

theorem policyMessage_withdraws {mode : PolicyMode} (hmode : mode ≠ .allow) :
    Withdrawing mode.withdrawal (policyMessage mode) := by
  intro t key story E Q h hstory hover hroom hfull
  unfold policyMessage
  refine ends_attempt_bind.2 (ends_query.2 ?_)
  rw [load_of_story hstory]
  dsimp only
  by_cases hclosed : story.receipt.tombstoned = true ∨ story.receipt.handling.Closed
  · rw [if_pos hclosed]
    refine ends_pure.2 (hover ?_)
    rcases hclosed with htomb | hclosed
    · cases mode <;> exact .inl htomb
    · cases mode <;> exact .inr (.inl hclosed)
  rw [if_neg hclosed]
  obtain ⟨htomb, hopen⟩ := not_or.1 hclosed
  by_cases hsame : story.receipt.policy = if mode = .hold then .held else .refused
  · rw [if_pos hsame]
    refine ends_pure.2 (hover ?_)
    cases mode with
    | hold | refuse => exact .inr (.inr hsame)
    | allow => exact absurd rfl hmode
  rw [if_neg hsame]
  cases mode with
  | hold =>
    have hnot : ¬ Withdrawal.hold.Over story.receipt := not_or.2 ⟨htomb, not_or.2 ⟨hopen, hsame⟩⟩
    exact @ends_withdraw .hold _ _ _ _ _ h hstory hnot (hroom hnot) (hfull hnot)
  | refuse =>
    have hnot : ¬ Withdrawal.refuse.Over story.receipt := not_or.2 ⟨htomb, not_or.2 ⟨hopen, hsame⟩⟩
    exact @ends_withdraw .refuse _ _ _ _ _ h hstory hnot (hroom hnot) (hfull hnot)
  | allow => exact absurd rfl hmode

theorem revokeMessage_withdraws : Withdrawing .revoke revokeMessage := by
  intro t key story E Q h hstory hover hroom hfull
  unfold revokeMessage
  refine ends_attempt_bind.2 (ends_query.2 ?_)
  rw [load_of_story hstory]
  dsimp only
  by_cases hdone : story.receipt.tombstoned = true ∨ story.receipt.policy = .revoked
      ∨ ¬ story.receipt.delivery.Pending
  · rw [if_pos hdone]
    exact ends_pure.2 (hover hdone)
  · rw [if_neg hdone]
    exact @ends_withdraw .revoke _ _ _ _ _ h hstory hdone (hroom hdone) (hfull hdone)

/-! ## The loop over a lane -/

section
variable {w : Withdrawal} {body : MessageKey → Tx Unit} {s : MailboxState} {keys : List MessageKey}
  {t : MailboxState}

/-- The tables of policies and grants of both states are the same. -/
structure SameAuthority (s t : MailboxState) : Prop where
  policies : t.policies = s.policies
  grants : t.grants = s.grants

theorem SameAuthority.record (s : MailboxState) (receipt : MailboxReceipt) (fact : Fact) :
    SameAuthority s (s.record receipt fact) := by
  refine ⟨MailboxState.record_policies, ?_⟩
  unfold MailboxState.record MailboxState.updateMessage
  rcases s.messages.get receipt.key <;> rfl

theorem SameAuthority.trans {u : MailboxState} (h : SameAuthority s t) (h' : SameAuthority t u) :
    SameAuthority s u := ⟨h'.policies.trans h.policies, h'.grants.trans h.grants⟩

variable {key : MessageKey} {story : Story}

/-- A receipt of the lane finds room in the loop if it has room at the start. -/
theorem get_record_of_ne {receipt : MailboxReceipt} {fact : Fact}
    (h : key ≠ receipt.key) : (s.record receipt fact).messages.get key = s.messages.get key := by
  rw [MailboxState.get_record, if_neg h]

theorem apply_key {P : Prop} (hsound : story.Sound P key)
    (w : Withdrawal) : (w.change.apply story.receipt).key = key := hsound.keyed

theorem good_record (h : t.Good)
    (hstory : t.story key = some story) (hover : ¬ w.Over story.receipt)
    (hroom : story.receipt.revision < w.change.room) :
    (t.record (w.change.apply story.receipt) .transition).Good := by
  have hmade := Made.record (B := fun _ _ => True) h hstory (Withdrawal.fits hover) hroom
    w.change_ne_cleaned trivial
  rw [w.fact_eq] at hmade
  exact hmade.good

/-- **With room for every receipt the loop goes through.** -/
theorem ends_withdrawals (hbody : Withdrawing w body) (h : s.Good) (hnodup : keys.Nodup)
    (hkeys : ∀ key ∈ keys, ∃ row, s.messages.get key = some row ∧ w.HasRoom row.receipt) :
    Ends (fun _ => False) (fun r t => r = .ok () ∧ t.Good ∧ SameAuthority s t
      ∧ (∀ key, key ∉ keys → t.messages.get key = s.messages.get key)
      ∧ ∀ key ∈ keys, ∀ row, t.messages.get key = some row → w.Over row.receipt)
      (keys.forM body) s := by
  refine ends_forM (I := fun rest t => t.Good ∧ SameAuthority s t
    ∧ (∀ key, key ∉ keys ∨ key ∈ rest → t.messages.get key = s.messages.get key)
    ∧ ∀ key ∈ keys, key ∉ rest → ∀ row, t.messages.get key = some row → w.Over row.receipt)
    ⟨h, ⟨rfl, rfl⟩, fun _ _ => rfl, fun key hkey hnot => absurd hkey hnot⟩
    (fun key rest t hsuffix hI => ?_) fun t hI => ⟨rfl, hI.1, hI.2.1,
      fun key hkey => hI.2.2.1 key (.inl hkey), fun key hkey => hI.2.2.2 key hkey List.not_mem_nil⟩
  obtain ⟨hgood, hsame, hrest, hover⟩ := hI
  have hmem : key ∈ keys := hsuffix.subset List.mem_cons_self
  have hnotin : key ∉ rest := (List.nodup_cons.1 (hnodup.sublist hsuffix.sublist)).1
  obtain ⟨row, hrow, hroom⟩ := hkeys key hmem
  have hrow' : t.messages.get key = some row := (hrest key (.inr List.mem_cons_self)).trans hrow
  have hstory : t.story key = some _ := MailboxState.story_eq_some.2 ⟨row, hrow', rfl⟩
  refine hbody hgood hstory (fun hdone => ?_) (fun hnot hlow => ?_) fun hnot hhigh => ?_
  · refine ⟨hgood, hsame, fun other hother => hrest other (hother.imp_right (List.mem_cons_of_mem _)),
      fun other hother hout row' hrow'' => ?_⟩
    by_cases heq : other = key
    · subst heq
      rw [hrow'] at hrow''
      cases hrow''
      exact hdone
    · exact hover other hother (fun hin => (List.mem_cons.1 hin).elim heq hout) row' hrow''
  · have hkey : (w.change.apply row.receipt).key = key := apply_key (hgood.story hstory) w
    refine ⟨good_record hgood hstory hnot hlow, hsame.trans (.record ..), fun other hother => ?_,
      fun other hother hout row' hrow'' => ?_⟩
    · have hne : other ≠ (w.change.apply row.receipt).key := by
        rw [hkey]
        rintro rfl
        exact hother.elim (fun hout => hout hmem) hnotin
      exact (get_record_of_ne hne).trans
        (hrest other (hother.imp_right (List.mem_cons_of_mem _)))
    · by_cases heq : other = key
      · subst heq
        rw [MailboxState.get_record, hkey, if_pos rfl, hrow'] at hrow''
        cases hrow''
        exact w.over_apply _
      · rw [get_record_of_ne (hkey.symm ▸ heq)] at hrow''
        exact hover other hother (fun hin => (List.mem_cons.1 hin).elim heq hout) row' hrow''
  · exact hroom.elim hnot fun hlow => absurd hlow (Nat.not_lt.2 hhigh)

/-- **A receipt without room stops the loop.** -/
theorem withdrawals_throw (hbody : Withdrawing w body) (h : s.Good) (hnodup : keys.Nodup)
    (hkeys : ∀ key ∈ keys, ∃ row, s.messages.get key = some row) {row : MessageRow}
    (hkey : key ∈ keys) (hrow : s.messages.get key = some row) (hfull : ¬ w.HasRoom row.receipt) :
    Ends (fun thrown => thrown = w.thrown) (fun _ _ => False) (keys.forM body) s := by
  refine ends_forM (I := fun rest t => t.Good ∧ key ∈ rest
    ∧ ∀ other ∈ rest, t.messages.get other = s.messages.get other)
    ⟨h, hkey, fun _ _ => rfl⟩ (fun other rest t hsuffix hI => ?_) fun t hI => nomatch hI.2.1
  obtain ⟨hgood, hin, hrest⟩ := hI
  have hnotin : other ∉ rest := (List.nodup_cons.1 (hnodup.sublist hsuffix.sublist)).1
  obtain ⟨found, hfound⟩ := hkeys other (hsuffix.subset List.mem_cons_self)
  have hfound' : t.messages.get other = some found :=
    (hrest other List.mem_cons_self).trans hfound
  have hstory : t.story other = some _ := MailboxState.story_eq_some.2 ⟨found, hfound', rfl⟩
  have hnot (hroom : w.HasRoom found.receipt) : key ∈ rest := by
    refine (List.mem_cons.1 hin).resolve_left ?_
    rintro rfl
    rw [hrow] at hfound
    cases hfound
    exact hfull hroom
  refine hbody hgood hstory (fun hdone => ?_) (fun hopen hlow => ?_) fun _ _ => rfl
  · exact ⟨hgood, hnot (.inl hdone), fun next hnext => hrest next (List.mem_cons_of_mem _ hnext)⟩
  · refine ⟨good_record hgood hstory hopen hlow, hnot (.inr hlow), fun next hnext => ?_⟩
    have hne : next ≠ (w.change.apply found.receipt).key := by
      rw [apply_key (hgood.story hstory) w]
      rintro rfl
      exact hnotin hnext
    exact (get_record_of_ne hne).trans (hrest next (List.mem_cons_of_mem _ hnext))

end

/-! ## Policies and routes -/

/-- A withdrawal that passes every check: a policy that does not allow, for a sender that is known, or
the revocation of a grant with its current revision. -/
def Withdraws (s : MailboxState) : Operation → Prop
  | .policy lease sender policy now =>
    policy.mode ≠ .allow ∧ 1 ≤ policy.perMinute
      ∧ policy.perMinute ≤ MailboxLimits.sendsPerMinute
      ∧ ∃ recipient remote, owner lease now false s = .ok recipient
        ∧ endpoint sender s = .ok remote
        ∧ (recipient.scope = remote.endpoint.scope
          ∨ s.grants.get ⟨sender, lease.identity⟩ ≠ none)
  | .revokeRoute lease peer direction expectedRevision now =>
    (∃ current, owner lease now true s = .ok current)
      ∧ ∃ grant, selectGrant lease peer direction s = .ok grant
        ∧ grant.revision = expectedRevision
  | _ => False

/-- Every receipt that the withdrawal is to change has room for it. -/
def HasRoomFor (s : MailboxState) : Operation → Prop
  | .policy lease sender policy _ =>
    ∀ key row, s.messages.get key = some row → key.sender = sender →
      key.recipient = lease.identity → policy.mode.withdrawal.HasRoom row.receipt
  | .revokeRoute lease peer direction _ _ =>
    ∀ grant, selectGrant lease peer direction s = .ok grant → grant.state ≠ .revoked →
      ∀ key row, s.messages.get key = some row → key.sender = grant.sender →
        key.recipient = grant.recipient → row.accepted = false →
          Withdrawal.revoke.HasRoom row.receipt
  | _ => True

/-- What was withdrawn is withdrawn: the policy or the grant is written, and no receipt of the lane
says otherwise. -/
def InForce (s t : MailboxState) : Operation → Prop
  | .policy lease sender policy _ =>
    t.policies.get ⟨sender, lease.identity⟩ = some policy
      ∧ ∀ key row, t.messages.get key = some row → key.sender = sender →
        key.recipient = lease.identity → policy.mode.withdrawal.Over row.receipt
  | .revokeRoute lease peer direction _ now =>
    ∀ grant, selectGrant lease peer direction s = .ok grant →
      if grant.state = .revoked then t = s
      else t.grants.get grant.id = some (grant.revoke now)
        ∧ ∀ key ∈ unadmittedOf grant s, ∀ row, t.messages.get key = some row →
          Withdrawal.revoke.Over row.receipt
  | _ => True

section
variable {s : MailboxState} {E : MailboxThrow → Prop} {sender : PeerIdentity} {key : MessageKey}
  {grant : PeerRouteGrant} {lease : PeerLease} {now : ℕ} {ports : MailboxPorts}
  {operation : Operation}

theorem get_of_mem_keys {keys : List MessageKey} (h : ∀ key ∈ keys, key ∈ s.messages.keys) :
    ∀ key ∈ keys, ∃ row, s.messages.get key = some row := fun key hkey =>
  OrderedMap.mem_keys.1 (h key hkey)

theorem nodup_laneOf (sender recipient : PeerIdentity) (s : MailboxState) :
    (laneOf sender recipient s).Nodup := s.messages.nodup_keys.filter _

theorem mem_laneOf {recipient : PeerIdentity} :
    key ∈ laneOf sender recipient s ↔ key ∈ s.messages.keys ∧ key.sender = sender
      ∧ key.recipient = recipient := by
  unfold laneOf
  rw [List.mem_filter, decide_eq_true_iff]

theorem mem_unadmittedOf :
    key ∈ unadmittedOf grant s ↔ (key ∈ s.messages.keys ∧ key.sender = grant.sender
      ∧ key.recipient = grant.recipient)
        ∧ (s.messages.get key).map MessageRow.accepted = some false := by
  unfold unadmittedOf
  rw [List.mem_filter, decide_eq_true_iff, mem_laneOf]

/-- A policy that passes its checks is its loop. -/
theorem ends_setPolicy {policy : PeerPolicy} {Q : Except PeerFailure Unit → MailboxState → Prop}
    (h : Withdraws s (.policy lease sender policy now))
    (hloop : Ends E (fun r t => Q r (if r.isOk then settleSubscriptions now t else t))
      ((laneOf sender lease.identity s).forM (policyMessage policy.mode))
      { s with policies := s.policies.set ⟨sender, lease.identity⟩ policy }) :
    Ends E Q (setPolicy lease sender policy now) s := by
  obtain ⟨hmode, hlow, hhigh, recipient, remote, howner, hremote, hscope⟩ := h
  refine ends_check_bind (fun e he => ?_) fun _ _ => ?_
  · rw [refuseIf, if_neg (not_or.2 ⟨Nat.not_lt.2 hlow, Nat.not_lt.2 hhigh⟩)] at he
    cases he
  refine ends_query_bind (fun e he => by cases he.symm.trans howner) fun found hfound => ?_
  cases hfound.symm.trans howner
  refine ends_query_bind (fun e he => by cases he.symm.trans hremote) fun found hfound => ?_
  cases hfound.symm.trans hremote
  refine ends_query_bind (fun e he => ?_) fun _ _ => ?_
  · rw [refuseIf, if_neg fun hand => hscope.elim hand.1 fun hgrant => hgrant hand.2] at he
    cases he
  refine ends_write_bind.2 ?_
  rw [if_pos hmode]
  refine ends_query_bind (by simp) fun _ hkeys => ?_
  cases hkeys
  refine ends_bind.2 (hloop.weaken fun r t hr => ?_)
  rcases r with e | _
  · exact hr
  · exact ends_write.2 hr

/-- A revocation that passes its checks is its loop. -/
theorem ends_revokeRoute {peer : PeerIdentity}
    {direction : Option RouteDirection} {expectedRevision : ℕ}
    {Q : MailboxState → Prop}
    (h : Withdraws s (.revokeRoute lease peer direction expectedRevision now))
    (hgrant : selectGrant lease peer direction s = .ok grant) (hactive : grant.state ≠ .revoked)
    (hloop : Ends E (fun _ t => Q t) ((unadmittedOf grant s).forM revokeMessage)
      { s with grants := s.grants.set (grant.revoke now).id (grant.revoke now) }) :
    Ends E (fun _ t => Q t) (revokeRoute lease peer direction expectedRevision now) s := by
  obtain ⟨⟨current, howner⟩, found, hfound, hrevision⟩ := h
  cases hfound.symm.trans hgrant
  refine ends_query_bind (fun e he => by cases he.symm.trans howner) fun _ _ => ?_
  refine ends_query_bind (fun e he => by cases he.symm.trans hgrant) fun _ hfound' => ?_
  cases hfound'.symm.trans hgrant
  refine ends_check_bind (fun e he => ?_) fun _ _ => ?_
  · rw [refuseIf, if_neg (not_not.2 hrevision)] at he
    cases he
  rw [if_neg hactive]
  refine ends_write_bind.2 (ends_query_bind (by simp) fun _ hkeys => ?_)
  cases hkeys
  refine ends_bind.2 (hloop.weaken fun r t hr => ?_)
  rcases r with e | _
  · exact hr
  · exact ends_query.2 hr

theorem not_throws_of_forget {α : Type} {p : Tx α} {P : MailboxState → Prop}
    (h : Ends E (fun _ t => P t) p s) : Ends E (fun _ t => P t) (do let _ ← p : Tx Unit) s :=
  ends_bind.2 (h.weaken fun r t ht => by
    rcases r with e | a
    · exact ht
    · exact ends_pure.2 ht)

/-- With room the withdrawal is in force. -/
theorem inForce_of_room (hgood : s.Good)
    (h : Withdraws s operation) (hroom : HasRoomFor s operation) :
    Ends (fun _ => False) (fun _ t => InForce s t operation) (perform ports operation) s := by
  cases operation with
  | policy lease sender policy now =>
    have hmade : Made (fun _ _ => True) s
        { s with policies := s.policies.set ⟨sender, lease.identity⟩ policy } :=
      .aside hgood rfl rfl rfl rfl
    refine ends_setPolicy h ((ends_withdrawals (policyMessage_withdraws h.1) hmade.good
      (nodup_laneOf ..) fun key hkey => ?_).weaken fun r t hr => ?_)
    · obtain ⟨hin, hsender, hrecipient⟩ := mem_laneOf.1 hkey
      obtain ⟨row, hrow⟩ := OrderedMap.mem_keys.1 hin
      exact ⟨row, hrow, hroom key row hrow hsender hrecipient⟩
    · obtain ⟨rfl, -, hsame, hother, hover⟩ := hr
      obtain ⟨subscriptions, heq⟩ := settleSubscriptions_eq now t
      show InForce s (settleSubscriptions now t) _
      rw [heq]
      refine ⟨?_, fun key row hrow hsender hrecipient => ?_⟩
      · show t.policies.get _ = _
        rw [hsame.policies]
        exact OrderedMap.get_set_self ..
      · by_cases hin : key ∈ s.messages.keys
        · exact hover key (mem_laneOf.2 ⟨hin, hsender, hrecipient⟩) row hrow
        · have hnone : s.messages.get key = none := OrderedMap.get_eq_none.2 hin
          have hkeep := hother key fun hmem => hin (mem_laneOf.1 hmem).1
          exact nomatch hrow.symm.trans (hkeep.trans hnone)
  | revokeRoute lease _ _ _ now =>
    obtain ⟨-, grant, hgrant, hrevision⟩ := id h
    by_cases hrevoked : grant.state = .revoked
    · refine not_throws_of_forget ?_
      obtain ⟨⟨current, howner⟩, -⟩ := h
      refine ends_query_bind (fun e he => nomatch he.symm.trans howner) fun _ _ => ?_
      refine ends_query_bind (fun e he => nomatch he.symm.trans hgrant) fun found hfound => ?_
      cases hfound.symm.trans hgrant
      refine ends_check_bind (fun e he => ?_) fun _ _ => ?_
      · rw [refuseIf, if_neg (not_not.2 hrevision)] at he
        cases he
      rw [if_pos hrevoked]
      refine ends_query.2 fun found hfound => ?_
      cases hfound.symm.trans hgrant
      rw [if_pos hrevoked]
    · have hmade : Made (fun _ _ => True) s
          { s with grants := s.grants.set (grant.revoke now).id (grant.revoke now) } :=
        .aside hgood rfl rfl rfl rfl
      refine not_throws_of_forget (ends_revokeRoute h hgrant hrevoked
        ((ends_withdrawals revokeMessage_withdraws hmade.good ((nodup_laneOf ..).filter _)
          fun key hkey => ?_).weaken fun r t hr => ?_))
      · obtain ⟨⟨hin, hsender, hrecipient⟩, haccepted⟩ := mem_unadmittedOf.1 hkey
        obtain ⟨row, hrow⟩ := OrderedMap.mem_keys.1 hin
        rw [hrow, Option.map_some, Option.some.injEq] at haccepted
        exact ⟨row, hrow, hroom grant hgrant hrevoked key row hrow hsender hrecipient haccepted⟩
      · obtain ⟨-, -, hsame, -, hover⟩ := hr
        intro found hfound
        cases hfound.symm.trans hgrant
        rw [if_neg hrevoked, hsame.grants]
        exact ⟨OrderedMap.get_set_self .., hover⟩
  | _ => exact h.elim

/-- Without room the withdrawal throws. -/
theorem throws_of_no_room (hgood : s.Good)
    (h : Withdraws s operation) (hroom : ¬ HasRoomFor s operation) :
    Ends Capacity (fun _ _ => False) (perform ports operation) s := by
  cases operation with
  | policy lease sender policy now =>
    have hmade : Made (fun _ _ => True) s
        { s with policies := s.policies.set ⟨sender, lease.identity⟩ policy } :=
      .aside hgood rfl rfl rfl rfl
    simp only [HasRoomFor, not_forall] at hroom
    obtain ⟨key, row, hrow, hsender, hrecipient, hfull⟩ := hroom
    refine ends_setPolicy h ((withdrawals_throw (policyMessage_withdraws h.1) hmade.good
      (nodup_laneOf ..) (get_of_mem_keys fun key hkey => (mem_laneOf.1 hkey).1)
      (mem_laneOf.2 ⟨OrderedMap.mem_keys.2 ⟨row, hrow⟩, hsender, hrecipient⟩) hrow hfull).mono ?_
      fun _ _ hfalse => hfalse)
    rintro _ rfl
    cases policy.mode <;> exact .inl rfl
  | revokeRoute lease _ _ _ now =>
    simp only [HasRoomFor, not_forall] at hroom
    obtain ⟨grant, hgrant, hactive, key, row, hrow, hsender, hrecipient, haccepted, hfull⟩ := hroom
    have hmade : Made (fun _ _ => True) s
        { s with grants := s.grants.set (grant.revoke now).id (grant.revoke now) } :=
      .aside hgood rfl rfl rfl rfl
    have hkey : key ∈ unadmittedOf grant s := by
      refine mem_unadmittedOf.2 ⟨⟨OrderedMap.mem_keys.2 ⟨row, hrow⟩, hsender, hrecipient⟩, ?_⟩
      rw [hrow, Option.map_some, haccepted]
    refine not_throws_of_forget (ends_revokeRoute h hgrant hactive
      ((withdrawals_throw revokeMessage_withdraws hmade.good ((nodup_laneOf ..).filter _)
        (get_of_mem_keys fun key hkey => (mem_unadmittedOf.1 hkey).1.1) hkey hrow hfull).mono ?_
        fun _ _ hfalse => hfalse))
    rintro _ rfl
    exact .inr rfl
  | _ => exact h.elim

end

/-- **Withdrawing authority works exactly where there is room for it.**  In every state that can be
reached, a withdrawal that passes its checks goes through and is in force afterwards if and only if
every receipt of the lane that it is to change has a revision left for the change. -/
theorem withdrawal_iff {ports : MailboxPorts} {operations : List Operation} {s : MailboxState}
    (hrun : run (step ports) .empty operations = some s) {operation : Operation}
    (h : Withdraws s operation) :
    ((∀ thrown, exec (perform ports operation) s ≠ .error thrown)
        ∧ InForce s (commit (perform ports operation) s) operation)
      ↔ HasRoomFor s operation := by
  have hgood := run_good good_empty hrun
  refine ⟨fun hforce => ?_, fun hroom => (inForce_of_room hgood h hroom).commits⟩
  by_contra hroom
  obtain ⟨thrown, hthrown⟩ := (throws_of_no_room hgood h hroom).throws (p := perform ports operation)
  exact hforce.1 thrown hthrown

/-- The policy that holds what the one writes to the other. -/
def holding : Operation := .policy (leaseOf bob) alice ⟨.hold, false, 64⟩ 0

theorem withdrawal_iff_holding :
    ∃ s, run (step laxPorts) .empty proposed = some s ∧ Withdraws s holding
      ∧ (((∀ thrown, exec (perform laxPorts holding) s ≠ .error thrown)
          ∧ InForce s (commit (perform laxPorts holding) s) holding) ↔ HasRoomFor s holding) :=
  have h : Withdraws _ holding := by
    refine ⟨nofun, by decide, by decide, _, _, rfl, rfl, ?_⟩
    exact .inl rfl
  ⟨_, rfl, h, @withdrawal_iff laxPorts proposed _ rfl holding h⟩

/-- The message is proposed again nine times, each time with another text. -/
def worn : List Operation :=
  proposed ++ ["1", "2", "3", "4", "5", "6", "7", "8", "9"].map fun text =>
    .propose (leaseOf alice) (aliceToBob text) 0 fun _ => true

theorem worn_holding :
    (run (step laxPorts) .empty worn).map
      (fun s => (exec (perform laxPorts holding) s).map fun _ => ())
      = some (.error .policyRevisionCapacity) := by
  decide +kernel

theorem withdraws_worn : ∀ s, run (step laxPorts) .empty worn = some s → Withdraws s holding := by
  rintro s hrun
  have hpeers : (run (step laxPorts) .empty worn).map (fun s =>
      (owner (leaseOf bob) 0 false s).toOption.bind fun recipient =>
        (endpoint alice s).toOption.map fun remote =>
          decide (recipient.scope = remote.endpoint.scope)) = some (some true) := by
    decide +kernel
  rw [hrun, Option.map_some, Option.some.injEq, Option.bind_eq_some_iff] at hpeers
  obtain ⟨recipient, howner, hpeers⟩ := hpeers
  obtain ⟨remote, hremote, hscope⟩ := Option.map_eq_some_iff.1 hpeers
  exact ⟨nofun, by decide, by decide, recipient, remote, toOption_eq_some.1 howner,
    toOption_eq_some.1 hremote, .inl (of_decide_eq_true hscope)⟩

/-- **A sender keeps its recipient from holding its messages**: not every withdrawal that passes its
checks goes through. -/
theorem not_withdrawal :
    ¬ ∀ (ports : MailboxPorts) (operations : List Operation) (s : MailboxState),
      run (step ports) .empty operations = some s → ∀ operation, Withdraws s operation →
        (∀ thrown, exec (perform ports operation) s ≠ .error thrown)
          ∧ InForce s (commit (perform ports operation) s) operation := by
  intro hall
  obtain ⟨s, hrun, hthrown⟩ := Option.map_eq_some_iff.1 worn_holding
  refine (hall laxPorts worn s hrun holding (withdraws_worn s hrun)).1 .policyRevisionCapacity ?_
  rcases hexec : exec (perform laxPorts holding) s with thrown | r
  · rw [hexec] at hthrown
    exact congrArg Except.error (Except.error.inj hthrown)
  · rw [hexec] at hthrown
    cases hthrown

end Falryn.Orchestration.Mailbox
