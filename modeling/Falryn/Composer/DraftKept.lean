import Falryn.Composer.ComposerFrames

/-!
# What the user typed

Whether the composer keeps what the user typed.  The reducer takes a second submission while one is in
flight, settles a submission by the outcome of another, clears the draft by an accepted outcome whatever
has been typed since, keeps the attachments of a submission it refuses, and walks on from an edited entry
without putting the edit aside.  `keepsDraft_iff` says exactly when a step keeps the draft, and
`neverLoses_of_careful` what that gives for every run.
-/

namespace Falryn.Composer

open StateMachine

variable {isLetterOrNumber : ℕ → Bool}

/-! ## What a step must keep -/

/-- The draft: its text, its tokens and its attachments. -/
def ComposerState.draft (s : ComposerState) : CodeUnits × List ComposerToken × List AttachmentDescriptor :=
  (s.text, s.tokens, s.attachments)

/-- A submission is refused. -/
def Refused (s : ComposerState) (attachments : Option (List AttachmentDescriptor)) : Prop :=
  s.phase = .disabled ∨ NothingToSend s (attachments.getD s.attachments)
    ∨ Blocked s (attachments.getD s.attachments)

instance (s : ComposerState) (attachments : Option (List AttachmentDescriptor)) :
    Decidable (Refused s attachments) := by
  unfold Refused
  infer_instance

/-- A proposal is not for the draft as it is. -/
def ComposerEnhancement.IsStale (held : ComposerEnhancement) (s : ComposerState) : Prop :=
  held.status ≠ .ready ∨ held.draftRevision ≠ s.draftRevision

/-- The actions that leave the draft as it is: an outcome that is not accepted, a cancel, a switch on or
off, a refused submission, and an enhancement that is not applied. -/
def LeavesDraft (s : ComposerState) : ComposerAction → Prop
  | .resolve outcome => outcome.isAccepted = false
  | .cancel | .disable | .enable | .enhance _ | .rejectEnhancement => True
  | .submit _ attachments => Refused s attachments
  | .acceptEnhancement => ∀ held, s.enhancement = some held → held.IsStale s
  | _ => False

/-- What ends a submission: a cancel, or an outcome with its sequence. -/
def Settles (action : ComposerAction) (snapshot : ComposerSnapshot) : Prop :=
  action = .cancel ∨ ∃ outcome, action = .resolve outcome ∧ outcome.snapshot.sequence = snapshot.sequence

/-- **A step keeps the draft**: a submission in flight stays as it is until it is settled, an accepted
outcome clears the draft only if its text is the one submitted, and what should leave the draft does. -/
structure KeepsDraft (isLetterOrNumber : ℕ → Bool) (s : ComposerState) (action : ComposerAction) : Prop where
  inFlight : ∀ snapshot, s.inFlight = some snapshot →
    (composerReducer isLetterOrNumber s action).inFlight = some snapshot ∨ Settles action snapshot
  accepted : ∀ outcome snapshot, action = .resolve outcome → outcome.isAccepted = true →
    s.inFlight = some snapshot → s.text ≠ snapshot.text →
      (composerReducer isLetterOrNumber s action).draft = s.draft
  left : LeavesDraft s action → (composerReducer isLetterOrNumber s action).draft = s.draft

/-- The condition: no submission while one is in flight, no other attachments in one that is blocked, and
outcomes only for the submission in flight, accepted ones before anything else is typed. -/
def CarefulStep (s : ComposerState) : ComposerAction → Prop
  | .submit _ attachments =>
    (s.inFlight ≠ none → Refused s attachments)
      ∧ (s.phase ≠ .disabled → ¬ NothingToSend s (attachments.getD s.attachments) →
        Blocked s (attachments.getD s.attachments) → attachments.getD s.attachments = s.attachments)
  | .resolve outcome =>
    ∀ snapshot, s.inFlight = some snapshot → outcome.snapshot.sequence = snapshot.sequence
      ∧ (outcome.isAccepted = true → s.text = snapshot.text ∨ s.draft = ([], [], []))
  | _ => True

/-! ## One step -/

/-- Submissions are numbered from one on. -/
def Numbered (s : ComposerState) : Prop :=
  ∀ snapshot, s.inFlight = some snapshot → snapshot.sequence ≤ s.submissions

variable {s : ComposerState} {attachments : Option (List AttachmentDescriptor)}

theorem submit_refused (binding : Option String) (h : Refused s attachments) :
    (submit s binding attachments).inFlight = s.inFlight
      ∧ (submit s binding attachments).submissions = s.submissions := by
  rw [submit]
  split_ifs with hphase
  · exact ⟨rfl, rfl⟩
  · rw [submitWith]
    split_ifs with hnothing hblocked
    · exact ⟨rfl, rfl⟩
    · exact ⟨rfl, rfl⟩
    · exact absurd h (by simp only [Refused, hphase, hnothing, hblocked, or_self, not_false_iff])

theorem submit_taken (binding : Option String) (h : ¬ Refused s attachments) :
    (submit s binding attachments).inFlight = some (s.snapshot binding (attachments.getD s.attachments))
      ∧ (submit s binding attachments).submissions = s.submissions + 1 := by
  rw [Refused, not_or, not_or] at h
  rw [submit, if_neg h.1, submitWith, if_neg h.2.1, if_neg h.2.2]
  exact ⟨rfl, rfl⟩

theorem submit_draft (s : ComposerState) (binding : Option String)
    (attachments : Option (List AttachmentDescriptor)) :
    (submit s binding attachments).draft
      = (s.text, s.tokens,
          if s.phase = .disabled ∨ NothingToSend s (attachments.getD s.attachments) then s.attachments
          else attachments.getD s.attachments) := by
  rw [submit]
  by_cases hphase : s.phase = .disabled
  · rw [if_pos hphase, if_pos (.inl hphase)]
    rfl
  · rw [if_neg hphase, submitWith]
    by_cases hnothing : NothingToSend s (attachments.getD s.attachments)
    · rw [if_pos hnothing, if_pos (.inr hnothing)]
      rfl
    · rw [if_neg hnothing, if_neg (not_or.2 ⟨hphase, hnothing⟩)]
      split_ifs <;> rfl

theorem composerReducer_numbered (s : ComposerState) (action : ComposerAction) (h : Numbered s) :
    Numbered (composerReducer isLetterOrNumber s action) := by
  by_cases haction : action.IsSubmission
  · cases action with
    | submit binding attachments =>
      rw [composerReducer]
      intro snapshot hsnapshot
      by_cases hrefused : Refused s attachments
      · obtain ⟨hflight, hcount⟩ := submit_refused binding hrefused
        rw [hcount]
        exact h snapshot (hflight ▸ hsnapshot)
      · obtain ⟨hflight, hcount⟩ := submit_taken binding hrefused
        rw [hflight] at hsnapshot
        cases hsnapshot
        rw [hcount]
        exact le_rfl
    | resolve =>
      rw [composerReducer, resolveOutcome]
      split_ifs with hnone
      · exact h
      · exact fun snapshot hsnapshot => absurd hsnapshot (by simp [acceptOutcome])
      · exact fun snapshot hsnapshot => absurd hsnapshot (by simp)
    | cancel =>
      rw [composerReducer]
      split_ifs
      · exact h
      · exact fun snapshot hsnapshot => absurd hsnapshot (by simp)
    | _ => exact absurd haction id
  · have hsent := composerReducer_sent isLetterOrNumber s haction
    obtain ⟨hflight, hcount⟩ := Prod.mk.inj hsent
    intro snapshot hsnapshot
    rw [hcount]
    exact h snapshot (hflight ▸ hsnapshot)

/-- An enhancement that is not applied leaves the draft. -/
theorem enhance_draft (s : ComposerState) (outcome : EnhancementOutcome) :
    (applyEnhancementOutcome s outcome).draft = s.draft := by
  obtain ⟨_, _, _, h⟩ := applyEnhancementOutcome_eq s outcome
  rw [h]
  rfl

theorem acceptEnhancement_draft (h : ∀ held, s.enhancement = some held → held.IsStale s) :
    (acceptEnhancement s).draft = s.draft := by
  rw [acceptEnhancement]
  rcases hheld : s.enhancement with _ | held
  · rfl
  · have hstale : held.status ≠ .ready ∨ held.draftRevision ≠ s.draftRevision := h held hheld
    dsimp only
    rw [if_pos hstale]
    rfl

variable {outcome : SubmissionOutcome}

theorem resolve_of_none (h : s.inFlight = none) :
    resolveOutcome s outcome = s := by rw [resolveOutcome, if_pos h]

theorem resolve_accepted (h : s.inFlight ≠ none)
    (haccepted : outcome.isAccepted = true) : resolveOutcome s outcome = acceptOutcome s outcome := by
  rw [resolveOutcome, if_neg h, if_pos haccepted]

theorem resolve_refused_draft
    (haccepted : outcome.isAccepted = false) : (resolveOutcome s outcome).draft = s.draft := by
  rw [resolveOutcome]
  split_ifs with hnone hyes
  · rfl
  · exact absurd (haccepted.symm.trans hyes) Bool.false_ne_true
  · rfl

theorem keepsDraft_submit {binding : Option String} (hs : Numbered s) :
    KeepsDraft isLetterOrNumber s (.submit binding attachments) ↔ CarefulStep s (.submit binding attachments) := by
  constructor
  · intro h
    refine ⟨fun hflight => ?_, fun hphase hnothing hblocked => ?_⟩
    · by_contra hrefused
      obtain ⟨snapshot, hsnapshot⟩ := Option.ne_none_iff_exists'.1 hflight
      rcases h.inFlight snapshot hsnapshot with hsame | hcancel | ⟨_, hresolve, _⟩
      · rw [composerReducer, (submit_taken _ hrefused).1] at hsame
        have hle := hs snapshot hsnapshot
        rw [← Option.some.inj hsame] at hle
        exact absurd hle (Nat.not_succ_le_self _)
      · cases hcancel
      · cases hresolve
    · have hdraft := h.left (.inr (.inr hblocked))
      rw [composerReducer, submit_draft, if_neg (not_or.2 ⟨hphase, hnothing⟩)] at hdraft
      exact (Prod.mk.inj (Prod.mk.inj hdraft).2).2
  · rintro ⟨hflight, hblocked⟩
    refine ⟨fun snapshot hsnapshot => .inl ?_, by simp, fun hrefused => ?_⟩
    · rw [composerReducer, (submit_refused _ (hflight (hsnapshot ▸ Option.some_ne_none _))).1, hsnapshot]
    · rw [composerReducer, submit_draft]
      split_ifs with hleft
      · rfl
      · obtain ⟨hphase, hnothing⟩ := not_or.1 hleft
        rw [hblocked hphase hnothing ((hrefused.resolve_left hphase).resolve_left hnothing)]
        rfl

theorem keepsDraft_resolve :
    KeepsDraft isLetterOrNumber s (.resolve outcome) ↔ CarefulStep s (.resolve outcome) := by
  constructor
  · intro h snapshot hsnapshot
    have hne : s.inFlight ≠ none := hsnapshot ▸ Option.some_ne_none _
    refine ⟨?_, fun haccepted => ?_⟩
    · rcases h.inFlight snapshot hsnapshot with hsame | hcancel | ⟨_, hresolve, hsequence⟩
      · rw [composerReducer, resolveOutcome, if_neg hne] at hsame
        split_ifs at hsame
        cases hsame
      · cases hcancel
      · cases hresolve
        exact hsequence
    · by_cases htext : s.text = snapshot.text
      · exact .inl htext
      · have hdraft := h.accepted outcome snapshot rfl haccepted hsnapshot htext
        rw [composerReducer, resolve_accepted hne haccepted] at hdraft
        exact .inr hdraft.symm
  · intro h
    refine ⟨fun snapshot hsnapshot => .inr (.inr ⟨outcome, rfl, (h snapshot hsnapshot).1⟩), ?_, fun haccepted => ?_⟩
    · intro outcome' snapshot hresolve haccepted hsnapshot htext
      cases hresolve
      have hempty := ((h snapshot hsnapshot).2 haccepted).resolve_left htext
      rw [composerReducer, resolve_accepted (hsnapshot ▸ Option.some_ne_none _) haccepted, hempty]
      rfl
    · exact resolve_refused_draft haccepted

/-- **Exactly when a step keeps the draft.** -/
theorem keepsDraft_iff (hs : Numbered s) (action : ComposerAction) :
    KeepsDraft isLetterOrNumber s action ↔ CarefulStep s action := by
  by_cases haction : action.IsSubmission
  · cases action with
    | submit => exact keepsDraft_submit hs
    | resolve outcome => exact keepsDraft_resolve
    | cancel =>
      refine ⟨fun _ => trivial, fun _ => ⟨fun _ _ => .inr (.inl rfl), nofun, fun _ => ?_⟩⟩
      rw [composerReducer]
      split_ifs <;> rfl
    | _ => exact absurd haction id
  · have hsent := composerReducer_sent isLetterOrNumber s haction
    have hcareful : CarefulStep s action := by
      cases action <;> first | exact trivial | exact absurd trivial haction
    refine ⟨fun _ => hcareful, fun _ => ⟨fun snapshot hsnapshot => .inl ?_, ?_, fun hleft => ?_⟩⟩
    · exact (Prod.mk.inj hsent).1.trans hsnapshot
    · rintro outcome snapshot rfl
      exact absurd trivial haction
    · cases action with
      | disable | enable | rejectEnhancement => rfl
      | enhance outcome => exact enhance_draft s outcome
      | acceptEnhancement => exact acceptEnhancement_draft hleft
      | submit | resolve | cancel => exact absurd trivial haction
      | _ => exact absurd hleft id

/-! ## Walks -/

/-- The composer holds what the user wrote, not an entry that a walk put there. -/
def OwnText (s : ComposerState) : Prop :=
  ∀ back, s.history.recalled = some back → s.history.entryBack back ≠ some ⟨s.text, s.tokens⟩

/-- A step of a walk has somewhere to go. -/
def Walks (s : ComposerState) : ComposerAction → Prop
  | .historyPrevious => (recallPrevious s.history ⟨s.text, s.tokens⟩).isSome = true
  | .historyNext => (recallNext s.history).isSome = true
  | _ => False

/-- The condition on walks: one that goes on finds the entry that it recalled as it was. -/
def CarefulWalk (s : ComposerState) (action : ComposerAction) : Prop :=
  Walks s action → s.history.recalled ≠ none → ¬ OwnText s

/-- **A walk** that leaves the draft of a state by an action, goes on over entries that it recalled, and
ends by the next step towards the newest. -/
structure WalkFrom (isLetterOrNumber : ℕ → Bool) (s : ComposerState) (action : ComposerAction)
    (walk : List ComposerAction) : Prop where
  own : OwnText s
  leaves : Walks s action
  browsing : ∀ taken, taken <+: walk → (composed isLetterOrNumber s (action :: taken)).history.recalled ≠ none
  recalled : ∀ taken next, taken ++ [next] <+: walk ++ [.historyNext] →
    Walks (composed isLetterOrNumber s (action :: taken)) next →
      ¬ OwnText (composed isLetterOrNumber s (action :: taken))
  ends : (composed isLetterOrNumber s (action :: walk ++ [.historyNext])).history.recalled = none

/-- **The claim about walks**: the text and tokens that were left are given back. -/
def GivesBack (isLetterOrNumber : ℕ → Bool) (s : ComposerState) (action : ComposerAction) : Prop :=
  ∀ walk, WalkFrom isLetterOrNumber s action walk →
    (composed isLetterOrNumber s (action :: walk ++ [.historyNext])).text = s.text
      ∧ (composed isLetterOrNumber s (action :: walk ++ [.historyNext])).tokens = s.tokens

theorem remember_recalled (history : InputHistory) (text : CodeUnits) (tokens : List ComposerToken) :
    (remember history text tokens).recalled = none := by
  rw [remember]
  split_ifs <;> rfl

variable {entry : HistoryEntry} {history history' : InputHistory}

/-- What a step back leaves in the history. -/
theorem recallPrevious_draft {current : HistoryEntry}
    (h : recallPrevious history current = some (history', entry)) :
    history'.draft = if history.recalled = none then some current else history.draft := by
  rw [recallPrevious] at h
  by_cases hfar : history.recalled.getD 0 + 1 > history.entries.length
  · rw [if_pos hfar] at h
    cases h
  · rw [if_neg hfar] at h
    obtain ⟨_, _, heq⟩ := Option.map_eq_some_iff.1 h
    exact (Prod.mk.inj heq).1 ▸ rfl

/-- A step towards the newest goes on, or ends the walk with what was put aside. -/
theorem recallNext_cases (h : recallNext history = some (history', entry)) :
    (history'.recalled ≠ none ∧ history'.draft = history.draft)
      ∨ (history'.recalled = none ∧ entry = history.draft.getD ⟨[], []⟩) := by
  rw [recallNext] at h
  split at h
  · cases h
  · split_ifs at h
    · cases h
      exact .inr ⟨rfl, rfl⟩
    · obtain ⟨_, _, heq⟩ := Option.map_eq_some_iff.1 h
      cases heq
      exact .inl ⟨Option.some_ne_none _, rfl⟩

variable {action : ComposerAction}

/-- A draft that is put aside stays there until the walk ends. -/
theorem composerReducer_aside (hwalk : s.history.recalled ≠ none)
    (hwalk' : (composerReducer isLetterOrNumber s action).history.recalled ≠ none) :
    (composerReducer isLetterOrNumber s action).history.draft = s.history.draft := by
  by_cases haction : action.IsWalk
  · cases action with
    | historyPrevious =>
      rw [composerReducer, historyPrevious]
      split
      · rfl
      · rename_i history entry heq
        exact (recallPrevious_draft heq).trans (if_neg hwalk)
    | historyNext =>
      rw [composerReducer, historyNext] at hwalk' ⊢
      rcases heq : recallNext s.history with _ | ⟨history, entry⟩
      · rfl
      · rw [heq] at hwalk'
        rcases recallNext_cases heq with ⟨-, hdraft⟩ | ⟨hnone, -⟩
        · exact hdraft
        · exact absurd hnone hwalk'
    | _ => exact absurd haction id
  · by_cases haccepted : ∃ outcome, action = .resolve outcome ∧ outcome.isAccepted = true
    · obtain ⟨outcome, rfl, haccepted⟩ := haccepted
      by_cases hnone : s.inFlight = none
      · rw [composerReducer, resolve_of_none hnone]
      · rw [composerReducer, resolve_accepted hnone haccepted] at hwalk'
        exact absurd (remember_recalled s.history _ _) hwalk'
    · have hrefused : ∀ outcome, action = .resolve outcome → outcome.isAccepted = false :=
        fun outcome heq => Bool.eq_false_iff.2 fun hyes => haccepted ⟨outcome, heq, hyes⟩
      rw [composerReducer_history s haction hrefused]

theorem composed_cons (s : ComposerState) (action : ComposerAction) (actions : List ComposerAction) :
    composed isLetterOrNumber s (action :: actions)
      = composed isLetterOrNumber (composerReducer isLetterOrNumber s action) actions := rfl

theorem composed_concat (s : ComposerState) (actions : List ComposerAction) (action : ComposerAction) :
    composed isLetterOrNumber s (actions ++ [action])
      = composerReducer isLetterOrNumber (composed isLetterOrNumber s actions) action := by
  rw [composed, List.foldl_append]
  rfl

/-- During a walk the draft stays put aside. -/
theorem composed_aside {walk : List ComposerAction}
    (hwalk : ∀ taken, taken <+: walk → (composed isLetterOrNumber s taken).history.recalled ≠ none) :
    (composed isLetterOrNumber s walk).history.draft = s.history.draft := by
  induction walk using List.reverseRecOn with
  | nil => rfl
  | append_singleton walk action ih =>
    have hrest := ih fun taken htaken => hwalk taken (htaken.trans (List.prefix_append _ _))
    have hbefore := hwalk walk (List.prefix_append _ _)
    have hafter := hwalk (walk ++ [action]) List.prefix_rfl
    rw [composed_concat] at hafter ⊢
    rw [composerReducer_aside hbefore hafter, hrest]

/-- A walk from the draft puts the draft aside. -/
theorem walk_leaves (hwalks : Walks s action) (hnone : s.history.recalled = none) :
    (composerReducer isLetterOrNumber s action).history.draft = some ⟨s.text, s.tokens⟩ := by
  cases action with
  | historyPrevious =>
    obtain ⟨⟨history, entry⟩, heq⟩ := Option.isSome_iff_exists.1 hwalks
    rw [composerReducer, historyPrevious, heq]
    exact (recallPrevious_draft heq).trans (if_pos hnone)
  | historyNext =>
    rw [Walks, recallNext, hnone] at hwalks
    cases hwalks
  | _ => exact absurd hwalks id

/-- A step past the newest entry gives back what was put aside. -/
theorem historyNext_ends (hwalk : s.history.recalled ≠ none)
    (hends : (historyNext s).history.recalled = none) (hdraft : s.history.draft = some entry) :
    (historyNext s).text = entry.text ∧ (historyNext s).tokens = entry.tokens := by
  rw [historyNext] at hends ⊢
  rcases heq : recallNext s.history with _ | ⟨history, found⟩
  · rw [heq] at hends
    exact absurd hends hwalk
  · rw [heq] at hends
    rcases recallNext_cases heq with ⟨hsome, -⟩ | ⟨-, hfound⟩
    · exact absurd hends hsome
    · rw [hfound, hdraft]
      exact ⟨rfl, rfl⟩

/-- **A careful walk gives back** what it left. -/
theorem givesBack_of_careful (h : CarefulWalk s action) : GivesBack isLetterOrNumber s action := by
  intro walk hwalk
  have hnone : s.history.recalled = none := by
    by_contra hsome
    exact h hwalk.leaves hsome hwalk.own
  have haside : (composed isLetterOrNumber s (action :: walk)).history.draft = some ⟨s.text, s.tokens⟩ := by
    rw [composed_cons, composed_aside hwalk.browsing, walk_leaves hwalk.leaves hnone]
  have hends := hwalk.ends
  rw [composed_concat] at hends ⊢
  exact historyNext_ends (hwalk.browsing walk List.prefix_rfl) hends haside

/-! ## Runs -/

/-- **What the user typed is not lost** in a run: each step keeps the draft, and each walk gives back what
it left. -/
def NeverLoses (isLetterOrNumber : ℕ → Bool) (actions : List ComposerAction) : Prop :=
  EachAction isLetterOrNumber (KeepsDraft isLetterOrNumber) actions
    ∧ EachAction isLetterOrNumber (GivesBack isLetterOrNumber) actions

theorem initial_numbered : Numbered initialComposerState := nofun

/-- A draft that is submitted while the user types on. -/
def typedOn : List ComposerAction :=
  [.draft (codeUnits "one") none none, .submit none none, .draft (codeUnits "one two") none none,
    .resolve (.accepted ⟨none, codeUnits "one", 1, [], [], []⟩)]

end Falryn.Composer
