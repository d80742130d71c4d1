import Falryn.Composer.ComposerState

/-!
# What an action leaves alone

The parts of the composer that only a few actions change: the submission in flight (`submit`, `resolve`
and `cancel`), the number of submissions, and the history (a walk, or an accepted outcome).
-/

namespace Falryn.Composer

variable {isLetterOrNumber : ℕ → Bool} {action : ComposerAction}

/-! ## Suggestions and picks -/

/-- A refresh changes the suggestions and nothing else. -/
theorem refreshSuggestions_eq (isLetterOrNumber : ℕ → Bool) (s : ComposerState) :
    ∃ suggestions dismissed request, refreshSuggestions isLetterOrNumber s
      = { s with suggestions, dismissed, suggestionRequest := request } := by
  rw [refreshSuggestions]
  rcases s.detected isLetterOrNumber with _ | found
  · exact ⟨none, none, s.suggestionRequest, rfl⟩
  · rw [ComposerState.showSuggestions]
    split_ifs
    · exact ⟨none, s.dismissed, s.suggestionRequest, rfl⟩
    · rcases hshown : s.suggestions with _ | shown
      · exact ⟨_, none, s.suggestionRequest + 1, rfl⟩
      · dsimp only
        split_ifs
        · exact ⟨_, s.dismissed, s.suggestionRequest, rfl⟩
        · exact ⟨_, none, s.suggestionRequest + 1, rfl⟩

section Refresh

variable (s : ComposerState)

@[simp] theorem refreshSuggestions_text : (refreshSuggestions isLetterOrNumber s).text = s.text := by
  obtain ⟨_, _, _, h⟩ := refreshSuggestions_eq isLetterOrNumber s
  rw [h]

@[simp] theorem refreshSuggestions_tokens : (refreshSuggestions isLetterOrNumber s).tokens = s.tokens := by
  obtain ⟨_, _, _, h⟩ := refreshSuggestions_eq isLetterOrNumber s
  rw [h]

@[simp] theorem refreshSuggestions_history : (refreshSuggestions isLetterOrNumber s).history = s.history := by
  obtain ⟨_, _, _, h⟩ := refreshSuggestions_eq isLetterOrNumber s
  rw [h]

@[simp] theorem refreshSuggestions_inFlight :
    (refreshSuggestions isLetterOrNumber s).inFlight = s.inFlight := by
  obtain ⟨_, _, _, h⟩ := refreshSuggestions_eq isLetterOrNumber s
  rw [h]

@[simp] theorem refreshSuggestions_submissions :
    (refreshSuggestions isLetterOrNumber s).submissions = s.submissions := by
  obtain ⟨_, _, _, h⟩ := refreshSuggestions_eq isLetterOrNumber s
  rw [h]

end Refresh

/-- A typed label becomes a token, and the text stays as it was typed. -/
theorem commitTypedLabel_eq (before after : ComposerState) :
    ∃ tokenSeq tokens tokenNotice suggestions, commitTypedLabel before after
      = { after with tokenSeq, tokens, tokenNotice, suggestions } := by
  rw [commitTypedLabel]
  rcases typedLabel before after with _ | ⟨shown, row⟩
  · exact ⟨_, _, _, _, rfl⟩
  · dsimp only
    rcases tokenLimitReason after.tokens row.pick with _ | limit
    · exact ⟨_, _, _, _, rfl⟩
    · exact ⟨_, _, _, _, rfl⟩

section Commit

variable (before after : ComposerState)

@[simp] theorem commitTypedLabel_history : (commitTypedLabel before after).history = after.history := by
  obtain ⟨_, _, _, _, h⟩ := commitTypedLabel_eq before after
  rw [h]

@[simp] theorem commitTypedLabel_inFlight : (commitTypedLabel before after).inFlight = after.inFlight := by
  obtain ⟨_, _, _, _, h⟩ := commitTypedLabel_eq before after
  rw [h]

@[simp] theorem commitTypedLabel_submissions :
    (commitTypedLabel before after).submissions = after.submissions := by
  obtain ⟨_, _, _, _, h⟩ := commitTypedLabel_eq before after
  rw [h]

end Commit

/-! ## The submission in flight -/

/-- The actions that may change what is in flight. -/
def ComposerAction.IsSubmission : ComposerAction → Prop
  | .submit _ _ | .resolve _ | .cancel => True
  | _ => False

/-- What concerns submissions. -/
def ComposerState.sent (s : ComposerState) : Option ComposerSnapshot × ℕ := (s.inFlight, s.submissions)

/-- A step of a walk. -/
def ComposerAction.IsWalk : ComposerAction → Prop
  | .historyPrevious | .historyNext => True
  | _ => False

/-- An enhancement's outcome changes what is shown of enhancements. -/
theorem applyEnhancementOutcome_eq (s : ComposerState) (outcome : EnhancementOutcome) :
    ∃ lastOutcome enhancement lastEnhancement, applyEnhancementOutcome s outcome
      = { s with lastOutcome, enhancement, lastEnhancement } := by
  cases outcome with
  | proposal =>
    rw [applyEnhancementOutcome]
    split_ifs
    · exact ⟨_, _, _, rfl⟩
    · rw [holdProposal]
      split <;> exact ⟨_, _, _, rfl⟩
  | unchanged | empty | stale | unavailable | cancelled => exact ⟨_, _, _, rfl⟩

example (s : ComposerState) : (composerReducer isLetterOrNumber s .cancel).inFlight = none := by
  simp only [composerReducer]
  split_ifs with h
  · exact h
  · rfl

/-- Neither a submission nor a walk touches what is in flight or the history. -/
theorem composerReducer_frame (s : ComposerState) (h : ¬ action.IsSubmission) (hwalk : ¬ action.IsWalk) :
    (composerReducer isLetterOrNumber s action).sent = s.sent ∧
      (composerReducer isLetterOrNumber s action).history = s.history := by
  cases action with
  | draft _ cursor =>
    rw [composerReducer, editDraft]
    split_ifs
    · exact ⟨rfl, rfl⟩
    · simp [ComposerState.sent]
    · simp [ComposerState.sent, ComposerState.withText]
  | cursor cursor =>
    simp only [composerReducer, moveCursor]
    split_ifs <;> simp [ComposerState.sent]
  | mentionTriggers | suggestionReopen => simp [composerReducer, ComposerState.sent]
  | suggestionAccept =>
    rw [composerReducer, acceptSuggestion]
    split
    · exact ⟨rfl, rfl⟩
    · split
      · exact ⟨rfl, rfl⟩
      · split
        · exact ⟨rfl, rfl⟩
        · rw [insertPick]
          split <;> exact ⟨rfl, rfl⟩
  | suggestionDismiss | removeAttachment id =>
    rw [composerReducer]
    split <;> exact ⟨rfl, rfl⟩
  | historyPrevious | historyNext => exact absurd trivial hwalk
  | submit | resolve | cancel => exact absurd trivial h
  | enhance outcome =>
    obtain ⟨_, _, _, heq⟩ := applyEnhancementOutcome_eq s outcome
    rw [composerReducer, heq]
    exact ⟨rfl, rfl⟩
  | acceptEnhancement =>
    rw [composerReducer, acceptEnhancement]
    split
    · exact ⟨rfl, rfl⟩
    · split_ifs <;> exact ⟨rfl, rfl⟩
  | suggestionResults | suggestionFailed | suggestionMove | paste | disable | enable | includePaste
  | excludePaste | attach | moveAttachment | attachments | rejectEnhancement => exact ⟨rfl, rfl⟩

/-- **Only `submit`, `resolve` and `cancel`** change what is in flight. -/
theorem composerReducer_sent (isLetterOrNumber : ℕ → Bool) (s : ComposerState) (h : ¬ action.IsSubmission) :
    (composerReducer isLetterOrNumber s action).sent = s.sent := by
  by_cases hwalk : action.IsWalk
  · cases action with
    | historyPrevious =>
      rw [composerReducer, historyPrevious]
      split <;> rfl
    | historyNext =>
      rw [composerReducer, historyNext]
      split <;> rfl
    | _ => exact absurd hwalk id
  · exact (composerReducer_frame s h hwalk).1

/-- **Only a walk or an accepted outcome** changes the history. -/
theorem composerReducer_history (s : ComposerState) (h : ¬ action.IsWalk)
    (h' : ∀ outcome, action = .resolve outcome → outcome.isAccepted = false) :
    (composerReducer isLetterOrNumber s action).history = s.history := by
  by_cases hsubmission : action.IsSubmission
  · cases action with
    | submit =>
      rw [composerReducer, submit]
      split_ifs
      · rfl
      · rw [submitWith]
        split_ifs <;> rfl
    | resolve outcome =>
      have haccepted := h' outcome rfl
      rw [composerReducer, resolveOutcome]
      split_ifs with hnone hyes
      · rfl
      · exact absurd (haccepted.symm.trans hyes) Bool.false_ne_true
      · rfl
    | cancel =>
      rw [composerReducer]
      split_ifs <;> rfl
    | _ => exact absurd hsubmission id
  · exact (composerReducer_frame s hsubmission h).2

end Falryn.Composer
