import Falryn.Composer.TokenPlaces
import Falryn.Composer.ComposerFrames

/-!
# Picks on their own labels

Whether the tokens of a draft sit on their own labels in every state of the composer.  The invariant
`Sound` holds of the draft, of what the history, a submission in flight and a proposal keep, and of the open
list of suggestions.  Three steps break it: an accepted outcome leaves a list open over a text that it
clears, the search for a trigger looks over a token that lies within the word before the cursor, and a typed
label becomes a token also where an editor reports another one.  `picksInPlace_iff` says that these are
exactly the steps that do.
-/

namespace Falryn.Composer

open StateMachine

variable {isLetterOrNumber : ℕ → Bool}

/-! ## The claim -/

/-- An open list is for a range in the text that lies over no token. -/
structure RangeInPlace (text : CodeUnits) (tokens : List ComposerToken) (start stop : ℕ) : Prop where
  order : start ≤ stop
  inside : stop ≤ text.length
  clear : ∀ token ∈ tokens, ClearOf start stop token

/-- **Picks are in place** in a state: the tokens sit on their labels with ids of their own, the open list
is for a range in the text that lies over no token, and so it is for the text and tokens of the snapshot
that a submission takes, and of the one in flight. -/
structure PicksInPlace (s : ComposerState) : Prop where
  placed : Placed s.text s.tokens
  ids : (s.tokens.map (·.id)).Nodup
  listed : ∀ shown, s.suggestions = some shown → RangeInPlace s.text s.tokens shown.start shown.stop
  taken : ∀ binding attachments,
    Placed (s.snapshot binding attachments).text (s.snapshot binding attachments).tokens
  inFlight : ∀ snapshot, s.inFlight = some snapshot → Placed snapshot.text snapshot.tokens

/-- What the environment of the composer owes: an editor reports ranges in the text that are apart, and the
rows of a source carry their own labels. -/
def Admissible : ComposerAction → Prop
  | .draft text _ ranges => RangesFit text ranges
  | .suggestionResults _ page => ∀ row ∈ page.rows, row.pick.label = row.label
  | _ => True

/-! ## The condition -/

/-- The search for a trigger finds no word with a token in it. -/
def RefreshClear (isLetterOrNumber : ℕ → Bool) (s : ComposerState) : Prop :=
  ∀ found ∈ s.detected isLetterOrNumber, some found.start ≠ s.dismissed →
    ∀ token ∈ s.tokens, ClearOf found.start found.stop token

instance (s : ComposerState) : Decidable (RefreshClear isLetterOrNumber s) := by
  unfold RefreshClear
  infer_instance

/-- A typed label that becomes a token lies over no token that the editor reported. -/
def CommitClear (before after : ComposerState) : Prop :=
  ∀ found ∈ typedLabel before after, tokenLimitReason after.tokens found.2.pick = none →
    ∀ token ∈ after.tokens, ClearOf found.1.start found.1.stop token

instance (before after : ComposerState) : Decidable (CommitClear before after) := by
  unfold CommitClear
  infer_instance

/-- The condition: a change of the draft finds no label to commit over a reported token, no refresh finds a
word with a token in it, and an accepted outcome comes while no list is open. -/
def CarefulPick (isLetterOrNumber : ℕ → Bool) (s : ComposerState) : ComposerAction → Prop
  | .draft text cursor ranges =>
    if text = s.text then
      reportedCursor text cursor ≠ s.cursor →
        RefreshClear isLetterOrNumber { s with cursor := reportedCursor text cursor }
    else
      CommitClear s (s.withText text (reportedCursor text cursor) ranges)
        ∧ RefreshClear isLetterOrNumber (commitTypedLabel s (s.withText text (reportedCursor text cursor) ranges))
  | .cursor cursor =>
    max 0 (min cursor s.text.length) ≠ s.cursor →
      RefreshClear isLetterOrNumber { s with cursor := max 0 (min cursor s.text.length) }
  | .mentionTriggers triggers => RefreshClear isLetterOrNumber { s with mentionTriggers := triggers }
  | .suggestionReopen => RefreshClear isLetterOrNumber { s with dismissed := none }
  | .resolve outcome => s.inFlight ≠ none → outcome.isAccepted = true → s.suggestions = none
  | _ => True

instance (s : ComposerState) (action : ComposerAction) : Decidable (CarefulPick isLetterOrNumber s action) := by
  cases action <;> (unfold CarefulPick; infer_instance)

/-- Tokens on their labels that were picked in this session. -/
def WellPicked (seq : ℕ) (text : CodeUnits) (tokens : List ComposerToken) : Prop :=
  Placed text tokens ∧ Picked seq tokens

variable {text : CodeUnits} {seq : ℕ} {tokens : List ComposerToken}

theorem WellPicked.mono {seq' : ℕ}
    (h : WellPicked seq text tokens) (hle : seq ≤ seq') : WellPicked seq' text tokens :=
  ⟨h.1, h.2.mono hle⟩

/-- An accepted outcome carries tokens that sit on their labels in its text, and were picked in this
session, as those of a snapshot do. -/
def HonestOutcome (s : ComposerState) (action : ComposerAction) : Prop :=
  ∀ outcome, action = .resolve outcome → s.inFlight ≠ none → outcome.isAccepted = true →
    WellPicked s.tokenSeq outcome.snapshot.text outcome.snapshot.tokens

/-! ## The invariant -/

/-- What the composer keeps is well picked: the draft, the history, the draft that a walk put aside, the
submission in flight and the proposal that waits. -/
structure Keeps (s : ComposerState) : Prop where
  draft : WellPicked s.tokenSeq s.text s.tokens
  entries : ∀ entry ∈ s.history.entries, WellPicked s.tokenSeq entry.text entry.tokens
  aside : ∀ entry, s.history.draft = some entry → WellPicked s.tokenSeq entry.text entry.tokens
  inFlight : ∀ snapshot, s.inFlight = some snapshot → WellPicked s.tokenSeq snapshot.text snapshot.tokens
  proposal : ∀ held, s.enhancement = some held → WellPicked s.tokenSeq held.proposed held.tokens

/-- The rows of an open list carry their own labels. -/
def RowsLabelled (s : ComposerState) : Prop :=
  ∀ shown, s.suggestions = some shown → ∀ row ∈ shown.rows, row.pick.label = row.label

/-- An open list is for a range that is not at the very start, in the text and over no token. -/
def Listed (s : ComposerState) : Prop :=
  ∀ shown, s.suggestions = some shown →
    1 ≤ shown.stop ∧ RangeInPlace s.text s.tokens shown.start shown.stop

/-- **The invariant.** -/
structure Sound (s : ComposerState) : Prop where
  keeps : Keeps s
  rows : RowsLabelled s
  listed : Listed s

theorem initial_sound : Sound initialComposerState where
  keeps := ⟨⟨placed_nil _, picked_nil _⟩, by simp [initialComposerState, emptyHistory],
    nofun, nofun, nofun⟩
  rows := nofun
  listed := nofun

variable {s : ComposerState} {s' : ComposerState} {cursor start : ℕ}
  {f : ComposerSuggestions → ComposerSuggestions} {ranges : Option (List (String × TokenRange))}

theorem Sound.picksInPlace (h : Sound s) : PicksInPlace s where
  placed := h.keeps.draft.1
  ids := h.keeps.draft.2.ids
  listed shown hshown := (h.listed shown hshown).2
  taken _ _ := h.keeps.draft.1
  inFlight snapshot hsnapshot := (h.keeps.inFlight snapshot hsnapshot).1

/-- The invariant is about the text, the tokens, the history, the submission in flight and the proposal. -/
theorem Keeps.congr (h : Keeps s)
    (heq : (s'.text, s'.tokens, s'.tokenSeq, s'.history, s'.inFlight, s'.enhancement)
      = (s.text, s.tokens, s.tokenSeq, s.history, s.inFlight, s.enhancement)) : Keeps s' := by
  simp only [Prod.mk.injEq] at heq
  obtain ⟨htext, htokens, hseq, hhistory, hflight, hheld⟩ := heq
  constructor
  · rw [hseq, htext, htokens]
    exact h.draft
  · rw [hseq, hhistory]
    exact h.entries
  · rw [hseq, hhistory]
    exact h.aside
  · rw [hseq, hflight]
    exact h.inFlight
  · rw [hseq, hheld]
    exact h.proposal

/-! ## Refreshing the suggestions -/

theorem wordStart_le : ∀ {place start : ℕ}, wordStart text cursor place = some start → start ≤ place
  | 0, start, h => by
    rw [wordStart] at h
    exact (Option.some.inj h).symm.le
  | place + 1, start, h => by
    rw [wordStart] at h
    split_ifs at h
    · exact (Option.some.inj h).symm.le
    · exact (wordStart_le h).trans (Nat.le_succ place)

theorem afterOpener_le (text : CodeUnits) (h : start ≤ cursor) :
    afterOpener text cursor start ≤ cursor := by
  rw [afterOpener]
  split_ifs with hopener
  · exact hopener.2.le
  · exact h

/-- **What is detected** ends at the cursor, in the text. -/
theorem detected_range {found : MentionTriggerMatch}
    (h : s.detected isLetterOrNumber = some found) :
    found.start ≤ found.stop ∧ 1 ≤ found.stop ∧ found.stop ≤ s.text.length := by
  rw [ComposerState.detected] at h
  split_ifs at h
  rw [detectMentionTrigger] at h
  split_ifs at h with houtside
  obtain ⟨start, hstart, hat⟩ := Option.bind_eq_some_iff.1 h
  rw [triggerAt] at hat
  obtain ⟨trigger, -, hat⟩ := Option.bind_eq_some_iff.1 hat
  split_ifs at hat
  have hfound := Option.some.inj hat
  have hle := afterOpener_le s.text (wordStart_le hstart)
  rw [← hfound]
  refine ⟨hle, ?_, ?_⟩
  · dsimp only
    omega
  · dsimp only
    omega

/-- A refresh closes the list, or opens it for what was detected, with rows of the last list. -/
theorem refreshSuggestions_cases (isLetterOrNumber : ℕ → Bool) (s : ComposerState) :
    ((refreshSuggestions isLetterOrNumber s).suggestions = none
        ∧ ∀ found, s.detected isLetterOrNumber = some found → some found.start = s.dismissed)
      ∨ ∃ found shown, s.detected isLetterOrNumber = some found ∧ some found.start ≠ s.dismissed
        ∧ (refreshSuggestions isLetterOrNumber s).suggestions = some shown ∧ shown.start = found.start
        ∧ shown.stop = found.stop
        ∧ ∀ row ∈ shown.rows, ∃ last, s.suggestions = some last ∧ row ∈ last.rows := by
  rw [refreshSuggestions]
  rcases hdetected : s.detected isLetterOrNumber with _ | found
  · exact .inl ⟨rfl, by simp⟩
  · rw [ComposerState.showSuggestions]
    split_ifs with hdismissed
    · exact .inl ⟨rfl, fun _ h => by cases h; exact hdismissed⟩
    · refine .inr ⟨found, ?_⟩
      rcases hshown : s.suggestions with _ | shown
      · exact ⟨_, rfl, hdismissed, rfl, rfl, rfl, fun row hrow => by
          simp [loadingSuggestions, hshown] at hrow⟩
      · dsimp only
        split_ifs with hfor
        · exact ⟨_, rfl, hdismissed, rfl, hfor.2.1, rfl, fun row hrow => ⟨shown, rfl, hrow⟩⟩
        · exact ⟨_, rfl, hdismissed, rfl, rfl, rfl, fun row hrow => ⟨shown, rfl, by
            simpa [loadingSuggestions, hshown] using hrow⟩⟩

theorem RowsLabelled.refresh (h : RowsLabelled s) :
    RowsLabelled (refreshSuggestions isLetterOrNumber s) := by
  intro shown hshown row hrow
  rcases refreshSuggestions_cases isLetterOrNumber s with ⟨hnone, -⟩
    | ⟨_, shown', -, -, hsome, -, -, hrows⟩
  · rw [hnone] at hshown
    cases hshown
  · rw [hsome] at hshown
    cases hshown
    obtain ⟨last, hlast, hmem⟩ := hrows row hrow
    exact h last hlast row hmem

/-- **A refresh opens a list in place** when no word with a token in it is found. -/
theorem listed_refresh (h : RefreshClear isLetterOrNumber s) :
    Listed (refreshSuggestions isLetterOrNumber s) := by
  intro shown hshown
  rw [refreshSuggestions_text, refreshSuggestions_tokens]
  rcases refreshSuggestions_cases isLetterOrNumber s with ⟨hnone, -⟩
    | ⟨found, shown', hdetected, hdismissed, hsome, hstart, hstop, -⟩
  · rw [hnone] at hshown
    cases hshown
  · rw [hsome] at hshown
    cases hshown
    obtain ⟨horder, hpos, hinside⟩ := detected_range hdetected
    rw [hstart, hstop]
    exact ⟨hpos, horder, hinside, h found hdetected hdismissed⟩

/-- And only then. -/
theorem refreshClear_of_inPlace
    (h : PicksInPlace (refreshSuggestions isLetterOrNumber s)) : RefreshClear isLetterOrNumber s := by
  intro found hfound hdismissed token _
  rcases refreshSuggestions_cases isLetterOrNumber s with ⟨-, hall⟩
    | ⟨found', shown, hdetected, -, hsome, hstart, hstop, -⟩
  · exact absurd (hall found hfound) hdismissed
  · rw [Option.mem_def, hdetected] at hfound
    cases hfound
    have hclear := (h.listed shown hsome).clear token (by rwa [refreshSuggestions_tokens])
    rwa [hstart, hstop] at hclear

theorem Keeps.refresh (h : Keeps s) : Keeps (refreshSuggestions isLetterOrNumber s) := by
  obtain ⟨_, _, _, heq⟩ := refreshSuggestions_eq isLetterOrNumber s
  exact h.congr (by rw [heq])

/-- **A refresh keeps the invariant** exactly when no word with a token in it is found. -/
theorem sound_refresh (isLetterOrNumber : ℕ → Bool) (h : Keeps s) (hrows : RowsLabelled s) :
    (RefreshClear isLetterOrNumber s → Sound (refreshSuggestions isLetterOrNumber s))
      ∧ (PicksInPlace (refreshSuggestions isLetterOrNumber s) → RefreshClear isLetterOrNumber s) :=
  ⟨fun hclear => ⟨h.refresh, hrows.refresh, listed_refresh hclear⟩, refreshClear_of_inPlace⟩

/-! ## Steps that change no place -/

/-- The invariant is about the draft, what is kept and the open list. -/
theorem Sound.congr (h : Sound s)
    (heq : (s'.text, s'.tokens, s'.tokenSeq, s'.history, s'.inFlight, s'.enhancement)
      = (s.text, s.tokens, s.tokenSeq, s.history, s.inFlight, s.enhancement))
    (hlist : s'.suggestions = s.suggestions) : Sound s' where
  keeps := h.keeps.congr heq
  rows := by
    rw [RowsLabelled, hlist]
    exact h.rows
  listed := by
    simp only [Prod.mk.injEq] at heq
    rw [Listed, hlist, heq.1, heq.2.1]
    exact h.listed

/-- A state without an open list. -/
theorem sound_closed (h : Keeps s) (hnone : s.suggestions = none) : Sound s where
  keeps := h
  rows shown hshown := by rw [hnone] at hshown; cases hshown
  listed shown hshown := by rw [hnone] at hshown; cases hshown

/-- A list that changes but its range. -/
theorem Sound.mapSuggestions (h : Sound s)
    (hf : ∀ shown, s.suggestions = some shown → (f shown).start = shown.start ∧ (f shown).stop = shown.stop
      ∧ ∀ row ∈ (f shown).rows, row.pick.label = row.label) : Sound (s.mapSuggestions f) where
  keeps := h.keeps.congr rfl
  rows shown hshown := by
    obtain ⟨last, hlast, rfl⟩ := Option.map_eq_some_iff.1 hshown
    exact (hf last hlast).2.2
  listed shown hshown := by
    obtain ⟨last, hlast, rfl⟩ := Option.map_eq_some_iff.1 hshown
    obtain ⟨hstart, hstop, -⟩ := hf last hlast
    rw [hstart, hstop]
    exact h.listed last hlast

theorem Sound.answerSuggestions (h : Sound s) (request : ℕ)
    (hf : ∀ shown, (f shown).start = shown.start ∧ (f shown).stop = shown.stop
      ∧ ∀ row ∈ (f shown).rows, row.pick.label = row.label) : Sound (s.answerSuggestions request f) := by
  refine h.mapSuggestions fun shown hshown => ?_
  split_ifs
  · exact hf shown
  · exact ⟨rfl, rfl, h.rows shown hshown⟩

/-- A proposal that goes stale is still well picked. -/
theorem stale_wellPicked {enhancement : Option ComposerEnhancement}
    (h : ∀ held, enhancement = some held → WellPicked seq held.proposed held.tokens) (revision : ℕ) :
    ∀ held, staleEnhancement enhancement revision = some held → WellPicked seq held.proposed held.tokens := by
  intro held hheld
  obtain ⟨last, hlast, rfl⟩ := Option.map_eq_some_iff.1 hheld
  split_ifs
  · exact h last hlast
  · exact h last hlast

/-! ## Picks -/

/-- **A pick over the open range** keeps the invariant. -/
theorem sound_insertPick (h : Sound s) {pick : ComposerTokenPick} {stop : ℕ}
    (hrange : RangeInPlace s.text s.tokens start stop) : Sound (insertPick s pick start stop) := by
  rw [insertPick]
  split
  · exact h.congr rfl rfl
  · refine sound_closed ⟨⟨?_, ?_⟩, ?_, ?_, ?_, ?_⟩ rfl
    · exact placed_insert hrange.order hrange.inside h.keeps.draft.1 hrange.clear pick (tokenId (s.tokenSeq + 1))
    · refine Picked.sort (Picked.add (h.keeps.draft.2.of_ids ?_) pick _ _)
      rw [shiftTokens_ids]
    · exact fun entry hentry => (h.keeps.entries entry hentry).mono (Nat.le_succ _)
    · exact fun entry hentry => (h.keeps.aside entry hentry).mono (Nat.le_succ _)
    · exact fun snapshot hsnapshot => (h.keeps.inFlight snapshot hsnapshot).mono (Nat.le_succ _)
    · exact stale_wellPicked (fun held hheld => (h.keeps.proposal held hheld).mono (Nat.le_succ _)) _

theorem sound_acceptSuggestion (h : Sound s) : Sound (acceptSuggestion s) := by
  rw [acceptSuggestion]
  split
  · exact h
  · rename_i shown hshown
    split
    · exact h
    · split
      · exact h.congr rfl rfl
      · exact sound_insertPick h (h.listed shown hshown).2

/-! ## Changes of the draft -/

/-- What becomes of the tokens when the text changes is well picked. -/
theorem keeps_withText (h : Keeps s) (cursor : ℤ) (hranges : RangesFit text ranges) :
    Keeps (s.withText text cursor ranges) where
  draft := ⟨placed_reconcile h.draft.1 h.draft.2 hranges, picked_reconcile h.draft.2 text ranges⟩
  entries := h.entries
  aside := h.aside
  inFlight := h.inFlight
  proposal := stale_wellPicked h.proposal _

variable {before after : ComposerState} {shown : ComposerSuggestions} {row : SuggestionRow}
  {found : ComposerSuggestions × SuggestionRow}

/-- What is known of a label that was typed. -/
theorem typedLabel_eq (h : typedLabel before after = some (shown, row)) :
    before.suggestions = some shown ∧ row ∈ shown.rows ∧ slice before.text shown.start shown.stop = row.label
      ∧ after.text.take shown.stop = before.text.take shown.stop := by
  rw [typedLabel] at h
  obtain ⟨shown', hshown, h⟩ := Option.bind_eq_some_iff.1 h
  split_ifs at h
  obtain ⟨row', hrow, h⟩ := Option.bind_eq_some_iff.1 h
  split_ifs at h with htyped
  cases h
  refine ⟨hshown, ?_, htyped.1, htyped.2.2.2.1⟩
  rw [exactRow] at hrow
  split at hrow
  · rename_i hfilter
    cases hrow
    exact List.mem_of_mem_filter (hfilter ▸ List.mem_singleton_self _)
  · cases hrow

/-- The token of a typed label sits on it. -/
theorem onLabel_typed (h : Sound before) (htyped : typedLabel before after = some (shown, row)) (id : String) :
    shown.start + row.label.length = shown.stop
      ∧ OnLabel after.text (row.pick.place id shown.start (shown.start + row.label.length)) := by
  obtain ⟨hshown, hrow, hlabel, htake⟩ := typedLabel_eq htyped
  obtain ⟨-, horder, hinside, -⟩ := h.listed shown hshown
  have hpick : row.pick.label = row.label := h.rows shown hshown row hrow
  have hlength := length_slice shown.start hinside
  rw [hlabel] at hlength
  have hstop : shown.start + row.label.length = shown.stop := by omega
  refine ⟨hstop, ⟨?_, ?_⟩⟩
  · exact congrArg (shown.start + List.length ·) hpick.symm
  · have hsame : slice after.text shown.start shown.stop = slice before.text shown.start shown.stop := by
      rw [slice, htake, slice]
    exact (congrArg (slice after.text shown.start) hstop).trans (hsame.trans (hlabel.trans hpick.symm))

theorem commitTypedLabel_of_none (h : typedLabel before after = none) :
    commitTypedLabel before after = after := by
  rw [commitTypedLabel, h]

theorem commitTypedLabel_of_limit (h : typedLabel before after = some found) {limit : CodeUnits}
    (hlimit : tokenLimitReason after.tokens found.2.pick = some limit) :
    commitTypedLabel before after = { after with tokenNotice := some limit } := by
  rw [commitTypedLabel, h]
  dsimp only
  rw [hlimit]

theorem commitTypedLabel_of_some
    (h : typedLabel before after = some found) (hlimit : tokenLimitReason after.tokens found.2.pick = none) :
    commitTypedLabel before after
      = after.addToken after.tokens found.2.pick found.1.start (found.1.start + found.2.label.length) := by
  rw [commitTypedLabel, h]
  dsimp only
  rw [hlimit]

/-- **A typed label becomes a token** in place exactly when no reported token lies there. -/
theorem keeps_commit (h : Sound before) (hafter : Keeps after) :
    (CommitClear before after → Keeps (commitTypedLabel before after))
      ∧ (Placed (commitTypedLabel before after).text (commitTypedLabel before after).tokens →
        CommitClear before after) := by
  rcases htyped : typedLabel before after with _ | ⟨shown, row⟩
  · rw [commitTypedLabel_of_none htyped]
    exact ⟨fun _ => hafter, fun _ found hfound => by rw [htyped] at hfound; cases hfound⟩
  · obtain ⟨hstop, hlabel⟩ := onLabel_typed h htyped (tokenId (after.tokenSeq + 1))
    rcases hlimit : tokenLimitReason after.tokens row.pick with _ | limit
    · rw [commitTypedLabel_of_some htyped hlimit]
      constructor
      · intro hclear
        refine ⟨⟨?_, Picked.sort (hafter.draft.2.add row.pick _ _)⟩, ?_, ?_, ?_, ?_⟩
        · refine placed_add hafter.draft.1.apart hafter.draft.1.onLabel (fun token htoken => ?_) hlabel
          have hother := hclear (shown, row) htyped hlimit token htoken
          exact hstop.symm ▸ hother
        · exact fun entry hentry => (hafter.entries entry hentry).mono (Nat.le_succ _)
        · exact fun entry hentry => (hafter.aside entry hentry).mono (Nat.le_succ _)
        · exact fun snapshot hsnapshot => (hafter.inFlight snapshot hsnapshot).mono (Nat.le_succ _)
        · exact fun held hheld => (hafter.proposal held hheld).mono (Nat.le_succ _)
      · intro hplaced found hfound _ token htoken
        rw [Option.mem_def, htyped] at hfound
        cases hfound
        have hapart := ((sortByStart_perm _).pairwise_iff Apart.symm).1 hplaced.apart
        have hpair := (List.pairwise_append.1 hapart).2.2 token htoken _ (List.mem_singleton_self _)
        exact hstop ▸ hpair
    · rw [commitTypedLabel_of_limit htyped hlimit]
      refine ⟨fun _ => hafter.congr rfl, fun _ found hfound hnone => ?_⟩
      rw [Option.mem_def, htyped] at hfound
      cases hfound
      rw [hlimit] at hnone
      cases hnone

theorem rows_commit (h : RowsLabelled after) : RowsLabelled (commitTypedLabel before after) := by
  rcases htyped : typedLabel before after with _ | found
  · rw [commitTypedLabel_of_none htyped]
    exact h
  · rcases hlimit : tokenLimitReason after.tokens found.2.pick with _ | limit
    · rw [commitTypedLabel_of_some htyped hlimit]
      nofun
    · rw [commitTypedLabel_of_limit htyped hlimit]
      exact h

/-! ## One step -/

theorem step_draft (h : Sound s) {cursor : Option ℤ} (hranges : RangesFit text ranges) :
    (CarefulPick isLetterOrNumber s (.draft text cursor ranges) →
        Sound (editDraft isLetterOrNumber s text cursor ranges))
      ∧ (PicksInPlace (editDraft isLetterOrNumber s text cursor ranges) →
        CarefulPick isLetterOrNumber s (.draft text cursor ranges)) := by
  rw [CarefulPick, editDraft]
  by_cases htext : text = s.text
  · rw [if_pos htext, if_pos htext]
    by_cases hcursor : reportedCursor text cursor = s.cursor
    · rw [if_pos hcursor]
      exact ⟨fun _ => h, fun _ hne => absurd hcursor hne⟩
    · rw [if_neg hcursor]
      have hrefresh := sound_refresh isLetterOrNumber (s := { s with cursor := reportedCursor text cursor })
        (h.keeps.congr rfl) h.rows
      exact ⟨fun hclear => hrefresh.1 (hclear hcursor), fun hplace _ => hrefresh.2 hplace⟩
  · rw [if_neg htext, if_neg htext]
    have hkeeps := keeps_withText h.keeps (reportedCursor text cursor) hranges
    have hcommit := keeps_commit h hkeeps
    have hrows : RowsLabelled (commitTypedLabel s (s.withText text (reportedCursor text cursor) ranges)) :=
      rows_commit h.rows
    constructor
    · rintro ⟨hclear, hrefresh⟩
      exact (sound_refresh isLetterOrNumber (hcommit.1 hclear) hrows).1 hrefresh
    · intro hplace
      have hplaced := hplace.placed
      rw [refreshSuggestions_text, refreshSuggestions_tokens] at hplaced
      exact ⟨hcommit.2 hplaced, refreshClear_of_inPlace hplace⟩

theorem step_cursor (h : Sound s) {cursor : ℤ} :
    (CarefulPick isLetterOrNumber s (.cursor cursor) → Sound (moveCursor isLetterOrNumber s cursor))
      ∧ (PicksInPlace (moveCursor isLetterOrNumber s cursor) →
        CarefulPick isLetterOrNumber s (.cursor cursor)) := by
  rw [CarefulPick, moveCursor]
  by_cases hcursor : max 0 (min cursor s.text.length) = s.cursor
  · rw [if_pos hcursor]
    exact ⟨fun _ => h, fun _ hne => absurd hcursor hne⟩
  · rw [if_neg hcursor]
    have hrefresh := sound_refresh isLetterOrNumber
      (s := { s with cursor := max 0 (min cursor s.text.length) }) (h.keeps.congr rfl) h.rows
    exact ⟨fun hclear => hrefresh.1 (hclear hcursor), fun hplace _ => hrefresh.2 hplace⟩

variable {history : InputHistory} {entry : HistoryEntry}

/-- What is remembered was there before, or was submitted. -/
theorem remember_entries (h : entry ∈ (remember history text tokens).entries) :
    entry ∈ history.entries ∨ entry = ⟨text, tokens⟩ := by
  rw [remember] at h
  split_ifs at h
  · exact .inl h
  · exact (List.mem_append.1 (List.mem_of_mem_drop h)).imp_right List.mem_singleton.1

theorem remember_draft (history : InputHistory) (text : CodeUnits) (tokens : List ComposerToken) :
    (remember history text tokens).draft = none := by
  rw [remember]
  split_ifs <;> rfl

theorem step_resolve (h : Sound s) {outcome : SubmissionOutcome}
    (honest : HonestOutcome s (.resolve outcome)) :
    (CarefulPick isLetterOrNumber s (.resolve outcome) → Sound (resolveOutcome s outcome))
      ∧ (PicksInPlace (resolveOutcome s outcome) → CarefulPick isLetterOrNumber s (.resolve outcome)) := by
  rw [CarefulPick, resolveOutcome]
  by_cases hnone : s.inFlight = none
  · rw [if_pos hnone]
    exact ⟨fun _ => h, fun _ hne => absurd hnone hne⟩
  · rw [if_neg hnone]
    by_cases haccepted : outcome.isAccepted = true
    · rw [if_pos haccepted]
      constructor
      · intro hclosed
        refine sound_closed ⟨⟨placed_nil _, picked_nil _⟩, fun entry hentry => ?_, fun entry hentry => ?_,
          (fun aside haside => by cases haside), fun held hheld => by cases hheld⟩ (hclosed hnone haccepted)
        · rcases remember_entries hentry with hold | rfl
          · exact h.keeps.entries entry hold
          · exact honest outcome rfl hnone haccepted
        · exact absurd ((remember_draft s.history _ _).symm.trans hentry) (Option.some_ne_none _).symm
      · intro hplace _ _
        by_contra hopen
        obtain ⟨shown, hshown⟩ := Option.ne_none_iff_exists'.1 hopen
        have hinside : shown.stop ≤ 0 := (hplace.listed shown hshown).inside
        have hpos := (h.listed shown hshown).1
        omega
    · rw [if_neg haccepted]
      refine ⟨fun _ => ⟨⟨h.keeps.draft, h.keeps.entries, h.keeps.aside, by simp,
        h.keeps.proposal⟩, h.rows, h.listed⟩, fun _ _ hyes => absurd hyes haccepted⟩

theorem keeps_recall (h : Keeps s)
    (phase : ComposerPhase) (hentries : history.entries = s.history.entries)
    (haside : ∀ other, history.draft = some other → WellPicked s.tokenSeq other.text other.tokens)
    (hentry : WellPicked s.tokenSeq entry.text entry.tokens) : Keeps (s.recall history entry phase) where
  draft := hentry
  entries := by
    rw [ComposerState.recall, hentries]
    exact h.entries
  aside := haside
  inFlight := h.inFlight
  proposal := stale_wellPicked h.proposal _

theorem entryBack_mem {back : ℕ}
    (h : history.entryBack back = some entry) : entry ∈ history.entries :=
  List.mem_of_getElem? h

theorem sound_historyPrevious (h : Sound s) : Sound (historyPrevious s) := by
  rw [historyPrevious]
  split
  · exact h
  · rename_i history _ heq
    rw [recallPrevious] at heq
    by_cases hfar : s.history.recalled.getD 0 + 1 > s.history.entries.length
    · rw [if_pos hfar] at heq
      cases heq
    · rw [if_neg hfar] at heq
      obtain ⟨found, hfound, hsame⟩ := Option.map_eq_some_iff.1 heq
      obtain ⟨rfl, rfl⟩ := Prod.mk.inj hsame
      refine sound_closed (keeps_recall h.keeps _ rfl (fun other hother => ?_)
        (h.keeps.entries _ (entryBack_mem hfound))) rfl
      dsimp only at hother
      split_ifs at hother
      · cases hother
        exact h.keeps.draft
      · exact h.keeps.aside other hother

theorem sound_historyNext (h : Sound s) : Sound (historyNext s) := by
  rw [historyNext]
  split
  · exact h
  · rename_i history _ heq
    rw [recallNext] at heq
    split at heq
    · cases heq
    · rename_i back hback
      split_ifs at heq
      · obtain ⟨rfl, rfl⟩ := Prod.mk.inj (Option.some.inj heq)
        refine sound_closed (keeps_recall h.keeps _ rfl (by simp) ?_) rfl
        rcases hdraft : s.history.draft with _ | aside
        · exact ⟨placed_nil _, picked_nil _⟩
        · exact h.keeps.aside aside hdraft
      · obtain ⟨found, hfound, hsame⟩ := Option.map_eq_some_iff.1 heq
        obtain ⟨rfl, rfl⟩ := Prod.mk.inj hsame
        exact sound_closed (keeps_recall h.keeps _ rfl h.keeps.aside
          (h.keeps.entries _ (entryBack_mem hfound))) rfl

theorem sound_submit (h : Sound s) (binding : Option String)
    (attachments : Option (List AttachmentDescriptor)) : Sound (submit s binding attachments) := by
  rw [submit]
  split_ifs
  · exact h
  · rw [submitWith]
    split_ifs
    · exact h
    · exact h.congr rfl rfl
    · refine sound_closed ⟨h.keeps.draft, h.keeps.entries, h.keeps.aside, fun _ hsnapshot => ?_,
        by simp⟩ rfl
      cases hsnapshot
      exact h.keeps.draft

theorem sound_enhance (h : Sound s) (outcome : EnhancementOutcome) :
    Sound (applyEnhancementOutcome s outcome) := by
  have hdropped : ∀ s' : ComposerState, (s'.text, s'.tokens, s'.tokenSeq, s'.history, s'.inFlight)
      = (s.text, s.tokens, s.tokenSeq, s.history, s.inFlight) → s'.suggestions = s.suggestions →
        (∀ held, s'.enhancement = some held → WellPicked s.tokenSeq held.proposed held.tokens) → Sound s' := by
    intro s' heq hlist hheld
    simp only [Prod.mk.injEq] at heq
    obtain ⟨htext, htokens, hseq, hhistory, hflight⟩ := heq
    have hkept : Sound { s with enhancement := s'.enhancement } :=
      ⟨⟨h.keeps.draft, h.keeps.entries, h.keeps.aside, h.keeps.inFlight, hheld⟩, h.rows, h.listed⟩
    exact hkept.congr (by rw [htext, htokens, hseq, hhistory, hflight]) hlist
  cases outcome with
  | proposal _ proposed =>
    rw [applyEnhancementOutcome]
    split_ifs
    · exact hdropped _ rfl rfl (by simp)
    · rw [holdProposal]
      split
      · exact hdropped _ rfl rfl (by simp)
      · rename_i text tokens hrestored
        refine hdropped _ rfl rfl fun held hheld => ?_
        cases hheld
        split_ifs at hrestored
        · cases hrestored
          exact ⟨placed_nil _, picked_nil _⟩
        · exact placed_restore h.keeps.draft.2 hrestored
  | unchanged | empty | stale | unavailable | cancelled =>
    exact hdropped _ rfl rfl fun held hheld => by cases hheld

theorem sound_acceptEnhancement (h : Sound s) : Sound (acceptEnhancement s) := by
  rw [acceptEnhancement]
  split
  · exact h
  · rename_i held hheld
    split_ifs
    · refine ⟨⟨h.keeps.draft, h.keeps.entries, h.keeps.aside, h.keeps.inFlight, fun _ hother => ?_⟩,
        h.rows, h.listed⟩
      cases hother
      exact h.keeps.proposal held hheld
    · exact sound_closed ⟨h.keeps.proposal held hheld, h.keeps.entries, h.keeps.aside, h.keeps.inFlight,
        by simp⟩ rfl

/-- **Exactly when a step keeps the picks in place.** -/
theorem composerReducer_sound (isLetterOrNumber : ℕ → Bool) (h : Sound s) {action : ComposerAction}
    (hadmissible : Admissible action) (honest : HonestOutcome s action) :
    (CarefulPick isLetterOrNumber s action → Sound (composerReducer isLetterOrNumber s action))
      ∧ (PicksInPlace (composerReducer isLetterOrNumber s action) → CarefulPick isLetterOrNumber s action) := by
  cases action with
  | draft _ cursor => exact step_draft h hadmissible
  | cursor cursor => exact step_cursor h
  | mentionTriggers triggers =>
    exact sound_refresh isLetterOrNumber (s := { s with mentionTriggers := triggers }) (h.keeps.congr rfl) h.rows
  | suggestionReopen =>
    exact sound_refresh isLetterOrNumber (s := { s with dismissed := none }) (h.keeps.congr rfl) h.rows
  | resolve outcome => exact step_resolve h honest
  | suggestionResults request =>
    exact ⟨fun _ => h.answerSuggestions request fun _ => ⟨rfl, rfl, hadmissible⟩, fun _ => trivial⟩
  | suggestionFailed request =>
    exact ⟨fun _ => h.answerSuggestions request fun _ => ⟨rfl, rfl, by simp⟩, fun _ => trivial⟩
  | suggestionMove =>
    refine ⟨fun _ => h.mapSuggestions fun shown hshown => ?_, fun _ => trivial⟩
    split_ifs
    · exact ⟨rfl, rfl, h.rows shown hshown⟩
    · exact ⟨rfl, rfl, h.rows shown hshown⟩
  | suggestionAccept => exact ⟨fun _ => sound_acceptSuggestion h, fun _ => trivial⟩
  | suggestionDismiss =>
    refine ⟨fun _ => ?_, fun _ => trivial⟩
    rw [composerReducer]
    split
    · exact h
    · exact sound_closed (h.keeps.congr rfl) rfl
  | historyPrevious => exact ⟨fun _ => sound_historyPrevious h, fun _ => trivial⟩
  | historyNext => exact ⟨fun _ => sound_historyNext h, fun _ => trivial⟩
  | submit binding attachments => exact ⟨fun _ => sound_submit h binding attachments, fun _ => trivial⟩
  | cancel =>
    refine ⟨fun _ => ?_, fun _ => trivial⟩
    rw [composerReducer]
    split_ifs
    · exact h
    · exact ⟨⟨h.keeps.draft, h.keeps.entries, h.keeps.aside, by simp,
        h.keeps.proposal⟩, h.rows, h.listed⟩
  | removeAttachment =>
    refine ⟨fun _ => ?_, fun _ => trivial⟩
    rw [composerReducer]
    split
    · exact h
    · exact h.congr rfl rfl
  | enhance outcome => exact ⟨fun _ => sound_enhance h outcome, fun _ => trivial⟩
  | acceptEnhancement => exact ⟨fun _ => sound_acceptEnhancement h, fun _ => trivial⟩
  | rejectEnhancement =>
    exact ⟨fun _ => ⟨⟨h.keeps.draft, h.keeps.entries, h.keeps.aside, h.keeps.inFlight,
      fun held hheld => by cases hheld⟩, h.rows, h.listed⟩, fun _ => trivial⟩
  | paste | disable | enable | includePaste | excludePaste | attach | moveAttachment | attachments =>
    exact ⟨fun _ => h.congr rfl rfl, fun _ => trivial⟩

/-! ## Runs -/

/-- The states of a run are in place exactly when its steps meet the condition. -/
theorem picksInPlace_along (h : Sound s) {actions : List ComposerAction}
    (hadmissible : ∀ action ∈ actions, Admissible action)
    (honest : Along (always (composerReducer isLetterOrNumber)) HonestOutcome s actions) :
    (∀ k, PicksInPlace (composed isLetterOrNumber s (actions.take k)))
      ↔ Along (always (composerReducer isLetterOrNumber)) (CarefulPick isLetterOrNumber) s actions := by
  induction actions generalizing s with
  | nil =>
    refine ⟨fun _ => trivial, fun _ k => ?_⟩
    rw [List.take_nil]
    exact h.picksInPlace
  | cons action actions ih =>
    obtain ⟨hfirst, hrest⟩ := List.forall_mem_cons.1 hadmissible
    obtain ⟨honestFirst, honestRest⟩ := along_always_cons.1 honest
    have hstep := composerReducer_sound isLetterOrNumber h hfirst honestFirst
    rw [along_always_cons]
    constructor
    · intro hplace
      have hcareful := hstep.2 (hplace 1)
      exact ⟨hcareful, (ih (hstep.1 hcareful) hrest honestRest).1 fun k => hplace (k + 1)⟩
    · rintro ⟨hcareful, hall⟩ k
      rcases k with _ | k
      · exact h.picksInPlace
      · exact (ih (hstep.1 hcareful) hrest honestRest).2 hall k

/-- **The picks of a draft stay on their own labels** in every state of a run exactly when no list is open
at an accepted outcome, no refresh finds a word with a token in it, and no typed label is committed over a
reported token. -/
theorem picksInPlace_iff (isLetterOrNumber : ℕ → Bool) (actions : List ComposerAction)
    (hadmissible : ∀ action ∈ actions, Admissible action)
    (honest : EachAction isLetterOrNumber HonestOutcome actions) :
    (∀ k, PicksInPlace (composed isLetterOrNumber initialComposerState (actions.take k)))
      ↔ EachAction isLetterOrNumber (CarefulPick isLetterOrNumber) actions :=
  picksInPlace_along initial_sound hadmissible honest

/-- The row of a file. -/
def fileRow : SuggestionRow :=
  ⟨codeUnits "@f", true, none, ⟨.atSign, .file, "f", codeUnits "@f", "workspace", "1"⟩⟩

/-- A mention that is picked, and the draft with it sent. -/
def pickedAndSent : List ComposerAction :=
  [.mentionTriggers [.atSign], .draft (codeUnits "@") none none, .suggestionResults 1 ⟨[fileRow], 1, none⟩,
    .suggestionAccept, .submit none (some [⟨[], .file, codeUnits "f", .ready⟩])]

theorem picksInPlace_iff_pickedAndSent :
    EachAction (fun _ => false) (CarefulPick fun _ => false) pickedAndSent ∧
      ∀ k, PicksInPlace (composed (fun _ => false) initialComposerState (pickedAndSent.take k)) := by
  have hadmissible : ∀ action ∈ pickedAndSent, Admissible action := by
    simp only [pickedAndSent, List.forall_mem_cons, Admissible, List.not_mem_nil, false_implies,
      implies_true, and_true, true_and]
    exact ⟨fun _ h => (nomatch h), rfl⟩
  have honest : EachAction (fun _ => false) HonestOutcome pickedAndSent := by
    refine along_of_forall_mem ?_ _
    simp only [pickedAndSent, List.forall_mem_cons, List.not_mem_nil, false_implies, implies_true, and_true]
    exact ⟨fun _ _ h => (nomatch h), fun _ _ h => (nomatch h), fun _ _ h => (nomatch h),
      fun _ _ h => (nomatch h), fun _ _ h => (nomatch h)⟩
  have hcareful : EachAction (fun _ => false) (CarefulPick fun _ => false) pickedAndSent := by
    decide +kernel
  exact ⟨hcareful, (picksInPlace_iff (fun _ => false) pickedAndSent hadmissible honest).2 hcareful⟩

/-- A list that is opened while a submission is in flight, and picked from after it was accepted. -/
def pickedTooLate : List ComposerAction :=
  [.mentionTriggers [.atSign], .draft (codeUnits "hi") none none, .submit none none,
    .draft (codeUnits "hi @") none none, .suggestionResults 1 ⟨[fileRow], 1, none⟩,
    .resolve (.accepted ⟨none, codeUnits "hi", 1, [], [], []⟩), .suggestionAccept]

/-- **A pick can miss its label**: the list stays open over the text that an accepted outcome clears. -/
theorem not_picksInPlace :
    ¬ ((∀ action ∈ pickedTooLate, Admissible action) →
      ∀ k, PicksInPlace (composed (fun _ => false) initialComposerState (pickedTooLate.take k))) := by
  intro h
  have hadmissible : ∀ action ∈ pickedTooLate, Admissible action := by
    simp only [pickedTooLate, List.forall_mem_cons, Admissible, List.not_mem_nil, false_implies,
      implies_true, and_true, true_and]
    exact ⟨nofun, nofun, rfl⟩
  have hplaced := (h hadmissible 7).placed
  have hlabel : ∀ token ∈ (composed (fun _ => false) initialComposerState (pickedTooLate.take 7)).tokens,
      slice (composed (fun _ => false) initialComposerState (pickedTooLate.take 7)).text token.start token.stop
        = token.label := fun token htoken => (hplaced.onLabel token htoken).labelled
  exact absurd hlabel (by decide +kernel)

end Falryn.Composer
