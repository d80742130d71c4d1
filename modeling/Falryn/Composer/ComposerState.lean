import Falryn.Composer.InputHistory
import Falryn.Lib.Reducer

/-!
# The composer

The composer as one state machine (`tui/composer/state.ts`): the draft and its tokens, the submission in
flight, the walk through the history, the open list of suggestions and the proposal that waits.
`composerReducer` is total; each of its cases is a definition of its own.
-/

namespace Falryn.Composer

inductive ComposerPhase
  | editing | recalling | sending | queued | cancelled | disabled
  deriving DecidableEq

structure ComposerSnapshot where
  binding : Option String
  text : CodeUnits
  sequence : ℕ
  attachments : List AttachmentDescriptor
  mentions : List MentionSpan
  tokens : List ComposerToken
  deriving DecidableEq

inductive SubmissionOutcome
  | accepted (snapshot : ComposerSnapshot)
  | unavailable (snapshot : ComposerSnapshot) (reason : CodeUnits) (owner route : String)

def SubmissionOutcome.snapshot : SubmissionOutcome → ComposerSnapshot
  | accepted snapshot => snapshot
  | unavailable snapshot _ _ _ => snapshot

def SubmissionOutcome.isAccepted : SubmissionOutcome → Bool
  | accepted _ => true
  | unavailable _ _ _ _ => false

/-- Why a row cannot be picked. -/
structure RowUnavailable where
  reason : CodeUnits
  repair : Option CodeUnits

structure SuggestionRow where
  label : CodeUnits
  exact : Bool
  unavailable : Option RowUnavailable
  pick : ComposerTokenPick

structure SuggestionPage where
  rows : List SuggestionRow
  total : ℕ
  notice : Option CodeUnits

inductive SuggestionStatus
  | loading | ready | failed
  deriving DecidableEq

structure ComposerSuggestions where
  trigger : MentionTrigger
  start : ℕ
  stop : ℕ
  query : CodeUnits
  request : ℕ
  status : SuggestionStatus
  rows : List SuggestionRow
  total : ℕ
  selected : ℕ
  notice : Option CodeUnits

inductive EnhancementOutcome
  | proposal (original proposed explanation : CodeUnits) (revision : ℕ)
  | unchanged (revision : ℕ)
  | empty
  | stale (revision : ℕ)
  | unavailable (reason : CodeUnits) (owner : String)
  | cancelled

inductive EnhancementStatus
  | ready | stale
  deriving DecidableEq

structure ComposerEnhancement where
  original : CodeUnits
  proposed : CodeUnits
  tokens : List ComposerToken
  explanation : CodeUnits
  draftRevision : ℕ
  status : EnhancementStatus

structure ComposerState where
  text : CodeUnits
  history : InputHistory
  phase : ComposerPhase
  inFlight : Option ComposerSnapshot
  lastOutcome : Option SubmissionOutcome
  submissions : ℕ
  lastPaste : Option PasteNotice
  attachments : List AttachmentDescriptor
  attachmentSeq : ℕ
  draftRevision : ℕ
  enhancement : Option ComposerEnhancement
  lastEnhancement : Option EnhancementOutcome
  tokens : List ComposerToken
  tokenSeq : ℕ
  cursor : ℤ
  caret : Option ℕ
  mentionTriggers : List MentionTrigger
  suggestions : Option ComposerSuggestions
  suggestionRequest : ℕ
  dismissed : Option ℕ
  tokenNotice : Option CodeUnits

/-- `INITIAL_COMPOSER_STATE`. -/
def initialComposerState : ComposerState where
  text := []
  history := emptyHistory
  phase := .editing
  inFlight := none
  lastOutcome := none
  submissions := 0
  lastPaste := none
  attachments := []
  attachmentSeq := 0
  draftRevision := 0
  enhancement := none
  lastEnhancement := none
  tokens := []
  tokenSeq := 0
  cursor := 0
  caret := none
  mentionTriggers := []
  suggestions := none
  suggestionRequest := 0
  dismissed := none
  tokenNotice := none

inductive ComposerAction
  | draft (text : CodeUnits) (cursor : Option ℤ) (tokens : Option (List (String × TokenRange)))
  | cursor (cursor : ℤ)
  | mentionTriggers (triggers : List MentionTrigger)
  | suggestionResults (request : ℕ) (page : SuggestionPage)
  | suggestionFailed (request : ℕ) (reason : CodeUnits)
  | suggestionMove (delta : ℤ)
  | suggestionAccept
  | suggestionDismiss
  | suggestionReopen
  | paste (text : CodeUnits)
  | historyPrevious
  | historyNext
  | submit (binding : Option String) (attachments : Option (List AttachmentDescriptor))
  | resolve (outcome : SubmissionOutcome)
  | cancel
  | disable
  | enable
  | includePaste (attachment : AttachmentDescriptor)
  | excludePaste
  | attach (attachment : AttachmentDescriptor)
  | removeAttachment (id : Option CodeUnits)
  | moveAttachment (id : CodeUnits) (direction : Direction)
  | attachments (attachments : List AttachmentDescriptor)
  | enhance (outcome : EnhancementOutcome)
  | acceptEnhancement
  | rejectEnhancement

/-! ## Suggestions -/

def staleEnhancement (enhancement : Option ComposerEnhancement) (draftRevision : ℕ) :
    Option ComposerEnhancement :=
  enhancement.map fun held =>
    if held.draftRevision = draftRevision then held else { held with status := .stale }

/-- The phase after something was typed: typing ends a recall. -/
def phaseAfterTyping (phase : ComposerPhase) : ComposerPhase := if phase = .recalling then .editing else phase

/-- The open list is for a match. -/
def ComposerSuggestions.IsFor (shown : ComposerSuggestions) (found : MentionTriggerMatch) : Prop :=
  shown.trigger = found.trigger ∧ shown.start = found.start ∧ shown.query = found.query

instance (shown : ComposerSuggestions) (found : MentionTriggerMatch) : Decidable (shown.IsFor found) := by
  unfold ComposerSuggestions.IsFor
  infer_instance

/-- The list for a new match: the rows of the last one stay visible while it loads. -/
def loadingSuggestions (last : Option ComposerSuggestions) (found : MentionTriggerMatch) (request : ℕ) :
    ComposerSuggestions where
  trigger := found.trigger
  start := found.start
  stop := found.stop
  query := found.query
  request := request
  status := .loading
  rows := (last.map (·.rows)).getD []
  total := (last.map (·.total)).getD 0
  selected := 0
  notice := none

/-- A new match becomes a new request. -/
def ComposerState.request (s : ComposerState) (found : MentionTriggerMatch) : ComposerState :=
  { s with
    dismissed := none
    suggestionRequest := s.suggestionRequest + 1
    suggestions := some (loadingSuggestions s.suggestions found (s.suggestionRequest + 1)) }

/-- `refreshSuggestions` for what was detected. -/
def ComposerState.showSuggestions (s : ComposerState) : Option MentionTriggerMatch → ComposerState
  | none => { s with suggestions := none, dismissed := none }
  | some found =>
    if some found.start = s.dismissed then { s with suggestions := none }
    else
      match s.suggestions with
      | none => s.request found
      | some shown =>
        if shown.IsFor found then { s with suggestions := some { shown with stop := found.stop } }
        else s.request found

section Reducer

-- `\p{L}` and `\p{N}` of the Unicode database.
variable (isLetterOrNumber : ℕ → Bool)

/-- What `refreshSuggestions` detects. -/
def ComposerState.detected (s : ComposerState) : Option MentionTriggerMatch :=
  if s.mentionTriggers = [] ∨ s.phase = .disabled then none
  else detectMentionTrigger isLetterOrNumber s.text s.cursor s.mentionTriggers s.tokens

def refreshSuggestions (s : ComposerState) : ComposerState :=
  s.showSuggestions (s.detected isLetterOrNumber)

end Reducer

/-! ## Picks -/

/-- `tok-` and a number. -/
def tokenId (number : ℕ) : String := "tok-" ++ Nat.repr number

/-- The characters that end a label. -/
def isSeparator (u : UInt16) : Bool :=
  isSpace u || (['.', ',', ';', ':', '!', '?', ')', ']', '}'].map unit).contains u

/-- The one row of a list that is exact and available. -/
def exactRow (shown : ComposerSuggestions) : Option SuggestionRow :=
  match shown.rows.filter fun row => row.exact && row.unavailable.isNone with
  | [row] => some row
  | _ => none

/-- A single separator was typed at the end of the open range. -/
def TypedSeparator (before after : CodeUnits) (stop : ℕ) : Prop :=
  after.length = before.length + 1 ∧ (after[stop]?).any isSeparator = true
    ∧ after.take stop = before.take stop ∧ after.drop (stop + 1) = before.drop stop

instance (before after : CodeUnits) (stop : ℕ) : Decidable (TypedSeparator before after stop) := by
  unfold TypedSeparator
  infer_instance

/-- The row whose label was typed, and the list it is in. -/
def typedLabel (before after : ComposerState) : Option (ComposerSuggestions × SuggestionRow) :=
  before.suggestions.bind fun shown =>
    if shown.status ≠ .ready then none
    else
      (exactRow shown).bind fun row =>
        if slice before.text shown.start shown.stop = row.label ∧ TypedSeparator before.text after.text shown.stop
        then some (shown, row) else none

/-- One more token in a draft. -/
def ComposerState.addToken (s : ComposerState) (tokens : List ComposerToken) (pick : ComposerTokenPick)
    (start stop : ℕ) : ComposerState :=
  { s with
    tokenSeq := s.tokenSeq + 1
    tokens := sortByStart (tokens ++ [pick.place (tokenId (s.tokenSeq + 1)) start stop])
    tokenNotice := none
    suggestions := none }

def commitTypedLabel (before after : ComposerState) : ComposerState :=
  match typedLabel before after with
  | none => after
  | some (shown, row) =>
    match tokenLimitReason after.tokens row.pick with
    | some limit => { after with tokenNotice := some limit }
    | none => after.addToken after.tokens row.pick shown.start (shown.start + row.label.length)

/-- The tokens behind an inserted label move with the text. -/
def shiftTokens (tokens : List ComposerToken) (stop : ℕ) (shift : ℤ) : List ComposerToken :=
  tokens.map fun item =>
    if item.start ≥ stop then item.moved (item.start + shift).toNat (item.stop + shift).toNat else item

def insertPick (s : ComposerState) (pick : ComposerTokenPick) (start stop : ℕ) : ComposerState :=
  match tokenLimitReason s.tokens pick with
  | some limit => { s with tokenNotice := some limit }
  | none =>
    let inserted := insertTokenText s.text start stop pick.label
    let moved := shiftTokens s.tokens stop ((inserted.text.length : ℤ) - s.text.length)
    { s.addToken moved pick inserted.start inserted.stop with
      text := inserted.text
      cursor := inserted.cursor
      caret := some inserted.cursor
      draftRevision := s.draftRevision + 1
      dismissed := none
      phase := phaseAfterTyping s.phase
      enhancement := staleEnhancement s.enhancement (s.draftRevision + 1) }

/-- The notice of a row that cannot be picked. -/
def unavailableNotice (row : SuggestionRow) (why : RowUnavailable) : CodeUnits :=
  row.label ++ codeUnits ": " ++ why.reason
    ++ (match why.repair with
      | none => []
      | some repair => codeUnits " (" ++ repair ++ codeUnits ")")
    ++ codeUnits "."

/-- The case `suggestion-accept`. -/
def acceptSuggestion (s : ComposerState) : ComposerState :=
  match s.suggestions with
  | none => s
  | some shown =>
    match shown.rows[shown.selected]? with
    | none => s
    | some row =>
      match row.unavailable with
      | some why => { s with tokenNotice := some (unavailableNotice row why) }
      | none => insertPick s row.pick shown.start shown.stop

/-! ## The draft -/

/-- The notice of tokens that were edited. -/
def demotedNotice (demoted : List ComposerToken) : CodeUnits :=
  (codeUnits ", ").intercalate (demoted.map (·.label)) ++ codeUnits " "
    ++ (if demoted.length = 1 then codeUnits "is" else codeUnits "are") ++ codeUnits " now plain text."

/-- The cursor that a change of the draft reports. -/
def reportedCursor (text : CodeUnits) (cursor : Option ℤ) : ℤ := min (cursor.getD text.length) text.length

/-- The draft with another text, before a typed label is looked for. -/
def ComposerState.withText (s : ComposerState) (text : CodeUnits) (cursor : ℤ)
    (ranges : Option (List (String × TokenRange))) : ComposerState :=
  { s with
    text
    cursor
    caret := none
    draftRevision := s.draftRevision + 1
    tokens := (reconcileTokens s.tokens text ranges).tokens
    tokenNotice :=
      if (reconcileTokens s.tokens text ranges).demoted = [] then s.tokenNotice
      else some (demotedNotice (reconcileTokens s.tokens text ranges).demoted)
    phase := phaseAfterTyping s.phase
    enhancement := staleEnhancement s.enhancement (s.draftRevision + 1) }

/-- The case `draft`. -/
def editDraft (isLetterOrNumber : ℕ → Bool) (s : ComposerState) (text : CodeUnits) (cursor : Option ℤ)
    (ranges : Option (List (String × TokenRange))) : ComposerState :=
  if text = s.text then
    if reportedCursor text cursor = s.cursor then s
    else refreshSuggestions isLetterOrNumber { s with cursor := reportedCursor text cursor }
  else
    refreshSuggestions isLetterOrNumber
      (commitTypedLabel s (s.withText text (reportedCursor text cursor) ranges))

/-- The case `cursor`. -/
def moveCursor (isLetterOrNumber : ℕ → Bool) (s : ComposerState) (cursor : ℤ) : ComposerState :=
  let cursor := max 0 (min cursor s.text.length)
  if cursor = s.cursor then s else refreshSuggestions isLetterOrNumber { s with cursor }

/-- What a walk puts into the composer. -/
def ComposerState.recall (s : ComposerState) (history : InputHistory) (entry : HistoryEntry)
    (phase : ComposerPhase) : ComposerState :=
  { s with
    history
    text := entry.text
    tokens := entry.tokens
    cursor := entry.text.length
    caret := none
    suggestions := none
    dismissed := none
    draftRevision := s.draftRevision + 1
    phase
    enhancement := staleEnhancement s.enhancement (s.draftRevision + 1) }

/-- The case `history-previous`. -/
def historyPrevious (s : ComposerState) : ComposerState :=
  match recallPrevious s.history ⟨s.text, s.tokens⟩ with
  | none => s
  | some (history, entry) => s.recall history entry .recalling

/-- The case `history-next`. -/
def historyNext (s : ComposerState) : ComposerState :=
  match recallNext s.history with
  | none => s
  | some (history, entry) => s.recall history entry (if history.recalled = none then .editing else .recalling)

/-! ## Submissions -/

/-- The snapshot that `submit` takes. -/
def ComposerState.snapshot (s : ComposerState) (binding : Option String)
    (attachments : List AttachmentDescriptor) : ComposerSnapshot :=
  ⟨binding, s.text, s.submissions + 1, attachments, parseMentions s.text, s.tokens⟩

/-- There is nothing to send. -/
def NothingToSend (s : ComposerState) (attachments : List AttachmentDescriptor) : Prop :=
  isBlank s.text = true ∧ attachments = []

/-- A mention is unresolved, or an attachment is not ready. -/
def Blocked (s : ComposerState) (attachments : List AttachmentDescriptor) : Prop :=
  (parseMentions s.text).filter (isUnresolved attachments) ≠ [] ∨ attachments.any isBlockingAttachment = true

instance (s : ComposerState) (attachments : List AttachmentDescriptor) : Decidable (NothingToSend s attachments) := by
  unfold NothingToSend
  infer_instance

instance (s : ComposerState) (attachments : List AttachmentDescriptor) : Decidable (Blocked s attachments) := by
  unfold Blocked
  infer_instance

/-- Why a submission is blocked. -/
def blockedReason (s : ComposerState) (attachments : List AttachmentDescriptor) : CodeUnits :=
  match (parseMentions s.text).filter (isUnresolved attachments) with
  | [] => describeBlockingReason attachments
  | mention :: _ =>
    mention.identity
      ++ (if mention.kind = .unsupported then codeUnits " is unsupported" else codeUnits " is unresolved")

/-- The case `submit` for the attachments that it is about. -/
def submitWith (s : ComposerState) (binding : Option String) (attachments : List AttachmentDescriptor) :
    ComposerState :=
  if NothingToSend s attachments then s
  else if Blocked s attachments then
    { s with
      attachments
      lastOutcome := some (.unavailable (s.snapshot binding attachments) (blockedReason s attachments) "#278"
        "composer.removeAttachment") }
  else
    { s with
      attachments
      inFlight := some (s.snapshot binding attachments)
      submissions := s.submissions + 1
      phase := .sending
      suggestions := none
      enhancement := none
      lastEnhancement := none }

/-- The case `submit`. -/
def submit (s : ComposerState) (binding : Option String) (attachments : Option (List AttachmentDescriptor)) :
    ComposerState :=
  if s.phase = .disabled then s else submitWith s binding (attachments.getD s.attachments)

/-- The case `resolve` for an outcome that is accepted: the draft is cleared. -/
def acceptOutcome (s : ComposerState) (outcome : SubmissionOutcome) : ComposerState :=
  { s with
    inFlight := none
    lastOutcome := some outcome
    phase := .editing
    history := remember s.history outcome.snapshot.text outcome.snapshot.tokens
    text := []
    tokens := []
    cursor := 0
    tokenNotice := none
    attachments := []
    enhancement := none
    lastEnhancement := none
    draftRevision := s.draftRevision + 1 }

/-- The case `resolve`. -/
def resolveOutcome (s : ComposerState) (outcome : SubmissionOutcome) : ComposerState :=
  if s.inFlight = none then s
  else if outcome.isAccepted then acceptOutcome s outcome
  else { s with inFlight := none, lastOutcome := some outcome, phase := .editing }

/-! ## Enhancements -/

/-- A proposal for the draft as it is, its placeholders bound again. -/
def holdProposal (s : ComposerState) (proposed explanation : CodeUnits) (revision : ℕ) : ComposerState :=
  match (if s.tokens = [] then some (proposed, []) else restoreTokenPlaceholders proposed s.tokens) with
  | none =>
    { s with
      lastOutcome := none
      enhancement := none
      lastEnhancement := some (.unavailable
        (codeUnits "the proposal dropped or changed a mention, so it cannot be applied") "#1206") }
  | some (text, tokens) =>
    { s with
      lastOutcome := none
      lastEnhancement := none
      enhancement := some ⟨s.text, text, tokens, explanation, revision, .ready⟩ }

def applyEnhancementOutcome (s : ComposerState) : EnhancementOutcome → ComposerState
  | .proposal _ proposed explanation revision =>
    if revision ≠ s.draftRevision then
      { s with lastOutcome := none, lastEnhancement := some (.stale s.draftRevision), enhancement := none }
    else holdProposal s proposed explanation revision
  | outcome => { s with lastOutcome := none, enhancement := none, lastEnhancement := some outcome }

/-- The case `accept-enhancement`. -/
def acceptEnhancement (s : ComposerState) : ComposerState :=
  match s.enhancement with
  | none => s
  | some held =>
    if held.status ≠ .ready ∨ held.draftRevision ≠ s.draftRevision then
      { s with
        enhancement := some { held with status := .stale }
        lastEnhancement := some (.stale s.draftRevision) }
    else
      { s with
        text := held.proposed
        tokens := held.tokens
        cursor := held.proposed.length
        caret := none
        suggestions := none
        draftRevision := s.draftRevision + 1
        enhancement := none
        lastEnhancement := none
        lastOutcome := none
        lastPaste := none }

/-! ## Attachments -/

/-- The id of an attachment, or a new one. -/
def withId (attachment : AttachmentDescriptor) (seq : ℕ) : AttachmentDescriptor :=
  if attachment.id = [] then { attachment with id := codeUnits ("att-" ++ Nat.repr seq) } else attachment

/-- The case `attach`. -/
def attachHandle (s : ComposerState) (attachment : AttachmentDescriptor) : ComposerState :=
  { s with
    attachments := upsertAttachment s.attachments (withId attachment (s.attachmentSeq + 1))
    attachmentSeq := s.attachmentSeq + 1 }

/-- The attachment to remove: the last one when none is named. -/
def removedId (s : ComposerState) (id : Option CodeUnits) : Option CodeUnits :=
  if s.attachments = [] then none else id.orElse fun _ => s.attachments.getLast?.map (·.id)

/-! ## The reducer -/

/-- The open list, changed. -/
def ComposerState.mapSuggestions (s : ComposerState) (f : ComposerSuggestions → ComposerSuggestions) :
    ComposerState :=
  { s with suggestions := s.suggestions.map f }

/-- The open list, changed if it is for a request. -/
def ComposerState.answerSuggestions (s : ComposerState) (request : ℕ)
    (f : ComposerSuggestions → ComposerSuggestions) : ComposerState :=
  s.mapSuggestions fun shown => if shown.request = request then f shown else shown

/-- The selected row after a move, around the ends of the list. -/
def movedSelection (shown : ComposerSuggestions) (delta : ℤ) : ℕ :=
  ((shown.selected + delta) % (shown.rows.length : ℤ)).toNat

def composerReducer (isLetterOrNumber : ℕ → Bool) (s : ComposerState) : ComposerAction → ComposerState
  | .draft text cursor tokens => editDraft isLetterOrNumber s text cursor tokens
  | .cursor cursor => moveCursor isLetterOrNumber s cursor
  | .mentionTriggers triggers => refreshSuggestions isLetterOrNumber { s with mentionTriggers := triggers }
  | .suggestionResults request page =>
    s.answerSuggestions request fun shown =>
      { shown with
        status := .ready
        rows := page.rows
        total := page.total
        notice := page.notice
        selected := min shown.selected (page.rows.length - 1) }
  | .suggestionFailed request reason =>
    s.answerSuggestions request fun shown =>
      { shown with status := .failed, rows := [], total := 0, notice := some reason }
  | .suggestionMove delta =>
    s.mapSuggestions fun shown =>
      if shown.rows = [] then shown else { shown with selected := movedSelection shown delta }
  | .suggestionAccept => acceptSuggestion s
  | .suggestionDismiss =>
    match s.suggestions with
    | none => s
    | some shown => { s with suggestions := none, dismissed := some shown.start }
  | .suggestionReopen => refreshSuggestions isLetterOrNumber { s with dismissed := none }
  | .paste text =>
    { s with
      phase := if (pasteNotice text).isInline then phaseAfterTyping s.phase else s.phase
      lastPaste := some (pasteNotice text) }
  | .historyPrevious => historyPrevious s
  | .historyNext => historyNext s
  | .submit binding attachments => submit s binding attachments
  | .resolve outcome => resolveOutcome s outcome
  | .cancel => if s.inFlight = none then s else { s with inFlight := none, phase := .cancelled }
  | .disable => { s with phase := .disabled }
  | .enable => { s with phase := if s.phase = .disabled then .editing else s.phase }
  | .includePaste attachment => { attachHandle s attachment with lastPaste := none, lastOutcome := none }
  | .excludePaste => { s with lastPaste := none }
  | .attach attachment => attachHandle s attachment
  | .removeAttachment id =>
    match removedId s id with
    | none => s
    | some named => { s with attachments := removeAttachment s.attachments named }
  | .moveAttachment id direction => { s with attachments := moveAttachment s.attachments id direction }
  | .attachments attachments => { s with attachments }
  | .enhance outcome => applyEnhancementOutcome s outcome
  | .acceptEnhancement => acceptEnhancement s
  | .rejectEnhancement => { s with enhancement := none, lastEnhancement := none }

/-- The state after actions, one after the other. -/
def composed (isLetterOrNumber : ℕ → Bool) (s : ComposerState) (actions : List ComposerAction) : ComposerState :=
  actions.foldl (composerReducer isLetterOrNumber) s

/-- Every action finds a state in which a condition holds of it. -/
def EachAction (isLetterOrNumber : ℕ → Bool) (P : ComposerState → ComposerAction → Prop)
    (actions : List ComposerAction) : Prop :=
  StateMachine.Along (StateMachine.always (composerReducer isLetterOrNumber)) P initialComposerState actions

instance (isLetterOrNumber : ℕ → Bool) (P : ComposerState → ComposerAction → Prop) [∀ s action, Decidable (P s action)]
    (actions : List ComposerAction) : Decidable (EachAction isLetterOrNumber P actions) := by
  unfold EachAction
  infer_instance

end Falryn.Composer
