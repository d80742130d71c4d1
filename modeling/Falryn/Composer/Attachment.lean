import Falryn.Composer.MentionTokens

/-!
# Attachments and mentions of a draft

The handles that ride a submission, and the `@` mentions that the submission has to resolve
(`domain/context/context-attachment.ts`).  A descriptor also has sizes, a digest, a revision and a media
type, which nothing here reads.
-/

namespace Falryn.Composer

/-- `ATTACHMENT_KINDS`. -/
inductive AttachmentKind
  | paste | file | artifact | transcript
  deriving DecidableEq

/-- `ATTACHMENT_STATUSES`. -/
inductive AttachmentStatus
  | ready | unavailable | stale | changed | oversized | unsupported | inaccessible | partlyResolved
  deriving DecidableEq

structure AttachmentDescriptor where
  id : CodeUnits
  kind : AttachmentKind
  identity : CodeUnits
  status : AttachmentStatus
  deriving DecidableEq

/-- `MENTION_KINDS`. -/
inductive MentionKind
  | file | paste | artifact | transcript | unsupported
  deriving DecidableEq

structure MentionSpan where
  start : ℕ
  stop : ℕ
  raw : CodeUnits
  kind : MentionKind
  identity : CodeUnits
  deriving DecidableEq

/-! ## Mentions -/

def isAsciiLetter (u : UInt16) : Bool :=
  (unit 'a' ≤ u && u ≤ unit 'z') || (unit 'A' ≤ u && u ≤ unit 'Z')

/-- `/[A-Za-z0-9_]/` of one code unit. -/
def isWord (u : UInt16) : Bool := isAsciiLetter u || isDigit u || u == unit '_'

/-- `MENTION_TOKEN` of one code unit. -/
def isMentionUnit (u : UInt16) : Bool := isWord u || ['.', '/', ':', '-'].any fun c => u == unit c

def mentionKindOf (identity : CodeUnits) : MentionKind :=
  if (codeUnits "session:").isPrefixOf identity || (codeUnits "mcp:").isPrefixOf identity then .unsupported
  else if (codeUnits "paste:").isPrefixOf identity then .paste
  else if (codeUnits "artifact:").isPrefixOf identity then .artifact
  else if (codeUnits "transcript:").isPrefixOf identity then .transcript
  else .file

/-- The mention that starts at a place: an "@" after no letter, digit or "_", and before a name. -/
def mentionAt (text : CodeUnits) (index : ℕ) : Option MentionSpan :=
  let identity := (text.drop (index + 1)).takeWhile isMentionUnit
  if text[index]? ≠ some (unit '@') then none
  else if 0 < index ∧ (text[index - 1]?).any isWord = true then none
  else if identity = [] then none
  else some ⟨index, index + 1 + identity.length, unit '@' :: identity, mentionKindOf identity, identity⟩

def parseMentions (text : CodeUnits) : List MentionSpan := (List.range text.length).filterMap (mentionAt text)

/-! ## Attachments -/

def isBlockingAttachment (attachment : AttachmentDescriptor) : Bool := attachment.status ≠ .ready

def describeAttachmentStatus : AttachmentStatus → CodeUnits
  | .ready => codeUnits "ready"
  | .unavailable => codeUnits "unavailable"
  | .stale => codeUnits "stale"
  | .changed => codeUnits "changed"
  | .oversized => codeUnits "oversized"
  | .unsupported => codeUnits "unsupported"
  | .inaccessible => codeUnits "inaccessible"
  | .partlyResolved => codeUnits "partially resolved"

def describeBlockingReason (attachments : List AttachmentDescriptor) : CodeUnits :=
  match attachments.find? isBlockingAttachment with
  | none => codeUnits "an attachment is not ready"
  | some first => first.identity ++ codeUnits " is " ++ describeAttachmentStatus first.status

/-- The kind and identity that `attachmentKey` joins; no kind has a colon. -/
def attachmentKey (attachment : AttachmentDescriptor) : AttachmentKind × CodeUnits :=
  (attachment.kind, attachment.identity)

def upsertAttachment (attachments : List AttachmentDescriptor) (incoming : AttachmentDescriptor) :
    List AttachmentDescriptor :=
  match attachments.findIdx? fun item => decide (attachmentKey item = attachmentKey incoming) with
  | none => attachments ++ [incoming]
  | some index => attachments.set index incoming

def removeAttachment (attachments : List AttachmentDescriptor) (id : CodeUnits) : List AttachmentDescriptor :=
  attachments.filter fun item => decide (item.id ≠ id)

/-- Where `moveAttachment` moves. -/
inductive Direction
  | earlier | later

/-- The neighbour that an attachment changes places with. -/
def neighbour (index : ℕ) : Direction → Option ℕ
  | .earlier => if index = 0 then none else some (index - 1)
  | .later => some (index + 1)

/-- Two attachments change places. -/
def swapAttachments (attachments : List AttachmentDescriptor) (index swapWith : ℕ) : List AttachmentDescriptor :=
  match attachments[index]?, attachments[swapWith]? with
  | some current, some other => (attachments.set index other).set swapWith current
  | _, _ => attachments

def moveAttachment (attachments : List AttachmentDescriptor) (id : CodeUnits) (direction : Direction) :
    List AttachmentDescriptor :=
  match attachments.findIdx? fun item => decide (item.id = id) with
  | none => attachments
  | some index =>
    match neighbour index direction with
    | none => attachments
    | some swapWith => swapAttachments attachments index swapWith

/-- A mention that no attachment resolves, as `submit` asks. -/
def isUnresolved (attachments : List AttachmentDescriptor) (mention : MentionSpan) : Bool :=
  match mention.kind with
  | .unsupported => true
  | .file => !attachments.any fun item => decide (item.kind = .file ∧ item.identity = mention.identity)
  | _ => !attachments.any fun item => decide (item.identity = mention.identity ∨ item.id = mention.identity)

end Falryn.Composer
