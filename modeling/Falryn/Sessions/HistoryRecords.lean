import Falryn.Foundation.Result
import Falryn.Recovery.RecoveryRecords
import Falryn.Workspace.TextBytes

/-!
# The records of the semantic history

The evidence a history event carries (`domain/sessions/history.ts`), the items a history reader answers
with (`domain/sessions/history-read-result.ts`), and the world it reads: who may see what, the artifacts,
the streams of events and the restore points that were retired.  All of it may change whenever the
reader waits, so a reader sees one world after the other, `world 0, world 1, …`, and a later one at
every `await`.
-/

namespace Falryn.Sessions.History

open Recovery (isArtifactId isContentDigest ArtifactAvailability)

/-! ## Evidence -/

def contentBytes : ℕ := 4 * 1024 * 1024

def inlineBytes : ℕ := 2048

/-- `HISTORY_LIMITS.page`. -/
def pageEvents : ℕ := 64

def readBytes : ℕ := 65536

/-- `HISTORY_LIMITS.relations`. -/
def maxRelations : ℕ := 32

/-- `fidelity` of evidence with a text. -/
inductive Fidelity where
  | exact | redacted | incomplete
  deriving DecidableEq

/-- Why a text was not kept. -/
inductive OmissionReason where
  | notRecorded | oversized | redacted | storageFailed | cancelled | interrupted | missing | expired
  | corrupt

def OmissionReason.text : OmissionReason → String
  | notRecorded => "not-recorded"
  | oversized => "oversized"
  | redacted => "redacted"
  | storageFailed => "storage-failed"
  | cancelled => "cancelled"
  | interrupted => "interrupted"
  | missing => "missing"
  | expired => "expired"
  | corrupt => "corrupt"

/-- Evidence whose text stands in the event. -/
structure InlineEvidence where
  text : CodeUnits
  digest : String
  byteLength : ℕ
  fidelity : Fidelity

/-- Evidence whose text is an artifact. -/
structure RetainedEvidence where
  artifactId : String
  digest : String
  byteLength : ℕ
  fidelity : Fidelity

/-- The artifact a text was once kept in. -/
structure ArtifactReference where
  artifactId : String
  digest : String
  byteLength : ℕ

/-- Evidence without a text. -/
structure UnavailableEvidence where
  reason : OmissionReason
  reference : Option ArtifactReference

inductive HistoryReference where
  | retained (evidence : RetainedEvidence)
  | unavailable (evidence : UnavailableEvidence)

inductive HistoryEvidence where
  | inline (evidence : InlineEvidence)
  | retained (evidence : RetainedEvidence)
  | unavailable (evidence : UnavailableEvidence)

/-- A reference is evidence. -/
def HistoryReference.evidence : HistoryReference → HistoryEvidence
  | .retained e => .retained e
  | .unavailable e => .unavailable e

/-- The byte length and the digest evidence records of its text. -/
def HistoryEvidence.recorded : HistoryEvidence → Option (ℕ × String)
  | .inline e => some (e.byteLength, e.digest)
  | .retained e => some (e.byteLength, e.digest)
  | .unavailable _ => none

/-- The fidelity of the text of evidence. -/
def HistoryEvidence.fidelity : HistoryEvidence → Option Fidelity
  | .inline e => some e.fidelity
  | .retained e => some e.fidelity
  | .unavailable _ => none

/-- There is a text, and it is neither marked redacted nor marked partial. -/
def HistoryEvidence.IsExact (evidence : HistoryEvidence) : Prop := evidence.fidelity = some .exact

/-- What `historyEvidenceSchema` asks of evidence. -/
def HistoryEvidence.Valid : HistoryEvidence → Prop
  | .inline e => e.text.length ≤ inlineBytes ∧ isContentDigest e.digest = true
      ∧ e.byteLength ≤ inlineBytes ∧ e.fidelity ≠ .incomplete ∧ (encode e.text).length = e.byteLength
  | .retained e => isArtifactId e.artifactId = true ∧ isContentDigest e.digest = true
      ∧ e.byteLength ≤ contentBytes
  | .unavailable e => ∀ reference ∈ e.reference, isArtifactId reference.artifactId = true
      ∧ isContentDigest reference.digest = true ∧ reference.byteLength ≤ contentBytes

/-! ## Events -/

/-- The type of a history payload, with what the reader looks at in it: whether a checkpoint has a
publication, and which restore point is meant. -/
inductive PayloadType where
  | gate | source | message | proposal | result
  | checkpoint (publication : Bool)
  | restorePoint (restorePointId : String)
  deriving DecidableEq

structure HistoryPayload where
  type : PayloadType
  id : String
  generation : ℕ
  evidence : HistoryEvidence
  references : Option (List HistoryReference)

/-- What `historyPayloadSchema` asks of the evidence of a payload. -/
def HistoryPayload.Valid (payload : HistoryPayload) : Prop :=
  payload.evidence.Valid ∧ ∀ references ∈ payload.references,
    references.length ≤ maxRelations ∧ ∀ reference ∈ references, reference.evidence.Valid

/-- The kind of an event, with the payload where the kind is `history.recorded`. -/
inductive EventBody where
  | historyRecorded (payload : HistoryPayload)
  | other (kind : String)

structure RuntimeEvent where
  eventId : String
  streamId : String
  sequence : ℕ
  body : EventBody

/-- The event with other evidence and other references. -/
def RuntimeEvent.withEvidence (event : RuntimeEvent) (payload : HistoryPayload)
    (evidence : HistoryEvidence) (references : Option (List HistoryReference)) : RuntimeEvent :=
  { event with body := .historyRecorded { payload with evidence, references } }

/-! ## What a reader answers -/

inductive HistoryAvailability where
  | exact | reduced | missing | expired | redacted | unauthorized | corrupt | unavailable | cancelled
  deriving DecidableEq

/-- What is said of one reference of an event. -/
structure ReferenceItem where
  artifactId : Option String
  availability : HistoryAvailability
  text : Option CodeUnits
  reason : Option String

structure HistoryReadItem where
  references : Option (List ReferenceItem)
  event : Option RuntimeEvent
  availability : HistoryAvailability
  text : Option CodeUnits
  reason : Option String

/-- The bytes a text takes, none where there is no text. -/
def textSize (text : Option CodeUnits) : ℕ := text.elim 0 fun text => (encode text).length

/-- The bytes of all text of an item. -/
def HistoryReadItem.size (item : HistoryReadItem) : ℕ :=
  textSize item.text + ((item.references.getD []).map fun reference => textSize reference.text).sum

/-- An item that carries no text. -/
abbrev Refusal := { item : HistoryReadItem // item.text = none ∧ item.references = none }

/-! ## The world -/

inductive ArtifactSensitivity where
  | unrestricted | userContent | sensitive | restricted
  deriving DecidableEq

structure ArtifactRecord where
  artifactId : String
  digest : String
  byteLength : ℕ
  sensitivity : ArtifactSensitivity
  availability : ArtifactAvailability

/-- `ArtifactRange`: the length it reports is the length it returns. -/
structure ArtifactRange where
  bytes : List UInt8
  byteLength : ℕ
  reported : byteLength = bytes.length

/-- Why a restore point was retired. -/
inductive RetirementReason where
  | expired | deleted

def RetirementReason.text : RetirementReason → String
  | expired => "expired"
  | deleted => "deleted"

/-- The world as the reader finds it at one moment. -/
structure World where
  authorize : RuntimeEvent → Option ArtifactRecord → Bool
  /-- `artifacts.get`. -/
  get : String → Except Unit (Option ArtifactRecord)
  /-- What `artifacts.readRange` answers when it answers now. -/
  readRange : String → ℕ → ℕ → Option ArtifactRange
  /-- `events.historyRetirement`; `none` where there is no such method or it fails. -/
  historyRetirement : String → String → Option (Option RetirementReason)
  /-- What `authorizeCheckpointProjection` answers when it answers now, an error where it throws.  It
  reads the events and the artifacts a projection was made of and gives no text away, so that any
  answer is possible here. -/
  checkpointFailure : RuntimeEvent → CodeUnits → Except Unit (Option HistoryAvailability)
  /-- `signal.aborted`. -/
  aborted : Bool
  stream : String → List RuntimeEvent
  /-- Why `events.readFrom` fails when it answers now. -/
  failure : Option String

/-- The worlds a reader sees.  A stream is in the order of its sequences, which are positive, and only
ever grows. -/
structure Worlds where
  world : ℕ → World
  positive : ∀ t streamId, ∀ event ∈ (world t).stream streamId, 1 ≤ event.sequence
  ordered : ∀ t streamId, ((world t).stream streamId).Pairwise fun x y => x.sequence < y.sequence
  grows : ∀ t streamId, (world t).stream streamId <+: (world (t + 1)).stream streamId

/-- What `createHistoryReader` is given beside the world. -/
structure Options where
  /-- `digest` of bytes; that of a text is the one of its encoding. -/
  digest : List UInt8 → String
  /-- Whether there is an artifact store. -/
  artifacts : Bool
  redactDeniedEvidence : Bool
  maximumReadBytes : Option ℕ

namespace Worlds

variable {worlds : Worlds} {streamId : String}

theorem stream_mono {t t' : ℕ} (h : t ≤ t') (streamId : String) :
    (worlds.world t).stream streamId <+: (worlds.world t').stream streamId := by
  induction h with
  | refl => exact List.prefix_rfl
  | step _ ih => exact ih.trans (worlds.grows _ streamId)

end Worlds

end Falryn.Sessions.History
