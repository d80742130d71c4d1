import Falryn.Lib.Scan
import Falryn.Recovery.BlobStore
import Falryn.Recovery.RecoveryRecords

/-!
# Startup recovery

One pass over what an earlier run left behind (`data/lifecycle/recovery.ts`).  The database answers, except
that the runs may be unreadable; each call of the blob store may fail, and the pass may be aborted wherever it
asks.  An artifact is examined at most once in a pass, so a call is named by the artifact it is made for.
-/

namespace Falryn.Recovery

open Orchestration

/-- `MAX_RECOVERED_RECORDS`. -/
def maxRecoveredRecords : ℕ := 10000

/-- `MAX_RECOVERED_ARTIFACTS`. -/
def maxRecoveredArtifacts : ℕ := 10000

/-- `MAX_RECOVERED_BLOBS`. -/
def maxRecoveredBlobs : ℕ := 10000

/-- `MAX_RECOVERY_VERIFIED_BYTES`. -/
def maxRecoveryVerifiedBytes : ℕ := 64 * 1024 * 1024

/-- `DEFAULT_RECOVERY_WINDOW_MS`. -/
def defaultRecoveryWindowMs : ℤ := 5 * 60000

/-! ## What a pass reports -/

/-- The outcomes that move a record. -/
inductive Verdict where
  | available
  | quarantined
  | missing
  deriving DecidableEq

inductive ArtifactRecoveryOutcome where
  | decided (verdict : Verdict)
  | leftForInspection
  deriving DecidableEq

inductive TemporaryBlobOutcome where
  | discarded
  | leftForInspection
  | failed
  deriving DecidableEq

/-- `MeasurementCompleteness`: complete, or partial. -/
inductive MeasurementCompleteness where
  | complete
  | partially

/-- What a probe found beside the database. -/
structure CrashSignals where
  writeAheadLogPresent : Bool
  sharedMemoryPresent : Bool

/-- One pass's mutable tally. -/
structure Tally where
  markedUncertain : ℕ
  artifactsExamined : ℕ
  temporaryBlobsExamined : ℕ
  failed : ℕ
  verifiedBytes : ℕ
  completeness : MeasurementCompleteness
  artifacts : OrderedMap ArtifactRecoveryOutcome ℕ
  blobs : OrderedMap TemporaryBlobOutcome ℕ

structure RecoveryReport where
  runId : String
  crashSignals : CrashSignals
  markedUncertain : ℕ
  artifactsExamined : ℕ
  artifacts : List (ArtifactRecoveryOutcome × ℕ)
  temporaryBlobsExamined : ℕ
  temporaryBlobs : List (TemporaryBlobOutcome × ℕ)
  failed : ℕ
  completeness : MeasurementCompleteness
  effect : EffectCertainty

/-- `isCompleteRecovery`. -/
def RecoveryReport.IsComplete (report : RecoveryReport) : Prop :=
  report.completeness = .complete ∧ report.failed = 0

/-! ## What a pass works on -/

/-- The database a pass is started on. -/
structure Database where
  runs : OrderedMap String RunRow
  /-- Whether `SELECT_RUNS` answers. -/
  runsReadable : Bool
  artifacts : ArtifactTable
  records : RecordEntity → List RecordRow

/-- The calls a pass makes to the blob store. -/
inductive BlobCall where
  | contentLength (artifactId : String)
  | readContent (artifactId : String) (offset : ℕ)
  | setAside (artifactId : String)
  | temporaryLength (artifactId : String)
  | discardTemporary (artifactId : String)
  | listTemporary
  | removeTemporary (artifactId : String)
  deriving DecidableEq

/-- The places where a pass asks whether it was aborted. -/
inductive Checkpoint where
  | entity (entity : RecordEntity)
  | finalized (artifactId : String)
  | reserved (artifactId : String)
  | temporary (artifactId : String)

/-- Which calls fail, in which order the device lists the blobs in flight, and where the pass is found
aborted. -/
structure Faults where
  fails : BlobCall → Bool
  inFlight : Blobs → List String
  perm : ∀ blobs, (inFlight blobs).Perm blobs.temporaries
  aborted : Checkpoint → Bool

structure RecoveryOptions where
  /-- This run, which is never treated as an earlier one. -/
  runId : String
  now : ℤ
  crashSignals : CrashSignals
  recoveryWindowMs : ℤ

/-- The state of a pass: the tables it writes, the device, the tally, and what it decided about which artifact,
in order. -/
structure Recovering where
  artifacts : ArtifactTable
  records : RecordEntity → List RecordRow
  blobs : Blobs
  tally : Tally
  verdicts : List (ReservedArtifact × Verdict)

namespace Recovering

/-- `record`. -/
def tallied {κ : Type} [DecidableEq κ] (counts : OrderedMap κ ℕ) (outcome : κ) : OrderedMap κ ℕ :=
  counts.set outcome ((counts.get outcome).getD 0 + 1)

/-- `tally.completeness = "partial"`. -/
def halted (s : Recovering) : Recovering := { s with tally.completeness := .partially }

/-- `tally.failed += 1`. -/
def failedOne (s : Recovering) : Recovering := { s with tally.failed := s.tally.failed + 1 }

/-- The artifact is left for inspection. -/
def leftArtifact (s : Recovering) : Recovering :=
  { s with tally.artifacts := tallied s.tally.artifacts .leftForInspection }

/-- What happened to a blob in flight. -/
def blobOutcome (s : Recovering) (outcome : TemporaryBlobOutcome) : Recovering :=
  { s with tally.blobs := tallied s.tally.blobs outcome }

/-- `tally.artifactsExamined += 1`. -/
def examined (s : Recovering) : Recovering :=
  { s with tally.artifactsExamined := s.tally.artifactsExamined + 1 }

/-- `tally.temporaryBlobsExamined += 1`. -/
def examinedBlob (s : Recovering) : Recovering :=
  { s with tally.temporaryBlobsExamined := s.tally.temporaryBlobsExamined + 1 }

/-- `tally.verifiedBytes += byteLength`. -/
def verifying (s : Recovering) (byteLength : ℕ) : Recovering :=
  { s with tally.verifiedBytes := s.tally.verifiedBytes + byteLength }

/-- The bytes of an artifact are set aside. -/
def setAside (s : Recovering) (digest : String) (bytes : Bytes) : Recovering :=
  { s with blobs := s.blobs.finalize (.content digest) (.quarantine digest) bytes }

/-- A blob in flight is removed. -/
def removed (s : Recovering) (artifactId : String) : Recovering :=
  { s with blobs := s.blobs.delete (.temporary artifactId) }

/-- What was decided about an artifact is remembered. -/
def decided (s : Recovering) (artifact : ReservedArtifact) (verdict : Verdict) : Recovering :=
  { s with verdicts := s.verdicts ++ [(artifact, verdict)] }

end Recovering

/-- The availability a verdict gives. -/
def Verdict.availability : Verdict → ArtifactAvailability
  | available => .available
  | quarantined => .quarantined
  | missing => .missing

/-! ## Who may still be writing -/

/-- `readRuns`: all runs, or none where a row cannot be read or parsed. -/
def readRuns (database : Database) : Option (List RunRecord) :=
  if database.runsReadable then database.runs.entries.mapM parseRunRecord else none

def mayStillBeWritten (owner : Option String) (runs : List RunRecord) (thisRun : String) : Bool :=
  match owner with
  | none => false
  | some owner =>
    owner = thisRun || (runs.find? fun candidate => candidate.runId = owner).any (isPresumedLive · thisRun)

def noOtherRunOpen (runs : List RunRecord) (thisRun : String) : Bool :=
  !runs.any fun run => run.endedAt = none && run.runId ≠ thisRun

/-- `windowElapsed`: every other run started long enough ago. -/
def windowElapsed (options : RecoveryOptions) (runs : List RunRecord) : Bool :=
  (runs.filter fun run => run.runId ≠ options.runId).all fun run =>
    options.recoveryWindowMs ≤ options.now - run.startedAt

/-- Nothing on this machine is past startup. -/
def isQuiet (options : RecoveryOptions) (runs : List RunRecord) : Bool :=
  noOtherRunOpen runs options.runId && windowElapsed options runs

/-- `ownerOfBlob`: the run a blob in flight is attributed to, if any. -/
def ownerOfBlob (artifacts : ArtifactTable) (artifactId : String) : Option String :=
  ((artifacts.get artifactId).bind ArtifactRow.runId).bind identifier?

/-! ## Records -/

/-- `completionFor` with `applyCompletion`, and `CLOSE_SESSION`: one record becomes uncertain, unless its
identity is none. -/
def completeOne (entity : RecordEntity) (now : ℤ) (rows : List RecordRow) (id : String) : List RecordRow :=
  if entity = .session then
    rows.map fun row =>
      if row.id = id ∧ row.completedAt = none then ⟨row.id, some now, some .uncertain⟩ else row
  else if isIdentifier id then
    rows.map fun row => if row.id = id then ⟨row.id, some now, some .uncertain⟩ else row
  else rows

/-- How many records one completion changed. -/
def completedBy (entity : RecordEntity) (rows : List RecordRow) (id : String) : ℕ :=
  if entity = .session then rows.countP fun row => row.id = id ∧ row.completedAt = none
  else if isIdentifier id ∧ ∃ row ∈ rows, row.id = id then 1 else 0

/-- `completeAll`, inside one transaction. -/
def completeAll (entity : RecordEntity) (now : ℤ) (rows : List RecordRow) (identities : List String) :
    List RecordRow × ℕ :=
  identities.foldl (fun (rows, changed) id => (completeOne entity now rows id, changed + completedBy entity rows id))
    (rows, 0)

/-- The identities of the records of an entity that have no completion. -/
def unfinished (rows : List RecordRow) : List String :=
  ((rows.filter fun row => row.completedAt = none).take maxRecoveredRecords).map RecordRow.id

/-- One entity of `completeInterruptedRecords`. -/
def completeEntity (now : ℤ) (s : Recovering) (entity : RecordEntity) : Recovering :=
  { s with
    records := Function.update s.records entity
      (completeAll entity now (s.records entity) (unfinished (s.records entity))).1
    tally.completeness :=
      if maxRecoveredRecords ≤ (unfinished (s.records entity)).length then .partially else s.tally.completeness
    tally.markedUncertain := s.tally.markedUncertain
      + (completeAll entity now (s.records entity) (unfinished (s.records entity))).2 }

def completeInterruptedRecords (options : RecoveryOptions) (faults : Faults) (s : Recovering) : Recovering :=
  Scan.scan (fun entity => faults.aborted (.entity entity)) Recovering.halted (completeEntity options.now)
    nonTerminal s

/-! ## Artifacts -/

namespace Recovering

/-- The row of an artifact, if it still has the availability it was read with. -/
def heldRow (s : Recovering) (was : ArtifactAvailability) (artifactId : String) : Option ArtifactRow :=
  (s.artifacts.get artifactId).filter fun row => row.availability = was

/-- `MOVE_ARTIFACT` and `MOVE_FINALIZED`, counting what happened. -/
def moveFrom (was : ArtifactAvailability) (finalizedAt : ArtifactRow → Option ℤ) (artifact : ReservedArtifact)
    (verdict : Verdict) (s : Recovering) : Recovering :=
  match s.heldRow was artifact.artifactId with
  | none => s.failedOne.leftArtifact
  | some row =>
    { s with
      artifacts := s.artifacts.set artifact.artifactId
        { row with availability := verdict.availability, finalizedAt := finalizedAt row }
      tally.artifacts := tallied s.tally.artifacts (.decided verdict)
      verdicts := s.verdicts ++ [(artifact, verdict)] }

/-- `move`: moves one reserved row to its resolved state. -/
def move (now : ℤ) : ReservedArtifact → Verdict → Recovering → Recovering :=
  moveFrom .reserved fun _ => some now

/-- `moveFinalized`: moves an available row without rewriting when it was finalized. -/
def moveFinalized : ReservedArtifact → Verdict → Recovering → Recovering :=
  moveFrom .available ArtifactRow.finalizedAt

end Recovering

def discardTemporary (faults : Faults) (artifactId : String) (mayRemove : Bool) (s : Recovering) : Recovering :=
  if faults.fails (.temporaryLength artifactId) ∨ s.blobs.get (.temporary artifactId) = none then s
  else if !mayRemove then s.examinedBlob.blobOutcome .leftForInspection
  else if faults.fails (.discardTemporary artifactId) then s.failedOne
  else ((s.removed artifactId).examinedBlob).blobOutcome .discarded

section

variable (hash : Bytes → String) (options : RecoveryOptions) (faults : Faults)

/-- What `verifyOneFinalized` and `resolveOne` share: a digest decides an artifact's fate, not a stat. -/
def decideByDigest (onMissing onIntact onCorrupt : Recovering → Recovering) (artifact : ReservedArtifact)
    (s : Recovering) : Recovering :=
  if faults.fails (.contentLength artifact.artifactId) then s.failedOne.leftArtifact
  else
    match s.blobs.get (.content artifact.digest) with
    | none => onMissing s
    | some bytes =>
      match verifyStoredBytes hash bytes artifact.digest artifact.byteLength
        fun offset => faults.fails (.readContent artifact.artifactId offset) with
      | none => (s.verifying artifact.byteLength).failedOne.leftArtifact
      | some true => onIntact (s.verifying artifact.byteLength)
      | some false =>
        if faults.fails (.setAside artifact.artifactId) then
          (s.verifying artifact.byteLength).failedOne.leftArtifact
        else onCorrupt ((s.verifying artifact.byteLength).setAside artifact.digest bytes)

def verifyOneFinalized (artifact : ReservedArtifact) : Recovering → Recovering :=
  decideByDigest hash faults (Recovering.moveFinalized artifact .missing)
    (Recovering.decided · artifact .available) (Recovering.moveFinalized artifact .quarantined) artifact

def resolveOne (quiet : Bool) (artifact : ReservedArtifact) : Recovering → Recovering :=
  decideByDigest hash faults
    (fun s => Recovering.move options.now artifact .missing
      (discardTemporary faults artifact.artifactId (artifact.runId ≠ none || quiet) s))
    (Recovering.move options.now artifact .available) (Recovering.move options.now artifact .quarantined) artifact

/-- What the loops of `verifyFinalizedArtifacts` and `resolveReservedArtifacts` share. -/
def examineRow (isWritten : ReservedArtifact → Bool) (one : ReservedArtifact → Recovering → Recovering)
    (s : Recovering) (row : String × ArtifactRow) : Recovering :=
  match parseReserved row with
  | none => s.halted.failedOne
  | some artifact =>
    if isWritten artifact then s.examined.leftArtifact
    else if maxRecoveryVerifiedBytes < s.tally.verifiedBytes + artifact.byteLength then
      s.examined.halted.leftArtifact
    else one artifact s.examined

/-- One row of `verifyFinalizedArtifacts`. -/
def examineFinalized : Recovering → String × ArtifactRow → Recovering :=
  examineRow (fun _ => false) (verifyOneFinalized hash faults)

/-- One row of `resolveReservedArtifacts`. -/
def examineReserved (runs : List RunRecord) (quiet : Bool) : Recovering → String × ArtifactRow → Recovering :=
  examineRow (fun artifact => mayStillBeWritten artifact.runId runs options.runId)
    (resolveOne hash options faults quiet)

/-- The rows of one availability a loop begins with, and whether these are all. -/
def opened (availability : ArtifactAvailability) (s : Recovering) : Recovering :=
  if maxRecoveredArtifacts ≤ (s.artifacts.select availability maxRecoveredArtifacts).length then s.halted else s

def verifyFinalizedArtifacts (s : Recovering) : Recovering :=
  Scan.scan (fun row => faults.aborted (.finalized row.1)) Recovering.halted (examineFinalized hash faults)
    (s.artifacts.select .available maxRecoveredArtifacts) (opened .available s)

def resolveReservedArtifacts (runs : List RunRecord) (quiet : Bool) (s : Recovering) : Recovering :=
  Scan.scan (fun row => faults.aborted (.reserved row.1)) Recovering.halted
    (examineReserved hash options faults runs quiet)
    (s.artifacts.select .reserved maxRecoveredArtifacts) (opened .reserved s)

end

/-! ## Blobs in flight -/

/-- A blob in flight that is left alone: its run may still be writing, or nothing attributes it while another run
may be past startup. -/
def LeftInFlight (options : RecoveryOptions) (runs : List RunRecord) (quiet : Bool) (artifacts : ArtifactTable)
    (artifactId : String) : Prop :=
  mayStillBeWritten (ownerOfBlob artifacts artifactId) runs options.runId = true
    ∨ (ownerOfBlob artifacts artifactId = none ∧ quiet = false)

instance (options : RecoveryOptions) (runs : List RunRecord) (quiet : Bool) (artifacts : ArtifactTable)
    (artifactId : String) : Decidable (LeftInFlight options runs quiet artifacts artifactId) := by
  unfold LeftInFlight
  infer_instance

/-- One blob of `collectTemporaryBlobs`. -/
def collectOne (options : RecoveryOptions) (faults : Faults) (runs : List RunRecord) (quiet : Bool)
    (s : Recovering) (artifactId : String) : Recovering :=
  if LeftInFlight options runs quiet s.artifacts artifactId then
    s.examinedBlob.blobOutcome .leftForInspection
  else if faults.fails (.removeTemporary artifactId) then s.examinedBlob.failedOne.blobOutcome .failed
  else (s.examinedBlob.removed artifactId).blobOutcome .discarded

/-- `list("temporary", MAX_RECOVERED_BLOBS)`. -/
def Faults.listTemporary (faults : Faults) (blobs : Blobs) : List String :=
  (faults.inFlight blobs).take maxRecoveredBlobs

def collectTemporaryBlobs (options : RecoveryOptions) (faults : Faults) (runs : List RunRecord) (quiet : Bool)
    (s : Recovering) : Recovering :=
  if faults.fails .listTemporary then s.halted
  else
    Scan.scan (fun artifactId => faults.aborted (.temporary artifactId)) Recovering.halted
      (collectOne options faults runs quiet) (faults.listTemporary s.blobs)
      (if maxRecoveredBlobs ≤ (faults.listTemporary s.blobs).length then s.halted else s)

/-! ## The pass -/

/-- The tally a pass begins with. -/
def freshTally (runs : Option (List RunRecord)) : Tally where
  markedUncertain := 0
  artifactsExamined := 0
  temporaryBlobsExamined := 0
  failed := 0
  verifiedBytes := 0
  completeness := if runs = none then .partially else .complete
  artifacts := .empty
  blobs := .empty

/-- The runs a pass goes by. -/
def knownRuns (database : Database) : List RunRecord := (readRuns database).getD []

/-- What a pass begins with. -/
def started (database : Database) (blobs : Blobs) : Recovering where
  artifacts := database.artifacts
  records := database.records
  blobs := blobs
  tally := freshTally (readRuns database)
  verdicts := []

/-- What `recoverInterruptedWork` does. -/
def recovered (hash : Bytes → String) (options : RecoveryOptions) (faults : Faults) (database : Database)
    (blobs : Blobs) : Recovering :=
  collectTemporaryBlobs options faults (knownRuns database) (isQuiet options (knownRuns database))
    (resolveReservedArtifacts hash options faults (knownRuns database) (isQuiet options (knownRuns database))
      (verifyFinalizedArtifacts hash faults (completeInterruptedRecords options faults (started database blobs))))

def effectOfPass (tally : Tally) : EffectCertainty :=
  if tally.markedUncertain + (tally.artifacts.get (.decided .available)).getD 0
      + (tally.artifacts.get (.decided .quarantined)).getD 0 + (tally.artifacts.get (.decided .missing)).getD 0
      + (tally.blobs.get .discarded).getD 0 = 0 then .none
  else if 0 < tally.failed then .partial_
  else .completed

/-- The database a pass leaves behind. -/
def Recovering.database (s : Recovering) (before : Database) : Database :=
  { before with artifacts := s.artifacts, records := s.records }

/-- What `recoverInterruptedWork` returns. -/
def Recovering.report (options : RecoveryOptions) (s : Recovering) : RecoveryReport where
  runId := options.runId
  crashSignals := options.crashSignals
  markedUncertain := s.tally.markedUncertain
  artifactsExamined := s.tally.artifactsExamined
  artifacts := s.tally.artifacts.entries
  temporaryBlobsExamined := s.tally.temporaryBlobsExamined
  temporaryBlobs := s.tally.blobs.entries
  failed := s.tally.failed
  completeness := s.tally.completeness
  effect := effectOfPass s.tally

end Falryn.Recovery
