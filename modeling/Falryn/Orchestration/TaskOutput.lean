import Falryn.Orchestration.TaskRecords

/-!
# The output of process tasks

The bytes a captured process writes are kept in blocks (`process-task-output.ts` of the store), each of
which is an artifact that never changes, and read back by their offsets in the stream
(`process-task-output.ts` of the application).  A reader of a task that still runs may be given the live
tail of the stream as well.  An artifact is modelled by the bytes stored under its id; that equal bytes
share one blob is left out, and so is what becomes of a digest that two contents have.
-/

namespace Falryn.Orchestration

inductive ProcessStreamName where
  | stdout
  | stderr
  deriving DecidableEq

/-- `BLOCK_BYTES`. -/
def blockBytes : ℕ := 65536

/-- `MAX_PROCESS_CAPTURE_BYTES`. -/
def maxProcessCaptureBytes : ℕ := 8 * 1024 * 1024

/-- `MAX_PROCESS_TASK_LOG_BYTES`. -/
def maxProcessTaskLogBytes : ℕ := 32 * 1024

/-! ## Artifacts -/

/-- An artifact with its bytes. -/
structure StoredArtifact where
  invocationId : String
  digest : String
  bytes : List UInt8
  /-- `availability` is `"available"`. -/
  available : Bool
  /-- It has a row of `process_task_artifacts` for the task that is not released. -/
  owned : Bool

/-- The artifacts under their ids. -/
abbrev ArtifactStore := String → Option StoredArtifact

/-! ## Chunks -/

structure ProcessTaskChunk where
  handle : ProcessTaskHandle
  stream : ProcessStreamName
  offset : ℕ
  artifact : ProcessTaskArtifact

/-- `chunkSchema`. -/
def ProcessTaskChunk.Schema (chunk : ProcessTaskChunk) : Prop :=
  chunk.handle.Schema ∧ IsSafeInteger chunk.offset ∧ chunk.artifact.Schema

instance ProcessTaskChunk.decidableSchema (chunk : ProcessTaskChunk) : Decidable chunk.Schema := by
  unfold ProcessTaskChunk.Schema
  infer_instance

/-- The rows of `process_task_chunks` of one task, by stream and in the order of their offsets. -/
abbrev ChunkRows := ProcessStreamName → List ProcessTaskChunk

/-- The offset after the rows, if each begins where the one before it ends. -/
def nextOffset : ℕ → List ProcessTaskChunk → Option ℕ
  | next, [] => some next
  | next, row :: rows =>
    if row.offset = next then nextOffset (next + row.artifact.byteLength) rows else none

/-- `appendChunk`.  `task` is what `loadTask` answers. -/
def appendChunk (task : Except TaskFailure ProcessTaskSnapshot) (artifacts : ArtifactStore)
    (rows : ChunkRows) (fence : ProcessTaskFence) (chunk : ProcessTaskChunk) (now : ℤ) :
    Except TaskFailure ChunkRows := do
  refuseIf (¬ chunk.Schema) .invalidRecord
  refuseIf (chunk.handle ≠ fence.handle ∨ chunk.artifact.byteLength < 1
    ∨ blockBytes < chunk.artifact.byteLength
    ∨ maxProcessCaptureBytes < chunk.offset + chunk.artifact.byteLength) .invalidRecord
  let task ← task
  refuseIf (task.revision ≠ fence.expectedRevision) .staleRevision
  refuseIf (task.state = .terminal) .sealed
  refuseIf (task.state = .queued) .invalidTransition
  refuseIf (task.supervisor.runId ≠ fence.supervisorRunId ∨ task.supervisor.leaseExpiresAt ≤ now
    ∨ ¬ IsSafeInteger now ∨ now < task.createdAt) .ownershipUnavailable
  refuseIf (¬ ∃ artifact ∈ artifacts chunk.artifact.artifactId, artifact.owned = true) .invalidRecord
  let previous := (rows chunk.stream).take 257
  match previous.find? fun row => row.offset = chunk.offset with
  | some duplicate =>
    refuseIf (duplicate.artifact ≠ chunk.artifact) .invalidRecord
    return rows
  | none =>
    refuseIf (256 ≤ previous.length) .capacity
    refuseIf (nextOffset 0 previous ≠ some chunk.offset) .invalidRecord
    refuseIf (¬ ∃ artifact ∈ artifacts chunk.artifact.artifactId, artifact.available = true
      ∧ artifact.digest = chunk.artifact.digest ∧ artifact.bytes.length = chunk.artifact.byteLength
      ∧ artifact.invocationId = task.owner.invocationId) .invalidRecord
    return Function.update rows chunk.stream (rows chunk.stream ++ [chunk])

/-- The loop of `chunks`, from an offset on. -/
def checkChunks : ℕ → List ProcessTaskChunk → Except TaskFailure Unit
  | _, [] => return ()
  | next, row :: rows => do
    refuseIf (¬ row.Schema ∨ row.offset ≠ next ∨ row.artifact.byteLength < 1
      ∨ blockBytes < row.artifact.byteLength) .invalidRecord
    refuseIf (maxProcessCaptureBytes < next + row.artifact.byteLength) .invalidRecord
    checkChunks (next + row.artifact.byteLength) rows

/-- `chunks`. -/
def readChunks (rows : ChunkRows) (stream : ProcessStreamName) :
    Except TaskFailure (List ProcessTaskChunk) := do
  let selected := (rows stream).take 257
  refuseIf (256 < selected.length) .capacity
  checkChunks 0 selected
  return selected

/-! ## Reading -/

/-- The reasons for which bytes are not read. -/
inductive OutputFailure where
  | invalidRange
  | resultNotSealed
  | resultUnavailable
  | missingArtifact
  | artifactIntegrity
  | store (failure : TaskFailure)
  | artifacts (code : String)

structure ProcessTaskTail where
  offset : ℕ
  bytes : List UInt8
  deriving DecidableEq

structure ProcessTaskBytes where
  bytes : List UInt8
  offset : ℕ
  nextOffset : ℕ
  availableBytes : ℕ
  durableBytes : ℕ
  sealed : Bool
  complete : Bool

/-- What is read: a stream, or the result. -/
inductive OutputSource where
  | log (stream : ProcessStreamName)
  | result
  deriving DecidableEq

/-- The bytes of a list from an offset on, at most `length` of them. -/
def bytesFrom (bytes : List UInt8) (offset length : ℕ) : List UInt8 := (bytes.drop offset).take length

/-- `readArtifact`, where the store answers. -/
def readArtifact (artifacts : ArtifactStore) (task : ProcessTaskSnapshot) (artifact : ProcessTaskArtifact)
    (offset limit : ℕ) : Except OutputFailure (List UInt8) :=
  match artifacts artifact.artifactId with
  | none => .error .missingArtifact
  | some record => do
    refuseIf (record.invocationId ≠ task.owner.invocationId ∨ record.digest ≠ artifact.digest
      ∨ record.bytes.length ≠ artifact.byteLength ∨ record.available = false) .artifactIntegrity
    return bytesFrom record.bytes offset limit

/-- What the store of artifacts does when it is asked: it may fail, and every time it is asked later. -/
abbrev ArtifactReads := ℕ → Except String ArtifactStore

/-- The loop over the entries, after the first `asked` of them and with the bytes of `copied`. -/
def copyEntries (reads : ArtifactReads) (task : ProcessTaskSnapshot) (offset length : ℕ) :
    ℕ → List UInt8 → List (ℕ × ProcessTaskArtifact) → Except OutputFailure (List UInt8)
  | _, copied, [] => return copied
  | asked, copied, entry :: entries =>
    if copied.length = length then return copied
    else
      let start := max (offset + copied.length) entry.1
      let stop := min (offset + length) (entry.1 + entry.2.byteLength)
      if stop ≤ start then copyEntries reads task offset length (asked + 1) copied entries
      else
        match reads asked with
        | .error code => .error (.artifacts code)
        | .ok artifacts => do
          let read ← readArtifact artifacts task entry.2 (start - entry.1) (stop - start)
          refuseIf (read.length ≠ stop - start) .artifactIntegrity
          copyEntries reads task offset length (asked + 1) (copied ++ read) entries

/-- `entries`. -/
def outputEntries (rows : ChunkRows) (task : ProcessTaskSnapshot) :
    OutputSource → Except OutputFailure (List (ℕ × ProcessTaskArtifact))
  | .result => do
    refuseIf (task.state ≠ .terminal) .resultNotSealed
    match task.terminal.bind (·.result) with
    | none => .error .resultUnavailable
    | some artifact => return [(0, artifact)]
  | .log stream =>
    match readChunks rows stream with
    | .error failure => .error (.store failure)
    | .ok chunks => return chunks.map fun chunk => (chunk.offset, chunk.artifact)

def liveTail (task : ProcessTaskSnapshot) (source : OutputSource) (tail : Option ProcessTaskTail) :
    Option ProcessTaskTail :=
  if task.state ≠ .terminal ∧ source ≠ .result then tail else none

def availableBytes (durableBytes : ℕ) (liveTail : Option ProcessTaskTail) : ℕ :=
  max durableBytes (match liveTail with | none => 0 | some tail => tail.offset + tail.bytes.length)

/-- The bytes after those of the entries are copied from the tail.  It does not begin after the entries
end, so that no subtraction here is cut off. -/
def copyTail (liveTail : Option ProcessTaskTail) (offset length : ℕ) (copied : List UInt8) : List UInt8 :=
  match liveTail with
  | none => copied
  | some tail =>
    copied ++ bytesFrom tail.bytes (offset + copied.length - tail.offset) (length - copied.length)

def readProcessTaskBytes (rows : ChunkRows) (reads : ArtifactReads) (task : ProcessTaskSnapshot)
    (source : OutputSource) (offset limit : ℤ) (tail : Option ProcessTaskTail) :
    Except OutputFailure ProcessTaskBytes := do
  refuseIf (¬ IsSafeInteger offset ∨ offset < 0 ∨ ¬ IsSafeInteger limit ∨ limit < 1
    ∨ maxProcessTaskLogBytes < limit) .invalidRange
  let entries ← outputEntries rows task source
  let durableBytes := (entries.map (·.2.byteLength)).sum
  let liveTail := liveTail task source tail
  refuseIf (∃ tail ∈ liveTail, durableBytes < tail.offset) .artifactIntegrity
  let availableBytes := availableBytes durableBytes liveTail
  refuseIf (availableBytes < offset) .invalidRange
  let offset := offset.toNat
  let length := min limit.toNat (availableBytes - offset)
  let durable ← copyEntries reads task offset length 0 [] entries
  let copied := copyTail liveTail offset length durable
  refuseIf (copied.length ≠ length) .artifactIntegrity
  let sealed := decide (task.state = .terminal)
  return {
    bytes := copied, offset, nextOffset := offset + copied.length, availableBytes, durableBytes, sealed
    complete := sealed && decide (offset + copied.length = availableBytes)
      && (decide (source = .result) || decide (task.terminal.bind (·.outputComplete) = some true)) }

end Falryn.Orchestration
