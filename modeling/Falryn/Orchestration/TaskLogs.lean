import Falryn.Orchestration.TaskOutputReads
import Falryn.Orchestration.TaskSettlement

/-!
# Logs of a running task

A supervisor buffers what a process writes (`createProcessTaskBuffer`) and stores every full block, and
the rest when the process has ended: the block is retained as an artifact, appended to the rows of the
task, and only then taken out of the buffer.  All of this waits in between, and whatever else happens to
the task happens then: it is renewed, settled or sealed, or given up by another host; artifacts come and
become unavailable.  A block that is not stored is left in the buffer.
-/

namespace Falryn.Orchestration

/-! ## The writer -/

/-- What a flush goes on with. -/
inductive AfterFlush where
  /-- `append`, with the bytes it has not copied yet. -/
  | append (rest : List UInt8)
  /-- `finish`, with the streams it has not flushed yet. -/
  | finish (streams : List ProcessStreamName)
  deriving DecidableEq

/-- The bytes that are still to be copied after a flush. -/
def AfterFlush.rest : AfterFlush → List UInt8
  | append rest => rest
  | finish _ => []

/-- Where the calls of a buffer stand. -/
inductive OutputWriter where
  | idle
  | appending (stream : ProcessStreamName) (rest : List UInt8)
  | finishing (streams : List ProcessStreamName)
  /-- A block is being retained as an artifact. -/
  | retaining (stream : ProcessStreamName) (block : ProcessTaskTail) (after : AfterFlush)
  /-- The artifact is there, and its chunk is not appended yet. -/
  | committing (stream : ProcessStreamName) (block : ProcessTaskTail) (artifact : ProcessTaskArtifact)
      (after : AfterFlush)
  /-- The chunk is appended, and the block still in the buffer. -/
  | committed (stream : ProcessStreamName) (after : AfterFlush)
  /-- `finish` returned, after which nothing is appended. -/
  | finished
  deriving DecidableEq

/-- A task, its output and its buffer. -/
structure OutputSystem where
  task : ProcessTaskSnapshot
  rows : ChunkRows
  artifacts : ArtifactStore
  /-- `streams`: what a buffer holds is its `snapshot`. -/
  buffers : ProcessStreamName → ProcessTaskTail
  writer : OutputWriter
  /-- `failure`. -/
  failure : Option String
  /-- What was appended so far: the bytes that were copied into the buffer. -/
  appended : ProcessStreamName → List UInt8

/-- What becomes of `ingest`. -/
inductive IngestOutcome where
  | failed
  | stored (owned cancelledAfterCommit : Bool)

/-- What can happen to a task, its output and its buffer. -/
inductive OutputEvent where
  | append (stream : ProcessStreamName) (bytes : List UInt8)
  | finish
  /-- The writer goes on where it does not wait. -/
  | resume
  /-- `retainProcessTaskBytes` returns. -/
  | retain (outcome : IngestOutcome)
  /-- The task is read again and the chunk appended; `lost` says that the task cannot be read. -/
  | commit (lost cancelledAfterCommit : Bool) (now : ℤ)
  /-- Something fails that is not the output. -/
  | fail (reason : String)
  | transition (fence : ProcessTaskFence) (change : ProcessTaskTransition) (now : ℤ)
  | renew (leaseExpiresAt : ℕ)
  | reconcile (replaced : Bool) (sealedAt : ℕ)
  /-- The supervisor seals the task after the last call of the buffer. -/
  | settle (result : Settlement.ExecutionResult) (saved : Option ProcessTaskArtifact) (sealedAt : ℕ)
  /-- Another artifact is stored. -/
  | ingest (artifactId : String) (artifact : StoredArtifact)
  /-- An artifact becomes unavailable. -/
  | withhold (artifactId : String)

namespace OutputSystem

/-- The system of a task of which nothing is written. -/
def initial (task : ProcessTaskSnapshot) (artifacts : ArtifactStore) : OutputSystem :=
  ⟨task, fun _ => [], artifacts, fun _ => ⟨0, []⟩, .idle, none, fun _ => []⟩

def snapshot (s : OutputSystem) (stream : ProcessStreamName) : ProcessTaskTail := s.buffers stream

/-- What was called goes on. -/
def goOn (s : OutputSystem) (stream : ProcessStreamName) : AfterFlush → OutputSystem
  | .append rest => { s with writer := .appending stream rest }
  | .finish streams => { s with writer := .finishing streams }

/-- `flush`, up to where it waits. -/
def flush (s : OutputSystem) (stream : ProcessStreamName) (after : AfterFlush) : OutputSystem :=
  if (s.buffers stream).bytes = [] then s.goOn stream after
  else { s with writer := .retaining stream (s.buffers stream) after }

/-- `flush`, after `persist` returned. -/
def taken (s : OutputSystem) (stream : ProcessStreamName) : OutputSystem :=
  let buffer := s.buffers stream
  { s with buffers := Function.update s.buffers stream ⟨buffer.offset + buffer.bytes.length, []⟩ }

/-- Bytes are copied into the buffer. -/
def copied (s : OutputSystem) (stream : ProcessStreamName) (bytes : List UInt8) : OutputSystem :=
  let buffer := s.buffers stream
  { s with
    buffers := Function.update s.buffers stream ⟨buffer.offset, buffer.bytes ++ bytes⟩
    appended := Function.update s.appended stream (s.appended stream ++ bytes) }

/-- A call of the buffer fails. -/
def failed (s : OutputSystem) : OutputSystem :=
  { s with writer := .idle, failure := some "output-persistence-failed" }

/-- `failure`, once the result is retained or not. -/
def settledFailure (s : OutputSystem) (saved : Option ProcessTaskArtifact) : Option String :=
  if saved = none then some "result-persistence-failed" else s.failure

/-- The writer, up to where it waits next. -/
def resume (s : OutputSystem) : Option OutputSystem :=
  match s.writer with
  | .appending stream rest =>
    if rest = [] then some { s with writer := .idle }
    else
      let count := min (blockBytes - (s.buffers stream).bytes.length) rest.length
      let s := s.copied stream (rest.take count)
      if (s.buffers stream).bytes.length = blockBytes then
        some (s.flush stream (.append (rest.drop count)))
      else some (s.goOn stream (.append (rest.drop count)))
  | .finishing [] => some { s with writer := .finished }
  | .finishing (stream :: streams) => some (s.flush stream (.finish streams))
  | .committed stream after => some ((s.taken stream).goOn stream after)
  | _ => none

end OutputSystem

section
-- The id of the artifact of a block, and the digest of its bytes.
variable (blockId : ProcessTaskHandle → ProcessStreamName → ℕ → String) (digest : List UInt8 → String)

namespace OutputSystem

/-- The artifact of a block. -/
def blockArtifact (s : OutputSystem) (stream : ProcessStreamName) (block : ProcessTaskTail) :
    ProcessTaskArtifact :=
  ⟨blockId s.task.handle stream block.offset, digest block.bytes, block.bytes.length⟩

/-- `persist`, up to the return of `retainProcessTaskBytes`.  An id that is taken is refused. -/
def retain (s : OutputSystem) (stream : ProcessStreamName) (block : ProcessTaskTail)
    (after : AfterFlush) : IngestOutcome → OutputSystem
  | .failed => s.failed
  | .stored owned cancelledAfterCommit =>
    let artifact := s.blockArtifact blockId digest stream block
    if s.artifacts artifact.artifactId ≠ none then s.failed
    else
      let record : StoredArtifact :=
        ⟨s.task.owner.invocationId, artifact.digest, block.bytes, true, owned⟩
      let s := { s with artifacts := Function.update s.artifacts artifact.artifactId (some record) }
      if cancelledAfterCommit then s.failed
      else { s with writer := .committing stream block artifact after }

/-- `persist`, after the return of `retainProcessTaskBytes`. -/
def commit (s : OutputSystem) (stream : ProcessStreamName) (block : ProcessTaskTail)
    (artifact : ProcessTaskArtifact) (after : AfterFlush) (cancelledAfterCommit : Bool) (now : ℤ) :
    OutputSystem :=
  match appendChunk (.ok s.task) s.artifacts s.rows (Settlement.fence s.task)
      ⟨s.task.handle, stream, block.offset, artifact⟩ now with
  | .error _ => s.failed
  | .ok rows =>
    let s := { s with rows }
    if cancelledAfterCommit then s.failed else { s with writer := .committed stream after }

/-- One event. -/
def step (s : OutputSystem) : OutputEvent → Option OutputSystem
  | .append stream bytes =>
    if s.writer = .idle then
      if maxProcessCaptureBytes
          < (s.buffers stream).offset + (s.buffers stream).bytes.length + bytes.length then
        some s.failed
      else some { s with writer := .appending stream bytes }
    else none
  | .finish => if s.writer = .idle then some { s with writer := .finishing [.stdout, .stderr] } else none
  | .resume => s.resume
  | .retain outcome =>
    match s.writer with
    | .retaining stream block after => some (s.retain blockId digest stream block after outcome)
    | _ => none
  | .commit lost cancelledAfterCommit now =>
    match s.writer with
    | .committing stream block artifact after =>
      if lost then some s.failed
      else some (s.commit stream block artifact after cancelledAfterCommit now)
    | _ => none
  | .fail reason => some { s with failure := some reason }
  | .transition fence change now =>
    if change.change = .sealed then none
    else some { s with task := (transitionProcessTask s.task fence change now).toOption.getD s.task }
  | .renew leaseExpiresAt =>
    if s.task.state = .terminal then none else some { s with task := s.task.withLease leaseExpiresAt }
  | .reconcile replaced sealedAt =>
    if s.task.state = .terminal then none
    else some { s with task := { s.task with
      revision := s.task.revision + 1
      state := .terminal
      terminal := some
        { outcome := .uncertain, effect := .uncertain
          reason := if replaced then .supervisorReplaced else .supervisorVanished
          exitCode := none, signal := none, sealedAt, result := none, outputComplete := some false } } }
  | .settle result saved sealedAt =>
    if s.writer = .finished ∨ s.writer = .idle ∧ s.failure ≠ none then
      let failure := s.settledFailure saved
      some { s with
        task := (Settlement.settle s.task result failure saved sealedAt).toOption.getD s.task
        failure }
    else none
  | .ingest artifactId artifact =>
    if s.artifacts artifactId ≠ none then none
    else some { s with artifacts := Function.update s.artifacts artifactId (some artifact) }
  | .withhold artifactId =>
    let withheld := (s.artifacts artifactId).map fun artifact => { artifact with available := false }
    some { s with artifacts := Function.update s.artifacts artifactId withheld }

/-- A read of a log, by a reader who has the buffer at hand or not.  `reads` says what the store of
artifacts is when it is asked for the blocks. -/
def read (s : OutputSystem) (reads : ArtifactReads) (stream : ProcessStreamName) (offset limit : ℤ)
    (owned : Bool) : Except OutputFailure ProcessTaskBytes :=
  readProcessTaskBytes s.rows reads s.task (.log stream) offset limit
    (if owned then some (s.snapshot stream) else none)

end OutputSystem
end

end Falryn.Orchestration
