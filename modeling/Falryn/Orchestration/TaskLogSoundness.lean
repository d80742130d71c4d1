import Falryn.Orchestration.TaskLogs

/-!
# Logs are what was written

Whatever happens to a task while its output is written, the blocks lie one behind the other, each of them
holds the bytes that were appended there, and they end within what the buffer holds.  Nothing that is
stored or was appended changes any more.
-/

namespace Falryn.Orchestration

open StateMachine

namespace OutputSystem

/-- How many bytes of a stream are stored. -/
def durable (s : OutputSystem) (stream : ProcessStreamName) : ℕ :=
  ((s.rows stream).map (·.artifact.byteLength)).sum

/-- The artifact of a row holds the bytes that were appended where the row lies. -/
def Backed (s : OutputSystem) (stream : ProcessStreamName) (row : ProcessTaskChunk) : Prop :=
  ∃ record, s.artifacts row.artifact.artifactId = some record
    ∧ record.bytes = bytesFrom (s.appended stream) row.offset row.artifact.byteLength
    ∧ record.digest = row.artifact.digest ∧ record.bytes.length = row.artifact.byteLength
    ∧ record.invocationId = s.task.owner.invocationId

/-- The blocks and the buffer of a stream hold what was appended. -/
structure StreamSound (s : OutputSystem) (stream : ProcessStreamName) : Prop where
  stored : StoredRows (s.rows stream) (s.durable stream)
  begins : (s.buffers stream).offset ≤ s.durable stream
  within : s.durable stream ≤ (s.appended stream).length
  buffered : (s.buffers stream).bytes = (s.appended stream).drop (s.buffers stream).offset
  short : (s.buffers stream).bytes.length ≤ blockBytes
  backed : ∀ row ∈ s.rows stream, s.Backed stream row

/-- The buffers of all other streams are empty. -/
def Emptied (s : OutputSystem) (streams : List ProcessStreamName) : Prop :=
  ∀ stream, stream ∉ streams → (s.buffers stream).bytes = []

/-- What a flush goes on with, has left the streams before it empty. -/
def AfterSound (s : OutputSystem) (stream : ProcessStreamName) : AfterFlush → Prop
  | .append _ => True
  | .finish streams => s.Emptied (stream :: streams)

/-- What the writer is at. -/
def WriterSound (s : OutputSystem) : Prop :=
  match s.writer with
  | .idle | .appending _ _ => True
  | .finishing streams => s.Emptied streams
  | .retaining stream block after => s.buffers stream = block ∧ s.AfterSound stream after
  | .committing stream block artifact after =>
    s.buffers stream = block ∧ artifact.byteLength = block.bytes.length
      ∧ (∃ record, s.artifacts artifact.artifactId = some record ∧ record.bytes = block.bytes)
      ∧ s.AfterSound stream after
  | .committed stream after =>
    (s.buffers stream).offset + (s.buffers stream).bytes.length ≤ s.durable stream
      ∧ s.AfterSound stream after
  | .finished => s.Emptied []

/-- The output of a task is what was written. -/
structure Sound (s : OutputSystem) : Prop where
  streams : ∀ stream, s.StreamSound stream
  writer : s.WriterSound
  /-- A task whose output is complete was sealed after `finish`. -/
  complete : s.task.state = .terminal → s.task.terminal.bind (·.outputComplete) = some true →
    s.writer = .finished

/-- What is not changed any more. -/
structure Keeps (s t : OutputSystem) : Prop where
  owner : t.task.owner = s.task.owner
  artifacts : ∀ id record, s.artifacts id = some record → ∃ record', t.artifacts id = some record'
    ∧ record'.bytes = record.bytes ∧ record'.digest = record.digest
    ∧ record'.invocationId = record.invocationId
  appended : ∀ stream, s.appended stream <+: t.appended stream

section
variable {s t u : OutputSystem} {stream other : ProcessStreamName} {after : AfterFlush}
  {bytes : List UInt8} {row : ProcessTaskChunk}

theorem Keeps.refl (s : OutputSystem) : s.Keeps s :=
  ⟨rfl, fun _ record h => ⟨record, h, rfl, rfl, rfl⟩, fun _ => List.prefix_rfl⟩

theorem Keeps.trans (h : s.Keeps t) (h' : t.Keeps u) : s.Keeps u where
  owner := h'.owner.trans h.owner
  artifacts id record hrecord := by
    obtain ⟨record', hrecord', hbytes, hdigest, hinvocation⟩ := h.artifacts id record hrecord
    obtain ⟨record'', hrecord'', hbytes', hdigest', hinvocation'⟩ := h'.artifacts id record' hrecord'
    exact ⟨record'', hrecord'', hbytes'.trans hbytes, hdigest'.trans hdigest,
      hinvocation'.trans hinvocation⟩
  appended stream := (h.appended stream).trans (h'.appended stream)

/-- Nothing but the task, the writer and the failure is changed. -/
theorem Keeps.of_frame (howner : t.task.owner = s.task.owner) (hartifacts : t.artifacts = s.artifacts)
    (happended : t.appended = s.appended) : s.Keeps t := by
  refine ⟨howner, fun _ record h => ⟨record, hartifacts ▸ h, rfl, rfl, rfl⟩, fun _ => ?_⟩
  rw [happended]

theorem Backed.keeps (h : s.Backed stream row) (hkeeps : s.Keeps t)
    (hwithin : row.offset + row.artifact.byteLength ≤ (s.appended stream).length) :
    t.Backed stream row := by
  obtain ⟨record, hrecord, hbytes, hdigest, hlength, hinvocation⟩ := h
  obtain ⟨record', hrecord', hbytes', hdigest', hinvocation'⟩ := hkeeps.artifacts _ record hrecord
  refine ⟨record', hrecord', ?_, hdigest'.trans hdigest, hbytes' ▸ hlength, ?_⟩
  · rw [hbytes', hbytes, bytesFrom_prefix_eq (hkeeps.appended stream) hwithin]
  · rw [hinvocation', hinvocation, hkeeps.owner]

theorem StreamSound.row_within (h : s.StreamSound stream)
    (hrow : row ∈ s.rows stream) : row.offset + row.artifact.byteLength ≤ s.durable stream :=
  ((nextOffset_le h.stored.next).2 row hrow).2

/-- A stream that nothing is done to. -/
theorem StreamSound.keeps (h : s.StreamSound stream) (hkeeps : s.Keeps t)
    (hrows : t.rows stream = s.rows stream) (hbuffers : t.buffers stream = s.buffers stream)
    (happended : t.appended stream = s.appended stream) : t.StreamSound stream := by
  have hdurable : t.durable stream = s.durable stream := by rw [durable, hrows, durable]
  refine ⟨?_, ?_, ?_, ?_, ?_, ?_⟩
  · rw [hrows, hdurable]
    exact h.stored
  · rw [hbuffers, hdurable]
    exact h.begins
  · rw [hdurable, happended]
    exact h.within
  · rw [hbuffers, happended]
    exact h.buffered
  · rw [hbuffers]
    exact h.short
  · rw [hrows]
    exact fun row hrow => (h.backed row hrow).keeps hkeeps ((h.row_within hrow).trans h.within)

theorem StreamSound.buffer_length (h : s.StreamSound stream) :
    (s.buffers stream).offset + (s.buffers stream).bytes.length = (s.appended stream).length := by
  have hbegins := h.begins
  have hwithin := h.within
  rw [h.buffered, List.length_drop]
  omega

/-! ## The pieces of the writer -/

theorem keeps_goOn : s.Keeps (s.goOn stream after) := by
  cases after <;> exact .of_frame rfl rfl rfl

@[simp] theorem goOn_rows : (s.goOn stream after).rows = s.rows := by cases after <;> rfl
@[simp] theorem goOn_buffers : (s.goOn stream after).buffers = s.buffers := by cases after <;> rfl
@[simp] theorem goOn_appended : (s.goOn stream after).appended = s.appended := by cases after <;> rfl
@[simp] theorem goOn_task : (s.goOn stream after).task = s.task := by cases after <;> rfl

theorem writerSound_goOn (h : s.AfterSound stream after) (hempty : (s.buffers stream).bytes = []) :
    (s.goOn stream after).WriterSound := by
  cases after with
  | append => trivial
  | finish =>
    intro other hother
    by_cases hsame : other = stream
    · exact hsame ▸ hempty
    · exact h other (by simp [hsame, hother])

theorem keeps_flush : s.Keeps (s.flush stream after) := by
  rw [flush]
  split_ifs
  · exact keeps_goOn
  · exact .of_frame rfl rfl rfl

@[simp] theorem flush_rows : (s.flush stream after).rows = s.rows := by rw [flush]; split_ifs <;> simp
@[simp] theorem flush_buffers : (s.flush stream after).buffers = s.buffers := by
  rw [flush]; split_ifs <;> simp
@[simp] theorem flush_appended : (s.flush stream after).appended = s.appended := by
  rw [flush]; split_ifs <;> simp
@[simp] theorem flush_task : (s.flush stream after).task = s.task := by rw [flush]; split_ifs <;> simp

theorem writerSound_flush (h : s.AfterSound stream after) : (s.flush stream after).WriterSound := by
  rw [flush]
  split_ifs with hempty
  · exact writerSound_goOn h hempty
  · refine ⟨rfl, ?_⟩
    cases after with
    | append => trivial
    | finish => exact h

theorem keeps_copied : s.Keeps (s.copied stream bytes) := by
  refine ⟨rfl, fun _ record h => ⟨record, h, rfl, rfl, rfl⟩, fun other => ?_⟩
  by_cases hother : other = stream
  · subst hother
    simp [copied]
  · simp [copied, Function.update_of_ne hother]

/-- Bytes that are copied are appended. -/
theorem StreamSound.copied (h : s.StreamSound stream)
    (hshort : (s.buffers stream).bytes.length + bytes.length ≤ blockBytes) :
    (s.copied stream bytes).StreamSound stream := by
  have hbegins := h.begins
  have hwithin := h.within
  refine ⟨h.stored, ?_, ?_, ?_, ?_, fun row hrow => ?_⟩
  · simp only [OutputSystem.copied, Function.update_self]
    exact h.begins
  · simp only [OutputSystem.copied, Function.update_self, List.length_append]
    exact h.within.trans (Nat.le_add_right _ _)
  · simp only [OutputSystem.copied, Function.update_self]
    rw [List.drop_append_of_le_length (by omega), h.buffered]
  · simp only [OutputSystem.copied, Function.update_self, List.length_append]
    exact hshort
  · exact (h.backed row hrow).keeps keeps_copied ((h.row_within hrow).trans h.within)

theorem StreamSound.copied_ne (h : s.StreamSound other) (hne : other ≠ stream) :
    (s.copied stream bytes).StreamSound other :=
  h.keeps keeps_copied rfl (Function.update_of_ne hne _ _) (Function.update_of_ne hne _ _)

/-- A block that is stored is taken out of the buffer. -/
theorem StreamSound.taken (h : s.StreamSound stream)
    (hstored : (s.buffers stream).offset + (s.buffers stream).bytes.length ≤ s.durable stream) :
    (s.taken stream).StreamSound stream := by
  have hlength := h.buffer_length
  refine ⟨h.stored, ?_, h.within, ?_, ?_, h.backed⟩
  · simp only [OutputSystem.taken, Function.update_self]
    exact hstored
  · simp only [OutputSystem.taken, Function.update_self]
    rw [hlength, List.drop_length]
  · simp [OutputSystem.taken]

theorem StreamSound.taken_ne (h : s.StreamSound other) (hne : other ≠ stream) :
    (s.taken stream).StreamSound other :=
  h.keeps (.of_frame rfl rfl rfl) rfl (Function.update_of_ne hne _ _) rfl

theorem AfterSound.taken (h : s.AfterSound stream after) : (s.taken stream).AfterSound stream after := by
  cases after with
  | append => trivial
  | finish =>
    intro other hother
    have hne : other ≠ stream := fun heq => hother (by simp [heq])
    simp only [OutputSystem.taken, Function.update_of_ne hne]
    exact h other hother

end

/-! ## Storing a block -/

section
variable {blockId : ProcessTaskHandle → ProcessStreamName → ℕ → String} {digest : List UInt8 → String}
  {s t : OutputSystem} {stream : ProcessStreamName} {block : ProcessTaskTail}
  {artifact : ProcessTaskArtifact} {after : AfterFlush} {outcome : IngestOutcome}
  {cancelledAfterCommit : Bool} {now : ℤ} {e : OutputEvent}

/-- An id that is not taken is given to an artifact. -/
theorem keeps_ingest {id : String} {record : StoredArtifact} (hfree : s.artifacts id = none) :
    s.Keeps { s with artifacts := Function.update s.artifacts id (some record) } := by
  refine ⟨rfl, fun other found h => ⟨found, ?_, rfl, rfl, rfl⟩, fun _ => List.prefix_rfl⟩
  have hne : other ≠ id := by
    rintro rfl
    cases hfree.symm.trans h
  simp only [Function.update_of_ne hne, h]

theorem keeps_retain : s.Keeps (s.retain blockId digest stream block after outcome) := by
  cases outcome with
  | failed => exact .of_frame rfl rfl rfl
  | stored =>
    simp only [retain]
    split_ifs with htaken hcancelled
    · exact .of_frame rfl rfl rfl
    · exact (keeps_ingest (not_not.1 htaken)).trans (.of_frame rfl rfl rfl)
    · exact (keeps_ingest (not_not.1 htaken)).trans (.of_frame rfl rfl rfl)

variable (s stream block blockId digest after outcome) in
theorem retain_frame :
    (s.retain blockId digest stream block after outcome).rows = s.rows
      ∧ (s.retain blockId digest stream block after outcome).buffers = s.buffers
      ∧ (s.retain blockId digest stream block after outcome).appended = s.appended
      ∧ (s.retain blockId digest stream block after outcome).task = s.task := by
  cases outcome with
  | failed => exact ⟨rfl, rfl, rfl, rfl⟩
  | stored =>
    simp only [retain]
    split_ifs <;> exact ⟨rfl, rfl, rfl, rfl⟩

theorem writerSound_retain (hbuffer : s.buffers stream = block) (hafter : s.AfterSound stream after) :
    (s.retain blockId digest stream block after outcome).WriterSound := by
  cases outcome with
  | failed => trivial
  | stored =>
    simp only [retain]
    split_ifs with htaken hcancelled
    · trivial
    · trivial
    · refine ⟨hbuffer, rfl, ⟨_, Function.update_self _ _ _, rfl⟩, ?_⟩
      cases after <;> exact hafter

theorem keeps_commit : s.Keeps (s.commit stream block artifact after cancelledAfterCommit now) := by
  rw [commit]
  split
  · exact .of_frame rfl rfl rfl
  · dsimp only
    split_ifs <;> exact .of_frame rfl rfl rfl

theorem commit_frame :
    (s.commit stream block artifact after cancelledAfterCommit now).buffers = s.buffers
      ∧ (s.commit stream block artifact after cancelledAfterCommit now).appended = s.appended
      ∧ (s.commit stream block artifact after cancelledAfterCommit now).task = s.task := by
  rw [commit]
  split
  · exact ⟨rfl, rfl, rfl⟩
  · dsimp only
    split_ifs <;> exact ⟨rfl, rfl, rfl⟩

/-- **A block that is committed** lies behind the blocks before it, and holds what the buffer holds. -/
theorem appendChunk_block (hsound : s.StreamSound stream) (hbuffer : s.buffers stream = block)
    (hlength : artifact.byteLength = block.bytes.length)
    (hrecord : ∃ record, s.artifacts artifact.artifactId = some record ∧ record.bytes = block.bytes)
    {rows : ChunkRows}
    (h : appendChunk (.ok s.task) s.artifacts s.rows (Settlement.fence s.task)
      ⟨s.task.handle, stream, block.offset, artifact⟩ now = .ok rows) :
    ({ s with rows } : OutputSystem).StreamSound stream
      ∧ block.offset + block.bytes.length ≤ ({ s with rows } : OutputSystem).durable stream
      ∧ ∀ other, other ≠ stream → rows other = s.rows other := by
  obtain ⟨_, ⟨⟩, -, ⟨rfl, row, hrow, hoffset, hartifact⟩ | ⟨rfl, -, hnew⟩⟩ :=
    appendChunk_ok hsound.stored.size h
  · -- the block was stored before
    have hwithin := hsound.row_within hrow
    rw [hoffset, hartifact, hlength] at hwithin
    exact ⟨hsound, hwithin, fun _ _ => rfl⟩
  · have hstored := hsound.stored.append hsound.stored.size h
    rw [Function.update_self] at hstored
    obtain habsurd | ⟨-, hdurable, -, hrows⟩ := hstored
    · simp at habsurd
    have hend : ({ s with rows := Function.update s.rows stream (s.rows stream
        ++ [⟨s.task.handle, stream, block.offset, artifact⟩]) } : OutputSystem).durable stream
          = s.durable stream + artifact.byteLength := by
      simp [durable]
    have hbytes := hsound.buffer_length
    rw [hbuffer] at hbytes
    refine ⟨⟨?_, ?_, ?_, hsound.buffered, hsound.short, ?_⟩, ?_,
      fun other hne => Function.update_of_ne hne _ _⟩
    · rw [hend]
      simpa using hrows
    · rw [hend]
      exact hsound.begins.trans (Nat.le_add_right _ _)
    · rw [hend, hdurable, hlength]
      exact hbytes.le
    · intro row hrow
      simp only [Function.update_self] at hrow
      rcases List.mem_append.1 hrow with hold | hlast
      · exact hsound.backed row hold
      · obtain rfl := List.mem_singleton.1 hlast
        obtain ⟨record, hrecord, hcontent⟩ := hrecord
        obtain ⟨found, hfound, hdigest, hsize, hinvocation⟩ := hnew.artifact
        cases hrecord.symm.trans hfound
        refine ⟨record, hrecord, ?_, hdigest, hsize, hinvocation⟩
        have hbuffered := hsound.buffered
        rw [hbuffer] at hbuffered
        rw [hcontent, bytesFrom, ← hbuffered, hlength, List.take_length]
    · rw [hend, hdurable, hlength]

variable (cancelledAfterCommit now) in
theorem sound_commit (hsound : s.Sound) (hbuffer : s.buffers stream = block)
    (hlength : artifact.byteLength = block.bytes.length)
    (hrecord : ∃ record, s.artifacts artifact.artifactId = some record ∧ record.bytes = block.bytes)
    (hafter : s.AfterSound stream after) :
    (∀ other, (s.commit stream block artifact after cancelledAfterCommit now).StreamSound other)
      ∧ (s.commit stream block artifact after cancelledAfterCommit now).WriterSound := by
  rw [commit]
  split
  · exact ⟨fun other => (hsound.streams other).keeps (.of_frame rfl rfl rfl) rfl rfl rfl, trivial⟩
  next rows hrows =>
    obtain ⟨hstream, hstored, hothers⟩ :=
      appendChunk_block (hsound.streams stream) hbuffer hlength hrecord hrows
    have hall (other : ProcessStreamName) : ({ s with rows } : OutputSystem).StreamSound other := by
      by_cases hother : other = stream
      · exact hother ▸ hstream
      · exact (hsound.streams other).keeps (.of_frame rfl rfl rfl) (hothers other hother) rfl rfl
    dsimp only
    split_ifs with hcancelled
    · exact ⟨fun other => (hall other).keeps (.of_frame rfl rfl rfl) rfl rfl rfl, trivial⟩
    · refine ⟨fun other => (hall other).keeps (.of_frame rfl rfl rfl) rfl rfl rfl, ?_, ?_⟩
      · exact hbuffer ▸ hstored
      · cases after <;> exact hafter

/-! ## One event -/

/-- Nothing but the task, the artifacts and the failure is changed. -/
theorem Sound.frame (hsound : s.Sound) (hkeeps : s.Keeps t) (hrows : t.rows = s.rows)
    (hbuffers : t.buffers = s.buffers) (happended : t.appended = s.appended) (hwriter : t.writer = s.writer)
    (hcomplete : t.task.state = .terminal → t.task.terminal.bind (·.outputComplete) = some true →
      s.writer = .finished) : t.Sound := by
  refine ⟨fun stream => (hsound.streams stream).keeps hkeeps (by rw [hrows]) (by rw [hbuffers])
    (by rw [happended]), ?_, fun hstate hterminal => hwriter.trans (hcomplete hstate hterminal)⟩
  have hsame := hsound.writer
  unfold WriterSound at hsame ⊢
  rw [hwriter]
  have hafter {stream : ProcessStreamName} {after : AfterFlush} (h : s.AfterSound stream after) :
      t.AfterSound stream after := by
    cases after with
    | append => trivial
    | finish streams => exact fun other hother => hbuffers ▸ h other hother
  cases hat : s.writer with
  | idle => trivial
  | appending => trivial
  | finishing streams | finished =>
    simp only [hat] at hsame ⊢
    exact fun other hother => hbuffers ▸ hsame other hother
  | retaining stream block after =>
    simp only [hat] at hsame ⊢
    exact ⟨hbuffers ▸ hsame.1, hafter hsame.2⟩
  | committing stream block _ after =>
    simp only [hat] at hsame ⊢
    obtain ⟨hbuffer, hlength, ⟨record, hrecord, hbytes⟩, h⟩ := hsame
    obtain ⟨record', hrecord', hbytes', -, -⟩ := hkeeps.artifacts _ record hrecord
    exact ⟨hbuffers ▸ hbuffer, hlength, ⟨record', hrecord', hbytes'.trans hbytes⟩, hafter h⟩
  | committed stream after =>
    simp only [hat] at hsame ⊢
    refine ⟨?_, hafter hsame.2⟩
    rw [hbuffers, durable, hrows]
    exact hsame.1

/-- The writer has not finished, so that the output is not complete. -/
theorem Sound.moved (hsound : s.Sound) (hwriter : s.writer ≠ .finished) (htask : t.task = s.task)
    (hstreams : ∀ stream, t.StreamSound stream) (ht : t.WriterSound) : t.Sound :=
  ⟨hstreams, ht, fun hstate hcomplete =>
    absurd (hsound.complete (htask ▸ hstate) (htask ▸ hcomplete)) hwriter⟩

/-- What `resume` does. -/
theorem sound_resume (hsound : s.Sound) (h : s.resume = some t) : t.Sound ∧ s.Keeps t := by
  have hsame := hsound.writer
  unfold WriterSound at hsame
  unfold resume at h
  cases hat : s.writer with
  | idle | retaining | committing | finished => simp [hat] at h
  | appending stream rest =>
    have hunfinished : s.writer ≠ .finished := by simp [hat]
    simp only [hat] at h
    split_ifs at h with hrest hfull
    · cases h
      exact ⟨hsound.moved hunfinished rfl (fun stream => (hsound.streams stream).keeps
        (.of_frame rfl rfl rfl) rfl rfl rfl) trivial, .of_frame rfl rfl rfl⟩
    all_goals
      cases h
      set count := min (blockBytes - (s.buffers stream).bytes.length) rest.length with hcount
      have hshort : (s.buffers stream).bytes.length + (rest.take count).length ≤ blockBytes := by
        have := (hsound.streams stream).short
        rw [List.length_take]
        omega
      have hcopied (other : ProcessStreamName) : (s.copied stream (rest.take count)).StreamSound other := by
        by_cases hother : other = stream
        · exact hother ▸ (hsound.streams stream).copied hshort
        · exact (hsound.streams other).copied_ne hother
    · exact ⟨hsound.moved hunfinished (by simp [copied]) (fun other => (hcopied other).keeps keeps_flush
        (by simp) (by simp) (by simp)) (writerSound_flush trivial), keeps_copied.trans keeps_flush⟩
    · exact ⟨hsound.moved hunfinished (by simp [copied]) (fun other => (hcopied other).keeps keeps_goOn
        (by simp) (by simp) (by simp)) trivial, keeps_copied.trans keeps_goOn⟩
  | finishing streams =>
    have hunfinished : s.writer ≠ .finished := by simp [hat]
    simp only [hat] at h hsame
    cases streams with
    | nil =>
      cases h
      exact ⟨hsound.moved hunfinished rfl (fun stream => (hsound.streams stream).keeps
        (.of_frame rfl rfl rfl) rfl rfl rfl) hsame, .of_frame rfl rfl rfl⟩
    | cons stream streams =>
      cases h
      exact ⟨hsound.moved hunfinished (by simp) (fun other => (hsound.streams other).keeps keeps_flush
        (by simp) (by simp) (by simp)) (writerSound_flush hsame), keeps_flush⟩
  | committed stream =>
    have hunfinished : s.writer ≠ .finished := by simp [hat]
    simp only [hat] at h hsame
    cases h
    have htaken (other : ProcessStreamName) : (s.taken stream).StreamSound other := by
      by_cases hother : other = stream
      · exact hother ▸ (hsound.streams stream).taken hsame.1
      · exact (hsound.streams other).taken_ne hother
    refine ⟨hsound.moved hunfinished (by simp [taken]) (fun other => (htaken other).keeps keeps_goOn
      (by simp) (by simp) (by simp)) (writerSound_goOn hsame.2.taken (by simp [taken])), ?_⟩
    exact (Keeps.of_frame rfl rfl rfl : s.Keeps (s.taken stream)).trans keeps_goOn

/-- A task is sealed with complete output only where nothing failed. -/
theorem settledFacts_complete {task : ProcessTaskSnapshot} {result : Settlement.ExecutionResult}
    {failure : Option String} (h : (Settlement.settledFacts task result failure).outputComplete = true) :
    failure = none := by
  have hfacts : (Settlement.settledFacts task result failure).outputComplete
      = (Settlement.terminalFacts result.capture result.outcome failure
        (Settlement.settledKind task)).outputComplete := by
    unfold Settlement.settledFacts
    split
    · split_ifs <;> rfl
    · rfl
  by_contra hfailure
  simp only [hfacts, Settlement.terminalFacts, if_pos hfailure, Settlement.evidenced,
    Settlement.outputComplete] at h
  cases hcapture : result.capture <;> simp [hcapture, hfailure] at h

/-- **What one event does.** -/
theorem sound_step (hsound : s.Sound) (h : s.step blockId digest e = some t) : t.Sound ∧ s.Keeps t := by
  cases e with
  | append stream =>
    simp only [step] at h
    split_ifs at h with hidle hlimit <;> cases h
    all_goals
      exact ⟨hsound.moved (by simp [hidle]) rfl (fun stream => (hsound.streams stream).keeps
        (.of_frame rfl rfl rfl) rfl rfl rfl) trivial, .of_frame rfl rfl rfl⟩
  | finish =>
    simp only [step] at h
    split_ifs at h with hidle
    cases h
    refine ⟨hsound.moved (by simp [hidle]) rfl (fun stream => (hsound.streams stream).keeps
      (.of_frame rfl rfl rfl) rfl rfl rfl) ?_, .of_frame rfl rfl rfl⟩
    rintro (_ | _) hstream <;> simp at hstream
  | resume => exact sound_resume hsound h
  | retain outcome =>
    simp only [step] at h
    split at h
    · next stream block after hat =>
      cases h
      have hsame := hsound.writer
      simp only [WriterSound, hat] at hsame
      obtain ⟨hrows, hbuffers, happended, htask⟩ := retain_frame blockId digest s stream block after
        outcome
      exact ⟨hsound.moved (by simp [hat]) htask (fun other => (hsound.streams other).keeps keeps_retain
        (by rw [hrows]) (by rw [hbuffers]) (by rw [happended])) (writerSound_retain hsame.1 hsame.2),
        keeps_retain⟩
    · cases h
  | commit _ cancelledAfterCommit now =>
    simp only [step] at h
    split at h
    · next stream block artifact after hat =>
      have hunfinished : s.writer ≠ .finished := by simp [hat]
      split_ifs at h with hlost <;> cases h
      · exact ⟨hsound.moved hunfinished rfl (fun stream => (hsound.streams stream).keeps
          (.of_frame rfl rfl rfl) rfl rfl rfl) trivial, .of_frame rfl rfl rfl⟩
      · have hsame := hsound.writer
        simp only [WriterSound, hat] at hsame
        obtain ⟨hbuffer, hlength, hrecord, hafter⟩ := hsame
        obtain ⟨hstreams, hwriter⟩ := sound_commit cancelledAfterCommit now hsound hbuffer
          hlength hrecord hafter
        exact ⟨hsound.moved hunfinished commit_frame.2.2 hstreams hwriter, keeps_commit⟩
    · cases h
  | fail reason =>
    cases h
    have hkeeps : s.Keeps { s with failure := some reason } := .of_frame rfl rfl rfl
    exact ⟨hsound.frame hkeeps rfl rfl rfl rfl hsound.complete, hkeeps⟩
  | transition fence change now =>
    simp only [step] at h
    split_ifs at h with hseals
    cases h
    cases hnext : transitionProcessTask s.task fence change now with
    | error refusal => exact ⟨hsound.frame (.refl s) rfl rfl rfl rfl hsound.complete, .refl s⟩
    | ok next =>
      obtain ⟨hadmits, -, rfl⟩ := transitionProcessTask_ok.1 hnext
      have hkeeps : s.Keeps { s with task := s.task.changed change } :=
        .of_frame (ProcessTaskSnapshot.changed_owner ..) rfl rfl
      refine ⟨hsound.frame hkeeps rfl rfl rfl rfl fun hstate => ?_, hkeeps⟩
      cases change with
      | sealed terminal => exact absurd rfl hseals
      | attachment attachment => exact absurd hstate hadmits.unsealed
      | _ => cases hstate
  | renew leaseExpiresAt =>
    simp only [step] at h
    split_ifs at h with hstate
    cases h
    have hkeeps : s.Keeps { s with task := s.task.withLease leaseExpiresAt } := .of_frame rfl rfl rfl
    exact ⟨hsound.frame hkeeps rfl rfl rfl rfl fun hterminal => absurd hterminal hstate, hkeeps⟩
  | reconcile _ sealedAt =>
    by_cases hstate : s.task.state = .terminal
    · simp [step, hstate] at h
    · rw [step, if_neg hstate] at h
      cases h
      refine ⟨hsound.frame (.of_frame rfl rfl rfl) rfl rfl rfl rfl fun _ hcomplete => ?_,
        .of_frame rfl rfl rfl⟩
      simp at hcomplete
  | settle result saved sealedAt =>
    simp only [step] at h
    split_ifs at h with hdone
    cases h
    cases hnext : Settlement.settle s.task result (s.settledFailure saved) saved sealedAt with
    | error refusal => exact ⟨hsound.frame (.of_frame rfl rfl rfl) rfl rfl rfl rfl hsound.complete,
        .of_frame rfl rfl rfl⟩
    | ok next =>
      obtain ⟨-, -, rfl⟩ := transitionProcessTask_ok.1 hnext
      have howner := ProcessTaskSnapshot.changed_owner s.task
        (.sealed (Settlement.sealedTerminal s.task result (s.settledFailure saved) saved sealedAt))
      refine ⟨hsound.frame (.of_frame howner rfl rfl) rfl rfl rfl rfl fun _ hcomplete => ?_,
        .of_frame howner rfl rfl⟩
      -- nothing failed, so `finish` returned
      have hnone : s.settledFailure saved = none :=
        @settledFacts_complete s.task result _ (Option.some.inj hcomplete)
      rcases hdone with hfinished | ⟨-, hfailed⟩
      · exact hfinished
      · rw [settledFailure] at hnone
        split_ifs at hnone
        exact absurd hnone hfailed
  | ingest artifactId artifact =>
    simp only [step] at h
    split_ifs at h with hfree
    cases h
    exact ⟨hsound.frame (keeps_ingest (not_not.1 hfree)) rfl rfl rfl rfl hsound.complete,
      keeps_ingest (not_not.1 hfree)⟩
  | withhold artifactId =>
    cases h
    set withheld := (s.artifacts artifactId).map fun artifact => { artifact with available := false }
      with hwithheld
    have hkeeps : s.Keeps { s with artifacts := Function.update s.artifacts artifactId withheld } := by
      refine ⟨rfl, fun id record h => ?_, fun _ => List.prefix_rfl⟩
      by_cases hid : id = artifactId
      · subst hid
        exact ⟨{ record with available := false }, by simp [hwithheld, h], rfl, rfl, rfl⟩
      · exact ⟨record, by simp [Function.update_of_ne hid, h], rfl, rfl, rfl⟩
    exact ⟨hsound.frame hkeeps rfl rfl rfl rfl hsound.complete, hkeeps⟩

theorem sound_initial {task : ProcessTaskSnapshot} {artifacts : ArtifactStore}
    (h : task.state ≠ .terminal) : (initial task artifacts).Sound where
  streams stream := ⟨storedRows_nil, le_rfl, le_rfl, rfl, by simp [initial], by simp [initial]⟩
  writer := trivial
  complete hstate := absurd hstate h

/-- **Logs are what was written**, whatever happened. -/
theorem sound_run {es : List OutputEvent} (hsound : s.Sound)
    (h : run (step blockId digest) s es = some t) : t.Sound ∧ s.Keeps t :=
  run_invariant (I := fun t => t.Sound ∧ s.Keeps t)
    (fun _ _ _ hI hstep => ⟨(sound_step hI.1 hstep).1, hI.2.trans (sound_step hI.1 hstep).2⟩)
    ⟨hsound, .refl s⟩ h

end
end OutputSystem

end Falryn.Orchestration
