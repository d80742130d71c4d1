import Falryn.Orchestration.TaskLogSoundness

/-!
# Logs are exact while they are written

What a reader is given of a log at any moment are the bytes that were appended, at the offset it asked
for.  There is as much to read as was appended when the last block was committed, or, with the buffer at
hand, as was appended by now; a log is complete when its task is sealed and all of it was stored.
-/

namespace Falryn.Orchestration

open StateMachine

namespace OutputSystem

section
variable (blockId : ProcessTaskHandle → ProcessStreamName → ℕ → String) (digest : List UInt8 → String)

/-- The artifacts are read at a moment from `s` on, or not at all. -/
def ReadFrom (s : OutputSystem) (reads : ArtifactReads) : Prop :=
  ∀ asked artifacts, reads asked = .ok artifacts →
    ∃ es t, run (step blockId digest) s es = some t ∧ t.artifacts = artifacts

/-- How much of a log there is to read. -/
def available (s : OutputSystem) (stream : ProcessStreamName) (owned : Bool) : ℕ :=
  logBytes s.task (if owned then some (s.snapshot stream) else none) (s.appended stream)
    (s.durable stream)

/-- A reader goes on where it stopped, again and again, from `s` to `t`. -/
inductive ReadsOn (stream : ProcessStreamName) :
    OutputSystem → ℕ → List UInt8 → ℕ → OutputSystem → Prop
  | stop (s : OutputSystem) (offset : ℕ) : ReadsOn stream s offset [] offset s
  | more {s s' t : OutputSystem} {offset last : ℕ} {limit : ℤ} {bytes : List UInt8}
      {reads : ArtifactReads} {owned : Bool} {read : ProcessTaskBytes} {es : List OutputEvent}
      (hlater : s.ReadFrom blockId digest reads)
      (hread : s.read reads stream offset limit owned = .ok read)
      (hrun : run (step blockId digest) s es = some s')
      (hrest : ReadsOn stream s' read.nextOffset bytes last t) :
      ReadsOn stream s offset (read.bytes ++ bytes) last t

section
variable {blockId} {digest} {s t : OutputSystem} {stream : ProcessStreamName} {reads : ArtifactReads}
  {offset limit : ℤ} {owned : Bool} {read : ProcessTaskBytes} {e : OutputEvent} {es : List OutputEvent}

/-! ## One read -/

theorem StreamSound.parts (h : s.StreamSound stream) :
    LogParts (s.rows stream) (if owned then some (s.snapshot stream) else none) (s.appended stream)
      (s.durable stream) := by
  refine ⟨h.stored, h.within, fun _ hlive => ?_⟩
  split_ifs at hlive
  · cases hlive
    exact ⟨h.begins, h.buffered⟩
  · cases hlive

theorem Sound.rowBacked (h : s.Sound) (hlater : s.ReadFrom blockId digest reads) :
    ∀ row ∈ s.rows stream, RowBacked reads (s.appended stream) row := by
  intro row hrow asked artifacts record hreads hrecord
  obtain ⟨es, t, hrun, rfl⟩ := hlater asked artifacts hreads
  obtain ⟨found, hfound, hbytes, -, -, -⟩ := (h.streams stream).backed row hrow
  obtain ⟨record', hrecord', hsame, -, -⟩ := (sound_run h hrun).2.artifacts _ found hfound
  cases hrecord.symm.trans hrecord'
  exact hsame.trans hbytes

/-- **A read of a log** gives what was appended. -/
theorem Sound.read_log (h : s.Sound) (hlater : s.ReadFrom blockId digest reads)
    (hread : s.read reads stream offset limit owned = .ok read) :
    LogRead s.task (s.appended stream) (s.available stream owned) (s.durable stream) offset limit read :=
  readProcessTaskBytes_log (h.streams stream).parts (h.rowBacked hlater) hread

/-- A log that is complete was stored to its end. -/
theorem Sound.complete_all (h : s.Sound) (hstate : s.task.state = .terminal)
    (hcomplete : s.task.terminal.bind (·.outputComplete) = some true) :
    s.durable stream = (s.appended stream).length := by
  have hwriter := h.writer
  simp only [WriterSound, h.complete hstate hcomplete] at hwriter
  have hempty : (s.buffers stream).bytes = [] := hwriter stream (by simp)
  have hlength := (h.streams stream).buffer_length
  rw [hempty, List.length_nil, Nat.add_zero] at hlength
  have hbegins := (h.streams stream).begins
  have hwithin := (h.streams stream).within
  omega

/-! ## What was appended

Unless the output fails, the bytes of the buffer and the blocks are those that were given to `append`, up
to those it has not copied yet. -/

/-- The bytes that were given to `append`. -/
def given (es : List OutputEvent) (stream : ProcessStreamName) : List UInt8 :=
  es.flatMap fun
    | .append other bytes => if other = stream then bytes else []
    | _ => []

/-- The bytes that are not copied yet. -/
def pending (s : OutputSystem) (stream : ProcessStreamName) : List UInt8 :=
  match s.writer with
  | .appending other rest => if other = stream then rest else []
  | .retaining other _ after | .committing other _ _ after | .committed other after =>
    if other = stream then after.rest else []
  | _ => []

variable {other : ProcessStreamName} {after : AfterFlush}

theorem pending_goOn :
    (s.goOn other after).pending stream = if other = stream then after.rest else [] := by
  cases after with
  | append rest => rfl
  | finish => exact (ite_self []).symm

theorem pending_flush :
    (s.flush other after).pending stream = if other = stream then after.rest else [] := by
  rw [flush]
  split_ifs with hempty hsame hsame
  · rw [pending_goOn, if_pos hsame]
  · rw [pending_goOn, if_neg hsame]
  · exact if_pos hsame
  · exact if_neg hsame

@[simp] theorem goOn_failure : (s.goOn other after).failure = s.failure := by cases after <;> rfl

@[simp] theorem flush_failure :
    (s.flush other after).failure = s.failure := by rw [flush]; split_ifs <;> simp

/-- What is copied is no longer waiting. -/
theorem appended_resume (h : s.resume = some t) :
    t.failure = s.failure ∧ t.appended stream ++ t.pending stream = s.appended stream ++ s.pending stream := by
  unfold resume at h
  cases hat : s.writer with
  | idle | retaining | committing | finished => simp [hat] at h
  | appending other rest =>
    have hpending : s.pending stream = if other = stream then rest else [] := by simp [pending, hat]
    simp only [hat] at h
    split_ifs at h with hrest hfull
    · cases h
      rw [hpending, hrest]
      exact ⟨rfl, by simp [pending]⟩
    all_goals
      cases h
      set count := min (blockBytes - (s.buffers other).bytes.length) rest.length
      have hcopied : (s.copied other (rest.take count)).appended stream
          ++ (if other = stream then rest.drop count else [])
            = s.appended stream ++ (if other = stream then rest else []) := by
        by_cases hsame : other = stream
        · subst hsame
          simp [copied]
        · simp [copied, hsame, Function.update_of_ne (Ne.symm hsame)]
    · rw [flush_failure, flush_appended, pending_flush, hpending]
      exact ⟨rfl, hcopied⟩
    · rw [goOn_failure, goOn_appended, pending_goOn, hpending]
      exact ⟨rfl, hcopied⟩
  | finishing streams =>
    have hpending : s.pending stream = [] := by simp [pending, hat]
    simp only [hat] at h
    cases streams with
    | nil =>
      cases h
      rw [hpending]
      exact ⟨rfl, by simp [pending]⟩
    | cons other streams =>
      cases h
      rw [flush_failure, flush_appended, pending_flush, hpending]
      exact ⟨rfl, by simp [AfterFlush.rest]⟩
  | committed other after =>
    have hpending : s.pending stream = if other = stream then after.rest else [] := by
      simp [pending, hat]
    simp only [hat] at h
    cases h
    rw [goOn_failure, goOn_appended, pending_goOn, hpending]
    exact ⟨rfl, rfl⟩

/-- Nothing is written, and nothing fails. -/
theorem appended_frame (hfailure : t.failure = s.failure) (hwriter : t.writer = s.writer)
    (happended : t.appended = s.appended) :
    t.failure = s.failure ∧ t.appended stream ++ t.pending stream = s.appended stream ++ s.pending stream := by
  rw [happended, pending, hwriter, pending]
  exact ⟨hfailure, rfl⟩

theorem appended_nothing (hfine : t.failure = none)
    (hsame : t.failure = s.failure
      ∧ t.appended stream ++ t.pending stream = s.appended stream ++ s.pending stream)
    (hgiven : given [e] stream = []) : s.failure = none
      ∧ t.appended stream ++ t.pending stream = s.appended stream ++ s.pending stream ++ given [e] stream :=
  ⟨hsame.1 ▸ hfine, by rw [hgiven, List.append_nil, hsame.2]⟩

/-- **One event** that does not fail appends what is given. -/
theorem appended_step (h : s.step blockId digest e = some t) (hfine : t.failure = none) :
    s.failure = none
      ∧ t.appended stream ++ t.pending stream = s.appended stream ++ s.pending stream ++ given [e] stream := by
  cases e with
  | append other =>
    simp only [step] at h
    split_ifs at h with hidle hlimit <;> cases h
    · cases hfine
    · refine ⟨hfine, ?_⟩
      simp [pending, hidle, given]
  | finish =>
    simp only [step] at h
    split_ifs at h with hidle
    cases h
    exact appended_nothing hfine ⟨rfl, by simp [pending, hidle]⟩ rfl
  | resume => exact appended_nothing hfine (appended_resume h) rfl
  | retain outcome =>
    simp only [step] at h
    split at h
    · next other block after hat =>
      cases h
      cases outcome with
      | failed => cases hfine
      | stored =>
        simp only [retain] at hfine ⊢
        split_ifs at hfine ⊢ with htaken hcancelled
        · cases hfine
        · cases hfine
        · exact appended_nothing hfine ⟨rfl, by simp [pending, hat]⟩ rfl
    · cases h
  | commit =>
    simp only [step] at h
    split at h
    · next other block _ after hat =>
      split_ifs at h with hlost <;> cases h
      · cases hfine
      · rw [commit] at hfine ⊢
        split at hfine
        · cases hfine
        · next =>
          dsimp only at hfine ⊢
          split_ifs at hfine ⊢ with hcancelled
          · cases hfine
          · exact appended_nothing hfine ⟨rfl, by simp [pending, hat]⟩ rfl
    · cases h
  | fail =>
    cases h
    cases hfine
  | withhold =>
    cases h
    exact appended_nothing hfine (appended_frame rfl rfl rfl) rfl
  | settle _ saved sealedAt =>
    simp only [step] at h
    split_ifs at h with hdone
    cases h
    have hsame : s.settledFailure saved = s.failure := by
      change s.settledFailure saved = none at hfine
      rw [settledFailure] at hfine ⊢
      split_ifs at hfine ⊢
      rfl
    exact appended_nothing hfine (appended_frame hsame rfl rfl) rfl
  | reconcile _ sealedAt =>
    by_cases hstate : s.task.state = .terminal
    · simp [step, hstate] at h
    · rw [step, if_neg hstate] at h
      cases h
      exact appended_nothing hfine (appended_frame rfl rfl rfl) rfl
  | _ =>
    simp only [step] at h
    split_ifs at h
    cases h
    exact appended_nothing hfine (appended_frame rfl rfl rfl) rfl

/-- **What was appended** is what was given, unless the output failed. -/
theorem appended_run {task : ProcessTaskSnapshot} {artifacts : ArtifactStore} :
    ∀ {es : List OutputEvent} {t : OutputSystem},
      run (step blockId digest) (initial task artifacts) es = some t → t.failure = none →
        t.appended stream ++ t.pending stream = given es stream := by
  intro es
  induction es using List.reverseRecOn with
  | nil =>
    intro t h _
    cases h
    rfl
  | append_singleton es _ ih =>
    intro t h hfine
    obtain ⟨s, hs, hstep⟩ := run_concat.1 h
    obtain ⟨hbefore, hsame⟩ := appended_step hstep hfine
    rw [hsame, ih hs hbefore, given, given, given, List.flatMap_append]

/-! ## One after the other -/

/-- **A reader that goes on where it stopped** is given the log without gap or repetition. -/
theorem ReadsOn.exact {offset last : ℕ} {bytes : List UInt8}
    (h : ReadsOn blockId digest stream s offset bytes last t) (hsound : s.Sound) :
    last = offset + bytes.length ∧ bytes = bytesFrom (t.appended stream) offset bytes.length
      ∧ s.appended stream <+: t.appended stream := by
  induction h with
  | stop s offset => exact ⟨rfl, by simp [bytesFrom], List.prefix_rfl⟩
  | @more s s' t offset last limit bytes reads owned read es hlater hread hrun hrest ih =>
    obtain ⟨hsound', hkeeps⟩ := sound_run hsound hrun
    obtain ⟨hlast, hbytes, hprefix⟩ := ih hsound'
    have hread := hsound.read_log hlater hread
    have hoffset := Int.ofNat.inj hread.offset
    have hprefix := (hkeeps.appended stream).trans hprefix
    rw [hread.nextOffset, hoffset] at hlast hbytes
    refine ⟨by rw [List.length_append]; omega, ?_, hprefix⟩
    have hfirst := hread.bytes
    rw [hoffset] at hfirst
    have hwithin := hread.within
    rw [List.length_append, ← bytesFrom_append, ← hbytes]
    congr 1
    rcases Nat.eq_zero_or_pos read.bytes.length with hempty | hsome
    · rw [List.eq_nil_of_length_eq_zero hempty, List.length_nil, bytesFrom_zero_length]
    · rw [bytesFrom_prefix_eq hprefix (by omega)]
      exact hfirst

/-! ## The last block -/

theorem resume_rows (h : s.resume = some t) : t.rows = s.rows := by
  unfold resume at h
  split at h
  · dsimp only at h
    split_ifs at h <;> cases h <;> simp [copied]
  · cases h
    rfl
  · cases h
    simp
  · cases h
    simp [taken]
  · cases h

/-- Rows change when a block is committed, and then all that was appended is stored. -/
theorem commit_rows (hsound : s.Sound) {block : ProcessTaskTail} {artifact : ProcessTaskArtifact} {cancelledAfterCommit : Bool} {now : ℤ} {flushed : ProcessStreamName}
    (hbuffer : s.buffers flushed = block) (hlength : artifact.byteLength = block.bytes.length)
    (hrecord : ∃ record, s.artifacts artifact.artifactId = some record ∧ record.bytes = block.bytes) :
    let t := s.commit flushed block artifact after cancelledAfterCommit now
    t.rows stream = s.rows stream ∨ (t.appended stream).length = t.durable stream := by
  rw [commit]
  split
  · exact .inl rfl
  next rows hrows =>
    obtain ⟨hstream, hstored, hothers⟩ :=
      appendChunk_block (hsound.streams flushed) hbuffer hlength hrecord hrows
    by_cases hsame : stream = flushed
    · subst hsame
      have hwithin := hstream.within
      have hbytes := (hsound.streams stream).buffer_length
      rw [hbuffer] at hbytes
      have hall : (s.appended stream).length = ({ s with rows } : OutputSystem).durable stream :=
        le_antisymm (hbytes ▸ hstored) hwithin
      dsimp only
      split_ifs <;> exact .inr hall
    · dsimp only
      split_ifs <;> exact .inl (hothers stream hsame)

theorem rows_step (hsound : s.Sound) (h : s.step blockId digest e = some t) :
    t.rows stream = s.rows stream ∨ (t.appended stream).length = t.durable stream := by
  cases e with
  | resume => exact .inl (congrFun (resume_rows h) stream)
  | commit =>
    simp only [step] at h
    split at h
    · next hat =>
      split_ifs at h with hlost <;> cases h
      · exact .inl rfl
      · have hsame := hsound.writer
        simp only [WriterSound, hat] at hsame
        exact commit_rows hsound hsame.1 hsame.2.1 hsame.2.2.1
    · cases h
  | retain =>
    simp only [step] at h
    split at h
    · cases h
      exact .inl (by rw [(retain_frame _ _ _ _ _ _ _).1])
    · cases h
  | fail | withhold =>
    cases h
    exact .inl rfl
  | settle _ _ sealedAt =>
    simp only [step] at h
    by_cases hdone : s.writer = .finished ∨ s.writer = .idle ∧ s.failure ≠ none
    · rw [if_pos hdone] at h
      cases h
      exact .inl rfl
    · rw [if_neg hdone] at h
      cases h
  | reconcile _ sealedAt =>
    by_cases hstate : s.task.state = .terminal
    · simp [step, hstate] at h
    · rw [step, if_neg hstate] at h
      cases h
      exact .inl rfl
  | _ =>
    simp only [step] at h
    split_ifs at h <;> cases h <;> exact .inl rfl

/-- **The blocks end where the appended bytes ended** when the last of them was committed. -/
theorem durable_since (hsound : s.Sound) (hempty : (s.appended stream).length = s.durable stream)
    (h : run (step blockId digest) s es = some t) :
    ∃ es₁ es₂ s₁, es = es₁ ++ es₂ ∧ run (step blockId digest) s es₁ = some s₁
      ∧ t.rows stream = s₁.rows stream ∧ (s₁.appended stream).length = t.durable stream := by
  obtain ⟨es₁, es₂, s₁, hes, hrun, hall, hrows⟩ := run_since (I := Sound) (m := fun s => s.rows stream)
    (Q := fun s => (s.appended stream).length = s.durable stream)
    (fun _ _ _ hI hstep => (sound_step hI hstep).1) (fun _ _ _ hI hstep => rows_step hI hstep) hsound
    hempty h
  exact ⟨es₁, es₂, s₁, hes, hrun, hrows, by rw [hall, durable, durable, hrows]⟩

/-- **Logs are exact while they are written.**  In every run of a task whose output is written, whatever
else happens to it:

* unless the output fails, what was appended is what was given to `append`, up to what it still copies;
* a read that goes through gives the bytes that were appended at its offset, as many as it asked for or
  all that is there; there is as much as was appended at a moment since which no block was committed, and
  with the buffer of a task that is not sealed, as was appended by now;
* a read of a range that is there goes through, if the artifacts of the blocks can be read;
* reads each of which goes on where the one before stopped, give the log without gap or repetition;
* the blocks lie one behind the other from the beginning, whatever is asked of `appendChunk`, and asking
  it again for what it did leaves them as they are;
* a read is complete only if the task is sealed and the read ends where what was appended ends. -/
theorem log_reads_exact {task : ProcessTaskSnapshot} {artifacts : ArtifactStore}
    (htask : task.state ≠ .terminal)
    (hrun : run (step blockId digest) (initial task artifacts) es = some s) (stream : ProcessStreamName) :
    (s.failure = none → s.appended stream ++ s.pending stream = given es stream)
      ∧ (∀ reads offset limit owned read, s.ReadFrom blockId digest reads →
        s.read reads stream offset limit owned = .ok read →
          (read.offset : ℤ) = offset ∧ read.nextOffset = read.offset + read.bytes.length
            ∧ read.bytes = bytesFrom (s.appended stream) read.offset read.bytes.length
            ∧ read.bytes.length = min limit.toNat (read.availableBytes - read.offset)
            ∧ read.nextOffset ≤ read.availableBytes
            ∧ (∃ es₁ es₂ s₁, es = es₁ ++ es₂
                ∧ run (step blockId digest) (initial task artifacts) es₁ = some s₁
                ∧ s.rows stream = s₁.rows stream
                ∧ (s₁.appended stream).length = read.availableBytes)
            ∧ (owned = true → s.task.state ≠ .terminal →
                read.availableBytes = (s.appended stream).length)
            ∧ (read.complete = true → s.task.state = .terminal ∧ read.nextOffset = read.availableBytes
                ∧ read.nextOffset = (s.appended stream).length))
      ∧ (∀ reads offset limit owned, s.ReadFrom blockId digest reads →
          ValidRange offset limit (s.available stream owned) →
            (∀ row ∈ s.rows stream, RowReadable reads s.task row) →
              ∃ read, s.read reads stream offset limit owned = .ok read)
      ∧ (∀ offset bytes last t, ReadsOn blockId digest stream s offset bytes last t →
          last = offset + bytes.length ∧ bytes = bytesFrom (t.appended stream) offset bytes.length)
      ∧ nextOffset 0 (s.rows stream) = some (s.durable stream)
      ∧ ∀ asked artifacts fence chunk now rows, appendChunk asked artifacts s.rows fence chunk now = .ok rows →
          (∃ last, nextOffset 0 (rows stream) = some last)
            ∧ ∀ asked' artifacts' fence' now' rows',
              appendChunk asked' artifacts' rows fence' chunk now' = .ok rows' → rows' = rows := by
  obtain ⟨hsound, -⟩ := sound_run (sound_initial htask) hrun
  refine ⟨appended_run hrun, fun reads offset limit owned read hlater hread => ?_, fun reads offset limit owned hlater hrange
    hreadable => ?_, fun offset bytes last t hreads => ?_, (hsound.streams stream).stored.next,
    fun asked artifacts fence chunk now rows hrows => ⟨?_, ?_⟩⟩
  · have hlog := hsound.read_log hlater hread
    have hoffset := hlog.offset
    have hwithin := hlog.range.2
    refine ⟨hlog.offset, hlog.nextOffset, hlog.bytes, ?_, ?_, ?_, fun howned hstate => ?_,
      fun hcomplete => ?_⟩
    · rw [hlog.availableBytes]
      exact hlog.length
    · have hlength := hlog.length
      rw [hlog.nextOffset, hlog.availableBytes]
      omega
    · rw [hlog.availableBytes, available, logBytes]
      by_cases hlive : s.task.state ≠ .terminal ∧ (if owned then some (s.snapshot stream) else none) ≠ none
      · rw [if_pos hlive]
        exact ⟨es, [], s, by rw [List.append_nil], hrun, rfl, rfl⟩
      · rw [if_neg hlive]
        exact durable_since (sound_initial htask) rfl hrun
    · rw [hlog.availableBytes, available, logBytes]
      exact if_pos ⟨hstate, by simp [howned]⟩
    · obtain ⟨hstate, hend, hterminal⟩ := hlog.complete.1 hcomplete
      have havailable : s.available stream owned = s.durable stream := if_neg fun h => h.1 hstate
      rw [hlog.availableBytes]
      exact ⟨hstate, hend, by rw [hend, havailable, hsound.complete_all hstate hterminal]⟩
  · exact readProcessTaskBytes_readable (hsound.streams stream).parts (hsound.rowBacked hlater) hrange
      hreadable
  · obtain ⟨hlast, hbytes, -⟩ := hreads.exact hsound
    exact ⟨hlast, hbytes⟩
  · have hsize := (hsound.streams chunk.stream).stored.size
    rcases (hsound.streams stream).stored.append hsize hrows with hsame | ⟨-, -, -, hstored⟩
    · exact ⟨_, hsame ▸ (hsound.streams stream).stored.next⟩
    · exact ⟨_, hstored.next⟩
  · intro asked' artifacts' fence' now' rows' hagain
    exact appendChunk_again (hsound.streams chunk.stream).stored.size hrows hagain

end
end

/-! ## A block that is not taken out of the buffer yet -/

/-- A process that writes. -/
def writingProcess : ProcessTaskSnapshot where
  executionKind := none
  handle := ⟨"task-1", "generation-1"⟩
  revision := 2
  owner := ⟨"session-1", "workspace-1", "turn-1", "invocation-1", "attempt-1", 1, "resources-1"⟩
  supervisor := ⟨"run-1", some ⟨.linux, 100, "boot:1000"⟩, 15000⟩
  attachment := .background
  createdAt := 0
  deadline := 20000
  inputDigest := String.ofList (List.replicate 64 'a')
  outputMode := .raw
  state := .running
  process := some ⟨.linux, 101, "boot:1001"⟩
  terminal := none

/-- Three bytes are appended, and the call of `finish` is between the commit of their block and its own
bookkeeping. -/
def writingEvents : List OutputEvent :=
  [.append .stdout [70, 97, 108], .resume, .resume, .finish, .resume, .retain (.stored true false),
    .commit false false 100]

/-- Where the buffer still holds a block that is stored, a read of it is exact. -/
theorem log_reads_exact_committed :
    ∃ s read, run (step (fun _ _ _ => "block-1") fun _ => "sha-256:" ++ String.ofList (List.replicate 64 'a'))
        (initial writingProcess fun _ => none) writingEvents = some s
      ∧ s.writer = .committed .stdout (.finish [.stderr])
      ∧ s.read (fun _ => .ok s.artifacts) .stdout 1 32 true = .ok read
      ∧ read.bytes = bytesFrom (s.appended .stdout) 1 read.bytes.length
      ∧ read.availableBytes = (s.appended .stdout).length := by
  have hstate : ((run (step (fun _ _ _ => "block-1")
      fun _ => "sha-256:" ++ String.ofList (List.replicate 64 'a')) (initial writingProcess fun _ => none)
        writingEvents).bind fun s => (s.read (fun _ => .ok s.artifacts) .stdout 1 32 true).toOption.map
          fun _ => decide (s.writer = .committed .stdout (.finish [.stderr])
            ∧ s.task.state ≠ .terminal)) = some true := by decide +kernel
  obtain ⟨s, hrun, hstate⟩ := Option.bind_eq_some_iff.1 hstate
  obtain ⟨read, hread, hstate⟩ := Option.map_eq_some_iff.1 hstate
  obtain ⟨hwriter, hunsealed⟩ := of_decide_eq_true hstate
  have hread := toOption_eq_some.1 hread
  obtain ⟨hoffset, -, hbytes, -, -, -, havailable, -⟩ := (log_reads_exact (by decide) hrun .stdout).2.1
    _ 1 32 true read (fun _ artifacts h => ⟨[], s, rfl, Except.ok.inj h⟩) hread
  have hoffset : read.offset = 1 := by exact_mod_cast hoffset
  exact ⟨s, read, hrun, hwriter, hread, hoffset ▸ hbytes, havailable rfl hunsealed⟩

end OutputSystem

end Falryn.Orchestration
