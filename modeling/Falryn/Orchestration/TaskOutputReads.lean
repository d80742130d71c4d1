import Falryn.Orchestration.TaskOutput

/-!
# Blocks and what is read of them

The blocks of a stream lie one behind the other from its beginning, whatever is asked of `appendChunk`,
and asking again changes nothing.  A read that goes through gives the bytes of the stream at its offset:
first those of the blocks, and then those of the live tail, which may overlap with the last of them.
-/

namespace Falryn.Orchestration

/-! ## Bytes at an offset -/

theorem length_bytesFrom (bytes : List UInt8) (offset length : ℕ) :
    (bytesFrom bytes offset length).length = min length (bytes.length - offset) := by
  simp [bytesFrom]

theorem bytesFrom_zero_length (bytes : List UInt8) (offset : ℕ) : bytesFrom bytes offset 0 = [] := by
  simp [bytesFrom]

variable {offset : ℕ} {length : ℕ} {bytes : List UInt8}

/-- Bytes of the bytes at an offset. -/
theorem bytesFrom_bytesFrom (bytes : List UInt8) {first size : ℕ} (h : offset + length ≤ size) :
    bytesFrom (bytesFrom bytes first size) offset length = bytesFrom bytes (first + offset) length := by
  simp only [bytesFrom, List.drop_take, List.drop_drop, List.take_take]
  rw [min_eq_left (by omega)]

theorem bytesFrom_drop (bytes : List UInt8) (first offset length : ℕ) :
    bytesFrom (bytes.drop first) offset length = bytesFrom bytes (first + offset) length := by
  rw [bytesFrom, List.drop_drop, bytesFrom]

/-- Bytes one behind the other. -/
theorem bytesFrom_append (bytes : List UInt8) (offset length more : ℕ) :
    bytesFrom bytes offset length ++ bytesFrom bytes (offset + length) more
      = bytesFrom bytes offset (length + more) := by
  simp only [bytesFrom, ← List.drop_drop]
  exact (List.take_add ..).symm

/-- What follows bytes that were read, where they end. -/
theorem bytesFrom_append_from {copied : List UInt8} {start more : ℕ}
    (hcopied : copied = bytesFrom bytes offset copied.length) (hstart : start = offset + copied.length) :
    copied ++ bytesFrom bytes start more = bytesFrom bytes offset (copied.length + more) := by
  rw [hstart, ← bytesFrom_append, ← hcopied]

/-- Bytes within a prefix. -/
theorem bytesFrom_prefix_eq {bytes' : List UInt8} (h : bytes <+: bytes')
    (hlength : offset + length ≤ bytes.length) :
    bytesFrom bytes' offset length = bytesFrom bytes offset length := by
  obtain ⟨rest, rfl⟩ := h
  rw [bytesFrom, bytesFrom, List.drop_append_of_le_length (by omega),
    List.take_append_of_le_length (by simp; omega)]

/-! ## Rows one behind the other -/

theorem nextOffset_concat (row : ProcessTaskChunk) : ∀ (rows : List ProcessTaskChunk) (next : ℕ),
    nextOffset next (rows ++ [row]) = (nextOffset next rows).bind fun last =>
      if row.offset = last then some (last + row.artifact.byteLength) else none
  | [], next => by simp [nextOffset]
  | first :: rows, next => by
    rw [List.cons_append, nextOffset, nextOffset]
    split_ifs
    · exact nextOffset_concat row rows _
    · rfl

theorem nextOffset_le : ∀ {rows : List ProcessTaskChunk} {next last : ℕ},
    nextOffset next rows = some last →
      next ≤ last ∧ ∀ row ∈ rows, next ≤ row.offset ∧ row.offset + row.artifact.byteLength ≤ last
  | [], next, last, h => by
    cases h
    exact ⟨le_rfl, by simp⟩
  | row :: rows, next, last, h => by
    rw [nextOffset] at h
    split_ifs at h with hoffset
    obtain ⟨hle, hrows⟩ := nextOffset_le h
    refine ⟨by omega, fun other hother => ?_⟩
    rcases List.mem_cons.1 hother with rfl | hother
    · exact ⟨hoffset.ge, by omega⟩
    · obtain ⟨hlow, hhigh⟩ := hrows other hother
      exact ⟨by omega, hhigh⟩

theorem nextOffset_sum : ∀ {rows : List ProcessTaskChunk} {next last : ℕ},
    nextOffset next rows = some last → next + (rows.map (·.artifact.byteLength)).sum = last
  | [], next, last, h => by
    cases h
    rfl
  | row :: rows, next, last, h => by
    rw [nextOffset] at h
    split_ifs at h
    rw [List.map_cons, List.sum_cons, ← Nat.add_assoc]
    exact nextOffset_sum h

/-- The rows of a stream: they lie one behind the other, up to `durable`. -/
structure StoredRows (rows : List ProcessTaskChunk) (durable : ℕ) : Prop where
  next : nextOffset 0 rows = some durable
  size : rows.length ≤ 256
  bound : durable ≤ maxProcessCaptureBytes
  each : ∀ row ∈ rows, row.Schema ∧ 1 ≤ row.artifact.byteLength ∧ row.artifact.byteLength ≤ blockBytes

section
variable {rows : List ProcessTaskChunk} {durable : ℕ} {stream : ProcessStreamName}

theorem storedRows_nil : StoredRows [] 0 := ⟨rfl, by simp, by simp, by simp⟩

theorem checkChunks_ok {last : ℕ} : ∀ {rows : List ProcessTaskChunk} {next : ℕ},
    nextOffset next rows = some last → last ≤ maxProcessCaptureBytes →
      (∀ row ∈ rows, row.Schema ∧ 1 ≤ row.artifact.byteLength ∧ row.artifact.byteLength ≤ blockBytes) →
      checkChunks next rows = .ok ()
  | [], next, _, _, _ => rfl
  | row :: rows, next, hnext, hbound, heach => by
    obtain ⟨-, hrows⟩ := nextOffset_le hnext
    obtain ⟨hfirst, hrest⟩ := List.forall_mem_cons.1 heach
    have hend := (hrows row List.mem_cons_self).2
    rw [nextOffset] at hnext
    split_ifs at hnext with hoffset
    simp only [checkChunks, except_bind_ok, refuseIf_ok, exists_const]
    refine ⟨?_, ?_, checkChunks_ok hnext hbound hrest⟩
    · rintro (hschema | hmoved | hshort | hlong)
      · exact hschema hfirst.1
      · exact hmoved hoffset
      · omega
      · omega
    · omega

/-- **Stored rows are read** as they are. -/
theorem StoredRows.read {rows : ChunkRows}
    (h : StoredRows (rows stream) durable) : readChunks rows stream = .ok (rows stream) := by
  have htake : (rows stream).take 257 = rows stream := List.take_of_length_le (by have := h.size; omega)
  simp only [readChunks, htake, except_bind_ok, refuseIf_ok, except_pure_ok, exists_const]
  exact ⟨not_lt.2 h.size, (), checkChunks_ok h.next h.bound h.each, trivial⟩

/-! ## Appending a chunk -/

variable {task : Except TaskFailure ProcessTaskSnapshot} {artifacts : ArtifactStore}
  {stored stored' stored'' : ChunkRows} {fence : ProcessTaskFence} {chunk : ProcessTaskChunk} {now : ℤ}

/-- What is asked of a chunk that is appended anew. -/
structure Appended (task : ProcessTaskSnapshot) (artifacts : ArtifactStore)
    (rows : List ProcessTaskChunk) (chunk : ProcessTaskChunk) : Prop where
  schema : chunk.Schema
  size : 1 ≤ chunk.artifact.byteLength ∧ chunk.artifact.byteLength ≤ blockBytes
  bound : chunk.offset + chunk.artifact.byteLength ≤ maxProcessCaptureBytes
  room : rows.length < 256
  next : nextOffset 0 rows = some chunk.offset
  artifact : ∃ artifact, artifacts chunk.artifact.artifactId = some artifact
    ∧ artifact.digest = chunk.artifact.digest ∧ artifact.bytes.length = chunk.artifact.byteLength
    ∧ artifact.invocationId = task.owner.invocationId

/-- **What `appendChunk` does**: it finds the chunk where it is asked to put it, or puts it behind the
rows of a task that is not sealed. -/
theorem appendChunk_ok (hsize : (stored chunk.stream).length ≤ 256)
    (h : appendChunk task artifacts stored fence chunk now = .ok stored') :
    ∃ current, task = .ok current ∧ current.state ≠ .terminal
      ∧ ((stored' = stored ∧ ∃ row ∈ stored chunk.stream, row.offset = chunk.offset
            ∧ row.artifact = chunk.artifact)
        ∨ stored' = Function.update stored chunk.stream (stored chunk.stream ++ [chunk])
          ∧ (stored chunk.stream).find? (fun row => row.offset = chunk.offset) = none
          ∧ Appended current artifacts (stored chunk.stream) chunk) := by
  have htake : (stored chunk.stream).take 257 = stored chunk.stream :=
    List.take_of_length_le (by omega)
  simp only [appendChunk, htake, except_bind_ok, refuseIf_ok, exists_const] at h
  obtain ⟨hschema, hchunk, current, htask, -, hsealed, -, -, -, h⟩ := h
  push Not at hschema hchunk
  refine ⟨current, htask, hsealed, ?_⟩
  split at h
  · next duplicate hfind =>
    simp only [except_bind_ok, refuseIf_ok, except_pure_ok, exists_const] at h
    obtain ⟨hsame, rfl⟩ := h
    exact .inl ⟨rfl, duplicate, List.mem_of_find?_eq_some hfind,
      by simpa using List.find?_some hfind, not_not.1 hsame⟩
  · next hfind =>
    simp only [except_bind_ok, refuseIf_ok, except_pure_ok, exists_const] at h
    obtain ⟨hroom, hnext, hartifact, rfl⟩ := h
    obtain ⟨artifact, hfound, -, hdigest, hlength, hinvocation⟩ := not_not.1 hartifact
    exact .inr ⟨rfl, hfind, hschema, ⟨hchunk.2.1, hchunk.2.2.1⟩, hchunk.2.2.2, not_le.1 hroom, not_not.1 hnext, artifact,
      hfound, hdigest, hlength, hinvocation⟩

/-- **The rows stay one behind the other**, whatever is appended. -/
theorem StoredRows.append (hrows : StoredRows (stored stream) durable)
    (hsize : (stored chunk.stream).length ≤ 256)
    (h : appendChunk task artifacts stored fence chunk now = .ok stored') :
    stored' stream = stored stream
      ∨ chunk.stream = stream ∧ durable = chunk.offset ∧ stored' stream = stored stream ++ [chunk]
        ∧ StoredRows (stored' stream) (durable + chunk.artifact.byteLength) := by
  obtain ⟨current, -, -, ⟨rfl, -⟩ | ⟨rfl, -, hnew⟩⟩ := appendChunk_ok hsize h
  · exact .inl rfl
  · by_cases hstream : chunk.stream = stream
    · subst hstream
      have hoffset : durable = chunk.offset := Option.some.inj (hrows.next.symm.trans hnew.next)
      rw [Function.update_self]
      refine .inr ⟨rfl, hoffset, rfl, ?_, ?_, hoffset ▸ hnew.bound, ?_⟩
      · rw [nextOffset_concat, hrows.next, Option.bind_some, if_pos hoffset.symm]
      · have := hnew.room
        simp
        omega
      · intro row hrow
        rcases List.mem_append.1 hrow with hold | hlast
        · exact hrows.each row hold
        · obtain rfl := List.mem_singleton.1 hlast
          exact ⟨hnew.schema, hnew.size⟩
    · exact .inl (Function.update_of_ne (Ne.symm hstream) _ _)

/-- **A chunk that was appended is found** when it is appended again, whenever that is. -/
theorem appendChunk_again (hsize : (stored chunk.stream).length ≤ 256)
    (h : appendChunk task artifacts stored fence chunk now = .ok stored')
    {task' : Except TaskFailure ProcessTaskSnapshot} {artifacts' : ArtifactStore}
    {fence' : ProcessTaskFence} {now' : ℤ}
    (hagain : appendChunk task' artifacts' stored' fence' chunk now' = .ok stored'') :
    stored'' = stored' := by
  have hmem : ∃ row ∈ stored' chunk.stream, row.offset = chunk.offset := by
    obtain ⟨-, -, -, ⟨rfl, row, hrow, hoffset, -⟩ | ⟨rfl, -⟩⟩ := appendChunk_ok hsize h
    · exact ⟨row, hrow, hoffset⟩
    · exact ⟨chunk, by simp, rfl⟩
  have hsize' : (stored' chunk.stream).length ≤ 256 := by
    obtain ⟨current, -, -, ⟨rfl, -⟩ | ⟨rfl, -, hnew⟩⟩ := appendChunk_ok hsize h
    · exact hsize
    · have := hnew.room
      simp
      omega
  obtain ⟨-, -, -, ⟨hsame, -⟩ | ⟨-, hnone, -⟩⟩ := appendChunk_ok hsize' hagain
  · exact hsame
  · obtain ⟨row, hrow, hoffset⟩ := hmem
    exact absurd hoffset (by simpa using List.find?_eq_none.1 hnone row hrow)

end

/-! ## Copying the blocks -/

/-- The entry of a row. -/
def ProcessTaskChunk.entry (chunk : ProcessTaskChunk) : ℕ × ProcessTaskArtifact :=
  (chunk.offset, chunk.artifact)

/-- Whatever is stored under the artifact of a row, are the bytes of the stream where the row lies. -/
def RowBacked (reads : ArtifactReads) (content : List UInt8) (row : ProcessTaskChunk) : Prop :=
  ∀ asked artifacts record, reads asked = .ok artifacts →
    artifacts row.artifact.artifactId = some record →
      record.bytes = bytesFrom content row.offset row.artifact.byteLength

/-- The artifact of a row can be read, whenever it is. -/
def RowReadable (reads : ArtifactReads) (task : ProcessTaskSnapshot) (row : ProcessTaskChunk) : Prop :=
  ∀ asked, ∃ artifacts record, reads asked = .ok artifacts
    ∧ artifacts row.artifact.artifactId = some record
    ∧ record.invocationId = task.owner.invocationId ∧ record.digest = row.artifact.digest
    ∧ record.bytes.length = row.artifact.byteLength ∧ record.available = true

section
variable {reads : ArtifactReads} {task : ProcessTaskSnapshot} {content : List UInt8} {offset length : ℕ}

theorem readArtifact_ok {artifacts : ArtifactStore} {artifact : ProcessTaskArtifact} {start size : ℕ}
    {read : List UInt8} :
    readArtifact artifacts task artifact start size = .ok read ↔
      ∃ record, artifacts artifact.artifactId = some record
        ∧ (record.invocationId = task.owner.invocationId ∧ record.digest = artifact.digest
          ∧ record.bytes.length = artifact.byteLength ∧ record.available = true)
        ∧ read = bytesFrom record.bytes start size := by
  rw [readArtifact]
  cases artifacts artifact.artifactId with
  | none => simp
  | some record =>
    simp only [except_bind_ok, refuseIf_ok, except_pure_ok, exists_const, Option.some.injEq,
      exists_eq_left', not_or, not_not, ne_eq, Bool.not_eq_false]

/-- **What is copied of the blocks** are the bytes of the stream, up to where the blocks end. -/
theorem copyEntries_ok : ∀ {rows : List ProcessTaskChunk} {next last asked : ℕ} {copied result : List UInt8},
    nextOffset next rows = some last → (∀ row ∈ rows, RowBacked reads content row) →
      copied = bytesFrom content offset copied.length → copied.length = min length (next - offset) →
        copyEntries reads task offset length asked copied (rows.map ProcessTaskChunk.entry) = .ok result →
          result = bytesFrom content offset result.length ∧ result.length = min length (last - offset)
  | [], next, last, asked, copied, result, hnext, _, hcopied, hlength, h => by
    cases hnext
    cases h
    exact ⟨hcopied, hlength⟩
  | row :: rows, next, last, asked, copied, result, hnext, hbacked, hcopied, hlength, h => by
    obtain ⟨hle, -⟩ := nextOffset_le hnext
    obtain ⟨hfirst, hrest⟩ := List.forall_mem_cons.1 hbacked
    rw [nextOffset] at hnext
    split_ifs at hnext with hoffset
    rw [List.map_cons, copyEntries] at h
    by_cases hfull : copied.length = length
    · rw [if_pos hfull] at h
      cases h
      exact ⟨hcopied, by omega⟩
    rw [if_neg hfull] at h
    have hentry : row.entry = (next, row.artifact) := by rw [ProcessTaskChunk.entry, hoffset]
    simp only [hentry] at h
    by_cases hbefore : min (offset + length) (next + row.artifact.byteLength)
        ≤ max (offset + copied.length) next
    · -- the block ends before the bytes asked for begin
      rw [if_pos hbefore] at h
      exact copyEntries_ok hnext hrest hcopied (by omega) h
    · rw [if_neg hbefore] at h
      split at h
      · cases h
      next artifacts hreads =>
        obtain ⟨read, hread, h⟩ := except_bind_ok.1 h
        obtain ⟨_, hsize, h⟩ := except_bind_ok.1 h
        obtain ⟨record, hrecord, -, rfl⟩ := readArtifact_ok.1 hread
        have hsize := not_not.1 (refuseIf_ok.1 hsize)
        rw [hfirst asked artifacts record hreads hrecord, hoffset, bytesFrom_bytesFrom content (by omega)]
          at h hsize
        have hstart : next + (max (offset + copied.length) next - next) = offset + copied.length := by omega
        rw [hstart] at h hsize
        refine copyEntries_ok hnext hrest ?_ ?_ h
        · rw [List.length_append, hsize]
          exact bytesFrom_append_from hcopied rfl
        · rw [List.length_append, hsize]
          omega

variable (offset length) in
/-- Blocks that can be read are copied. -/
theorem copyEntries_readable : ∀ {rows : List ProcessTaskChunk} (asked : ℕ) (copied : List UInt8),
    (∀ row ∈ rows, RowReadable reads task row) →
      ∃ result, copyEntries reads task offset length asked copied (rows.map ProcessTaskChunk.entry)
        = .ok result
  | [], _, copied, _ => ⟨copied, rfl⟩
  | row :: rows, asked, copied, hreadable => by
    obtain ⟨hfirst, hrest⟩ := List.forall_mem_cons.1 hreadable
    rw [List.map_cons, copyEntries]
    by_cases hfull : copied.length = length
    · exact ⟨copied, if_pos hfull⟩
    rw [if_neg hfull]
    change ∃ result, (if min (offset + length) (row.offset + row.artifact.byteLength)
      ≤ max (offset + copied.length) row.offset then _ else _) = _
    set start := max (offset + copied.length) row.offset with hstart
    set stop := min (offset + length) (row.offset + row.artifact.byteLength) with hstop
    by_cases hbefore : stop ≤ start
    · rw [if_pos hbefore]
      exact copyEntries_readable _ _ hrest
    · rw [if_neg hbefore]
      obtain ⟨artifacts, record, hreads, hrecord, hinvocation, hdigest, hlength, havailable⟩ :=
        hfirst asked
      have hread : readArtifact artifacts task row.artifact (start - row.offset) (stop - start)
          = .ok (bytesFrom record.bytes (start - row.offset) (stop - start)) :=
        readArtifact_ok.2 ⟨record, hrecord, ⟨hinvocation, hdigest, hlength, havailable⟩, rfl⟩
      obtain ⟨result, hresult⟩ := copyEntries_readable (asked + 1)
        (copied ++ bytesFrom record.bytes (start - row.offset) (stop - start)) hrest
      have hsize : ¬ (bytesFrom record.bytes (start - row.offset) (stop - start)).length ≠ stop - start := by
        rw [not_not, length_bytesFrom]
        omega
      rw [hreads]
      exact ⟨result, except_bind_ok.2 ⟨_, hread, except_bind_ok.2 ⟨(), refuseIf_ok.2 hsize, hresult⟩⟩⟩

end

/-! ## Reading a log -/

/-- Blocks and a live tail of the stream `content`: the blocks end within the tail. -/
structure LogParts (rows : List ProcessTaskChunk) (tail : Option ProcessTaskTail) (content : List UInt8)
    (durable : ℕ) : Prop where
  stored : StoredRows rows durable
  within : durable ≤ content.length
  overlaps : ∀ live ∈ tail, live.offset ≤ durable ∧ live.bytes = content.drop live.offset

/-- How many bytes there are to read: all of them where the live tail is used, and else those of the
blocks. -/
def logBytes (task : ProcessTaskSnapshot) (tail : Option ProcessTaskTail) (content : List UInt8)
    (durable : ℕ) : ℕ :=
  if task.state ≠ .terminal ∧ tail ≠ none then content.length else durable

/-- The range a reader may ask for. -/
def ValidRange (offset limit : ℤ) (available : ℕ) : Prop :=
  (IsSafeInteger offset ∧ 0 ≤ offset ∧ IsSafeInteger limit ∧ 1 ≤ limit ∧ limit ≤ maxProcessTaskLogBytes)
    ∧ offset ≤ available

/-- What a read of a log answers. -/
structure LogRead (task : ProcessTaskSnapshot) (content : List UInt8) (available durable : ℕ)
    (offset limit : ℤ) (read : ProcessTaskBytes) : Prop where
  range : ValidRange offset limit available
  offset : (read.offset : ℤ) = offset
  /-- The bytes are those of the stream at the offset. -/
  bytes : read.bytes = bytesFrom content read.offset read.bytes.length
  /-- As many as were asked for, or all that is there. -/
  length : read.bytes.length = min limit.toNat (available - read.offset)
  nextOffset : read.nextOffset = read.offset + read.bytes.length
  availableBytes : read.availableBytes = available
  durableBytes : read.durableBytes = durable
  sealed : read.sealed = true ↔ task.state = .terminal
  complete : read.complete = true ↔ task.state = .terminal ∧ read.nextOffset = available
    ∧ task.terminal.bind (·.outputComplete) = some true

section
variable {rows : ChunkRows} {reads : ArtifactReads} {task : ProcessTaskSnapshot}
  {stream : ProcessStreamName} {offset limit : ℤ} {tail : Option ProcessTaskTail} {content : List UInt8}
  {durable : ℕ} {read : ProcessTaskBytes}

/-- The bytes that are read are bytes of the stream. -/
theorem LogRead.within {available : ℕ} (h : LogRead task content available durable offset limit read) :
    read.offset + read.bytes.length ≤ max read.offset content.length := by
  have hlength := congrArg List.length h.bytes
  rw [length_bytesFrom] at hlength
  omega

theorem StoredRows.sum {rows : List ProcessTaskChunk} (h : StoredRows rows durable) :
    ((rows.map ProcessTaskChunk.entry).map (·.2.byteLength)).sum = durable := by
  have hsum := nextOffset_sum h.next
  rw [Nat.zero_add] at hsum
  rw [List.map_map]
  exact hsum

/-- The tail is used: the task is not sealed, and there is one. -/
theorem liveTail_log :
    liveTail task (.log stream) tail = if task.state ≠ .terminal ∧ tail ≠ none then tail else none := by
  rw [liveTail]
  cases tail <;> simp

theorem LogParts.available (h : LogParts (rows stream) tail content durable) :
    availableBytes durable (liveTail task (.log stream) tail) = logBytes task tail content durable := by
  have hwithin := h.within
  rw [liveTail_log, logBytes]
  split_ifs with hlive
  · obtain ⟨live, rfl⟩ := Option.ne_none_iff_exists'.1 hlive.2
    obtain ⟨hoffset, hbytes⟩ := h.overlaps live rfl
    simp only [availableBytes, hbytes, List.length_drop]
    omega
  · exact Nat.max_zero durable

/-- **What is copied of the blocks and then of the tail** are the bytes of the stream. -/
theorem LogParts.copied (h : LogParts (rows stream) tail content durable) {start length : ℕ}
    {copied : List UInt8} (hlength : length ≤ logBytes task tail content durable - start)
    (hcopied : copied = bytesFrom content start copied.length)
    (hsize : copied.length = min length (durable - start)) :
    copyTail (liveTail task (.log stream) tail) start length copied = bytesFrom content start length
      ∧ (copyTail (liveTail task (.log stream) tail) start length copied).length = length := by
  have hwithin := h.within
  rw [liveTail_log]
  rw [logBytes] at hlength
  split_ifs at hlength ⊢ with hlive
  · obtain ⟨live, rfl⟩ := Option.ne_none_iff_exists'.1 hlive.2
    obtain ⟨hoffset, hbytes⟩ := h.overlaps live rfl
    simp only [copyTail, hbytes, bytesFrom_drop]
    by_cases hfull : copied.length = length
    · rw [hfull, Nat.sub_self, bytesFrom_zero_length, List.append_nil]
      exact ⟨hfull ▸ hcopied, hfull⟩
    · -- the blocks are used up, so the tail is read from where it overlaps with them no more
      have hstart : live.offset + (start + copied.length - live.offset) = start + copied.length := by omega
      have hrest : copied.length + (length - copied.length) = length := by omega
      rw [hstart, bytesFrom_append_from hcopied rfl, hrest, length_bytesFrom]
      exact ⟨rfl, by omega⟩
  · have hfull : copied.length = length := by omega
    exact ⟨hfull ▸ hcopied, hfull⟩

theorem LogParts.entries (h : LogParts (rows stream) tail content durable) :
    outputEntries rows task (.log stream) = .ok ((rows stream).map ProcessTaskChunk.entry) := by
  rw [outputEntries, h.stored.read]
  rfl

theorem LogParts.not_ahead (h : LogParts (rows stream) tail content durable) :
    ¬ ∃ live ∈ liveTail task (.log stream) tail, durable < live.offset := by
  rw [liveTail_log]
  rintro ⟨live, hlive, hlate⟩
  split_ifs at hlive
  · exact absurd (h.overlaps live hlive).1 (not_le.2 hlate)
  · cases hlive

/-- **A read of a log** that goes through gives the bytes of the stream. -/
theorem readProcessTaskBytes_log (h : LogParts (rows stream) tail content durable)
    (hbacked : ∀ row ∈ rows stream, RowBacked reads content row)
    (hread : readProcessTaskBytes rows reads task (.log stream) offset limit tail = .ok read) :
    LogRead task content (logBytes task tail content durable) durable offset limit read := by
  simp only [readProcessTaskBytes, h.entries, h.stored.sum, h.available, except_bind_ok, refuseIf_ok,
    except_pure_ok, Except.ok.injEq, exists_eq_left', exists_const] at hread
  obtain ⟨hvalid, -, hwithin, copied, hcopied, -, rfl⟩ := hread
  push Not at hvalid hwithin
  obtain ⟨hbytes, hsize⟩ := copyEntries_ok h.stored.next hbacked (by simp [bytesFrom]) (by simp) hcopied
  obtain ⟨hall, hlength⟩ := h.copied (min_le_right limit.toNat _) hbytes hsize
  refine ⟨⟨hvalid, hwithin⟩, Int.toNat_of_nonneg hvalid.2.1, ?_, hlength, rfl, rfl, rfl, by simp, by simp [and_assoc]⟩
  rw [hlength]
  exact hall

/-- **A read of a log** goes through for a range that is there, if the blocks can be read. -/
theorem readProcessTaskBytes_readable (h : LogParts (rows stream) tail content durable)
    (hbacked : ∀ row ∈ rows stream, RowBacked reads content row)
    (hrange : ValidRange offset limit (logBytes task tail content durable))
    (hreadable : ∀ row ∈ rows stream, RowReadable reads task row) :
    ∃ read, readProcessTaskBytes rows reads task (.log stream) offset limit tail = .ok read := by
  obtain ⟨copied, hcopied⟩ := copyEntries_readable offset.toNat
    (min limit.toNat (logBytes task tail content durable - offset.toNat)) 0 [] hreadable
  obtain ⟨hbytes, hsize⟩ := copyEntries_ok h.stored.next hbacked (by simp [bytesFrom]) (by simp) hcopied
  obtain ⟨-, hlength⟩ := h.copied (min_le_right limit.toNat _) hbytes hsize
  simp only [readProcessTaskBytes, h.entries, h.stored.sum, h.available, except_bind_ok, refuseIf_ok,
    except_pure_ok, Except.ok.injEq, exists_eq_left', exists_const]
  refine ⟨_, ?_, h.not_ahead, ?_, copied, hcopied, not_not.2 hlength, rfl⟩
  · push Not
    exact hrange.1
  · push Not
    exact hrange.2

end

end Falryn.Orchestration
