import Falryn.Recovery.RecoveryPass

/-!
# What one step of a pass does

An examined row is left as it is, or one verdict about it falls: `RowStep` says everything a later proof needs of
either.  The verdict is read off the bytes that are there at that moment.  A pass that ends clean, with nothing
failed and nothing skipped, was clean all along.
-/

namespace Falryn.Recovery

/-- Nothing failed so far, and nothing was skipped. -/
def Recovering.Clean (s : Recovering) : Prop := s.tally.completeness = .complete ∧ s.tally.failed = 0

theorem not_clean_halted (s : Recovering) : ¬ s.halted.Clean := fun h => nomatch h.1

theorem not_clean_failedOne (s : Recovering) : ¬ s.failedOne.Clean := fun h => nomatch h.2

/-- Tables, device and verdicts are as they were. -/
structure Untouched (s s' : Recovering) : Prop where
  artifacts : s'.artifacts = s.artifacts
  records : s'.records = s.records
  blobs : s'.blobs = s.blobs
  verdicts : s'.verdicts = s.verdicts

theorem Untouched.refl (s : Recovering) : Untouched s s := ⟨rfl, rfl, rfl, rfl⟩

variable {s : Recovering} {was : ArtifactAvailability}

theorem Untouched.trans {t u : Recovering} (h : Untouched s t) (h' : Untouched t u) : Untouched s u :=
  ⟨h'.artifacts.trans h.artifacts, h'.records.trans h.records, h'.blobs.trans h.blobs,
    h'.verdicts.trans h.verdicts⟩

/-- **What a verdict rests on**, and what it does to the device. -/
inductive Rests (hash : Bytes → String) (artifact : ReservedArtifact) (s s' : Recovering) : Verdict → Prop
  | missing (hnone : s.blobs.get (.content artifact.digest) = none)
      (hblobs : ∀ location, location ≠ .temporary artifact.artifactId →
        s'.blobs.get location = s.blobs.get location)
      (hbytes : s'.tally.verifiedBytes = s.tally.verifiedBytes) : Rests hash artifact s s' .missing
  | available {bytes : Bytes} (hsome : s.blobs.get (.content artifact.digest) = some bytes)
      (hverifies : Verifies hash bytes artifact.digest artifact.byteLength) (hblobs : s'.blobs = s.blobs)
      (hbytes : s'.tally.verifiedBytes = s.tally.verifiedBytes + artifact.byteLength) :
      Rests hash artifact s s' .available
  | quarantined {bytes : Bytes} (hsome : s.blobs.get (.content artifact.digest) = some bytes)
      (hverifies : ¬ Verifies hash bytes artifact.digest artifact.byteLength)
      (hblobs : s'.blobs = s.blobs.finalize (.content artifact.digest) (.quarantine artifact.digest) bytes)
      (hbytes : s'.tally.verifiedBytes = s.tally.verifiedBytes + artifact.byteLength) :
      Rests hash artifact s s' .quarantined

/-- **What the examination of a row can do.** -/
inductive RowStep (hash : Bytes → String) (isWritten : ReservedArtifact → Bool) (row : String × ArtifactRow)
    (s s' : Recovering) : Prop
  | idle (huntouched : Untouched s s')
      (hbytes : s.tally.verifiedBytes ≤ s'.tally.verifiedBytes
        ∧ (s.tally.verifiedBytes ≤ maxRecoveryVerifiedBytes → s'.tally.verifiedBytes ≤ maxRecoveryVerifiedBytes))
      (hclean : s'.Clean → s.Clean ∧ ∃ artifact, parseReserved row = some artifact ∧ isWritten artifact = true)
  | decided {artifact : ReservedArtifact} {verdict : Verdict} (hparsed : parseReserved row = some artifact)
      (hwritten : isWritten artifact = false)
      (hroom : s.tally.verifiedBytes + artifact.byteLength ≤ maxRecoveryVerifiedBytes)
      (hrow : ∃ finalizedAt, s'.artifacts.get row.1
        = some { row.2 with availability := verdict.availability, finalizedAt := finalizedAt })
      (hothers : ∀ id, id ≠ row.1 → s'.artifacts.get id = s.artifacts.get id)
      (hrests : Rests hash artifact s s' verdict) (hrecords : s'.records = s.records)
      (hverdicts : s'.verdicts = s.verdicts ++ [(artifact, verdict)])
      (htemporary : ∀ id, s'.blobs.get (.temporary id) = s.blobs.get (.temporary id)
        ∨ (id = row.1 ∧ row.2.availability = .reserved))
      (hreserved : row.2.availability = .available →
        s'.artifacts.rowsOf .reserved = s.artifacts.rowsOf .reserved)
      (hintact : row.2.availability = .available → verdict = .available → s'.artifacts = s.artifacts)
      (hclean : s'.Clean → s.Clean)

/-! ## Single moves -/

theorem heldRow_eq_some {row : String × ArtifactRow}
    (hrow : s.artifacts.get row.1 = some row.2) (hwas : row.2.availability = was) :
    s.heldRow was row.1 = some row.2 := by
  rw [Recovering.heldRow, hrow, Option.filter_some, if_pos (by simpa using hwas)]

/-- A row that is still held is moved. -/
theorem moveFrom_of_held {artifact : ReservedArtifact}
    {row : ArtifactRow} {finalizedAt : ArtifactRow → Option ℤ} {verdict : Verdict}
    (h : s.heldRow was artifact.artifactId = some row) :
    Recovering.moveFrom was finalizedAt artifact verdict s =
      { s with
        artifacts := s.artifacts.set artifact.artifactId
          { row with availability := verdict.availability, finalizedAt := finalizedAt row }
        tally.artifacts := Recovering.tallied s.tally.artifacts (.decided verdict)
        verdicts := s.verdicts ++ [(artifact, verdict)] } := by
  rw [Recovering.moveFrom, h]

/-- A removal of a blob in flight concerns that blob alone. -/
structure OnlyTemporary (artifactId : String) (s s' : Recovering) : Prop where
  artifacts : s'.artifacts = s.artifacts
  records : s'.records = s.records
  verdicts : s'.verdicts = s.verdicts
  bytes : s'.tally.verifiedBytes = s.tally.verifiedBytes
  blobs : ∀ location, location ≠ .temporary artifactId → s'.blobs.get location = s.blobs.get location
  clean : s'.Clean → s.Clean

theorem onlyTemporary_of_untouched {artifactId : String} {s' : Recovering} (h : Untouched s s')
    (hbytes : s'.tally.verifiedBytes = s.tally.verifiedBytes) (hclean : s'.Clean → s.Clean) :
    OnlyTemporary artifactId s s' :=
  ⟨h.artifacts, h.records, h.verdicts, hbytes, fun _ _ => by rw [h.blobs], hclean⟩

theorem discardTemporary_onlyTemporary (faults : Faults) (artifactId : String) (mayRemove : Bool)
    (s : Recovering) : OnlyTemporary artifactId s (discardTemporary faults artifactId mayRemove s) := by
  rw [discardTemporary]
  split_ifs
  · exact onlyTemporary_of_untouched (.refl s) rfl id
  · exact onlyTemporary_of_untouched ⟨rfl, rfl, rfl, rfl⟩ rfl id
  · exact onlyTemporary_of_untouched ⟨rfl, rfl, rfl, rfl⟩ rfl fun h => absurd h (not_clean_failedOne s)
  · exact ⟨rfl, rfl, rfl, rfl, fun _ hne => OrderedMap.get_delete_ne _ hne, id⟩

/-! ## The digest decides -/

section

variable {hash : Bytes → String} {options : RecoveryOptions} {faults : Faults} {s : Recovering}

/-- A call that failed while an artifact was decided leaves everything as it was. -/
structure CouldNot (artifact : ReservedArtifact) (s s' : Recovering) : Prop where
  untouched : Untouched s s'
  bytes : s'.tally.verifiedBytes ∈ [s.tally.verifiedBytes, s.tally.verifiedBytes + artifact.byteLength]
  clean : ¬ s'.Clean

theorem couldNot_verifying (artifact : ReservedArtifact) (s : Recovering) :
    CouldNot artifact s (s.verifying artifact.byteLength).failedOne.leftArtifact :=
  ⟨⟨rfl, rfl, rfl, rfl⟩, by simp [Recovering.failedOne, Recovering.leftArtifact, Recovering.verifying],
    fun h => nomatch h.2⟩

variable {artifact : ReservedArtifact} {s' : Recovering}

/-- The ways through `decideByDigest`. -/
theorem decideByDigest_cases {onMissing onIntact onCorrupt : Recovering → Recovering}
    (h : decideByDigest hash faults onMissing onIntact onCorrupt artifact s = s') :
    CouldNot artifact s s'
      ∨ (s.blobs.get (.content artifact.digest) = none ∧ s' = onMissing s)
      ∨ (∃ bytes, s.blobs.get (.content artifact.digest) = some bytes
        ∧ Verifies hash bytes artifact.digest artifact.byteLength
        ∧ s' = onIntact (s.verifying artifact.byteLength))
      ∨ (∃ bytes, s.blobs.get (.content artifact.digest) = some bytes
        ∧ ¬ Verifies hash bytes artifact.digest artifact.byteLength
        ∧ s' = onCorrupt ((s.verifying artifact.byteLength).setAside artifact.digest bytes)) := by
  subst h
  rw [decideByDigest]
  by_cases hlength : faults.fails (.contentLength artifact.artifactId) = true
  · rw [if_pos hlength]
    exact .inl ⟨⟨rfl, rfl, rfl, rfl⟩, by simp [Recovering.failedOne, Recovering.leftArtifact],
      fun h => nomatch h.2⟩
  · rw [if_neg hlength]
    rcases hcontent : s.blobs.get (.content artifact.digest) with _ | bytes
    · exact .inr (.inl ⟨rfl, rfl⟩)
    · rcases hverify : verifyStoredBytes hash bytes artifact.digest artifact.byteLength
          (fun offset => faults.fails (.readContent artifact.artifactId offset)) with _ | answer
      · refine .inl ?_
        dsimp only
        rw [hverify]
        exact couldNot_verifying artifact s
      · have hanswer := verifyStoredBytes_spec hverify
        dsimp only
        rw [hverify]
        cases answer with
        | true => exact .inr (.inr (.inl ⟨bytes, rfl, of_decide_eq_true hanswer.symm, rfl⟩))
        | false =>
          dsimp only
          by_cases haside : faults.fails (.setAside artifact.artifactId) = true
          · rw [if_pos haside]
            exact .inl (couldNot_verifying artifact s)
          · rw [if_neg haside]
            exact .inr (.inr (.inr ⟨bytes, rfl, of_decide_eq_false hanswer.symm, rfl⟩))

variable {isWritten : ReservedArtifact → Bool} {row : String × ArtifactRow}

/-- The examination of a row, where what happens to each kind of artifact is known. -/
theorem examineRow_step {one : ReservedArtifact → Recovering → Recovering}
    (h : ∀ artifact, parseReserved row = some artifact → isWritten artifact = false →
      s.tally.verifiedBytes + artifact.byteLength ≤ maxRecoveryVerifiedBytes →
        RowStep hash isWritten row s (one artifact s.examined)) :
    RowStep hash isWritten row s (examineRow isWritten one s row) := by
  rw [examineRow]
  rcases hparsed : parseReserved row with _ | artifact
  · exact .idle ⟨rfl, rfl, rfl, rfl⟩ ⟨le_rfl, id⟩ fun h => absurd h (not_clean_failedOne _)
  · dsimp only
    split_ifs with hwritten hroom
    · exact .idle ⟨rfl, rfl, rfl, rfl⟩ ⟨le_rfl, id⟩ fun hclean => ⟨hclean, artifact, hparsed, hwritten⟩
    · exact .idle ⟨rfl, rfl, rfl, rfl⟩ ⟨le_rfl, id⟩ fun h => absurd h (not_clean_halted s.examined)
    · exact h artifact hparsed (by simpa using hwritten) (not_lt.1 hroom)

/-- A call that failed leaves the row as it was. -/
theorem CouldNot.rowStep (h : CouldNot artifact s.examined s')
    (hroom : s.tally.verifiedBytes + artifact.byteLength ≤ maxRecoveryVerifiedBytes) :
    RowStep hash isWritten row s s' := by
  refine .idle ⟨h.untouched.artifacts, h.untouched.records, h.untouched.blobs, h.untouched.verdicts⟩ ?_
    fun hclean => absurd hclean h.clean
  have hbytes := h.bytes
  simp only [List.mem_cons, List.not_mem_nil, or_false] at hbytes
  have hexamined : s.examined.tally.verifiedBytes = s.tally.verifiedBytes := rfl
  omega

/-- A verdict that moved the row it was read from. -/
theorem moveFrom_rowStep {was : ArtifactAvailability} {finalizedAt : ArtifactRow → Option ℤ}
    {verdict : Verdict} {t : Recovering} (hparsed : parseReserved row = some artifact)
    (hwritten : isWritten artifact = false)
    (hroom : s.tally.verifiedBytes + artifact.byteLength ≤ maxRecoveryVerifiedBytes)
    (hrow : s.artifacts.get row.1 = some row.2) (hwas : row.2.availability = was)
    (hartifacts : t.artifacts = s.artifacts) (hrecords : t.records = s.records)
    (hverdicts : t.verdicts = s.verdicts)
    (htemporary : ∀ id, t.blobs.get (.temporary id) = s.blobs.get (.temporary id)
      ∨ (id = row.1 ∧ row.2.availability = .reserved))
    (hmoves : row.2.availability = .available → verdict ≠ .available) (hclean : t.Clean → s.Clean)
    (hrests : Rests hash artifact s (Recovering.moveFrom was finalizedAt artifact verdict t) verdict) :
    RowStep hash isWritten row s (Recovering.moveFrom was finalizedAt artifact verdict t) := by
  have hid : artifact.artifactId = row.1 := by rw [parseReserved_eq_some hparsed]
  have hheld : t.heldRow was artifact.artifactId = some row.2 := by
    rw [hid]
    exact heldRow_eq_some (hartifacts ▸ hrow) hwas
  rw [moveFrom_of_held hheld] at hrests ⊢
  refine .decided hparsed hwritten hroom ⟨finalizedAt row.2, ?_⟩ (fun id hne => ?_) hrests hrecords ?_ htemporary
    (fun havailable => ?_) (fun havailable hverdict => absurd hverdict (hmoves havailable)) hclean
  · rw [hid]
    exact OrderedMap.get_set_self _ _ _
  · rw [hid, ← hartifacts]
    exact OrderedMap.get_set_ne _ _ hne
  · rw [← hverdicts]
  · rw [hid, hartifacts]
    exact ArtifactTable.rowsOf_set hrow (by rw [havailable]; decide) (by cases verdict <;> exact nofun)

/-- **The examination of an available row.** -/
theorem examineFinalized_step (hash : Bytes → String) (faults : Faults)
    (hrow : s.artifacts.get row.1 = some row.2) (hwas : row.2.availability = .available) :
    RowStep hash (fun _ => false) row s (examineFinalized hash faults s row) := by
  refine examineRow_step fun artifact hparsed hwritten hroom => ?_
  have hid : artifact.artifactId = row.1 := by rw [parseReserved_eq_some hparsed]
  rcases decideByDigest_cases (h := rfl) with hfailed | ⟨hnone, heq⟩ | ⟨bytes, hsome, hverifies, heq⟩
    | ⟨bytes, hsome, hverifies, heq⟩
  · exact hfailed.rowStep hroom
  · rw [verifyOneFinalized, heq]
    refine moveFrom_rowStep hparsed hwritten hroom hrow hwas rfl rfl rfl (fun _ => .inl rfl) (fun _ => by decide)
      id ?_
    have hheld : s.examined.heldRow .available artifact.artifactId = some row.2 := by
      rw [hid]
      exact heldRow_eq_some hrow hwas
    rw [moveFrom_of_held hheld]
    exact .missing hnone (fun _ _ => rfl) rfl
  · rw [verifyOneFinalized, heq]
    refine .decided hparsed hwritten hroom ⟨row.2.finalizedAt, ?_⟩ (fun _ _ => rfl)
      (.available hsome hverifies rfl rfl) rfl rfl (fun _ => .inl rfl) (fun _ => rfl) (fun _ _ => rfl) id
    exact hrow.trans (congrArg some (by rw [Verdict.availability, ← hwas]))
  · rw [verifyOneFinalized, heq]
    refine moveFrom_rowStep hparsed hwritten hroom hrow hwas rfl rfl rfl
      (fun _ => .inl (Blobs.get_finalize (by simp) (by simp))) (fun _ => by decide) id ?_
    have hheld : ((s.examined.verifying artifact.byteLength).setAside artifact.digest bytes).heldRow .available
        artifact.artifactId = some row.2 := by
      rw [hid]
      exact heldRow_eq_some hrow hwas
    rw [moveFrom_of_held hheld]
    exact .quarantined hsome hverifies rfl rfl

/-- **The examination of a reserved row.** -/
theorem examineReserved_step (hash : Bytes → String) (options : RecoveryOptions) (faults : Faults)
    (runs : List RunRecord) (quiet : Bool)
    (hrow : s.artifacts.get row.1 = some row.2) (hwas : row.2.availability = .reserved) :
    RowStep hash (fun artifact => mayStillBeWritten artifact.runId runs options.runId) row s
      (examineReserved hash options faults runs quiet s row) := by
  refine examineRow_step fun artifact hparsed hwritten hroom => ?_
  have hid : artifact.artifactId = row.1 := by rw [parseReserved_eq_some hparsed]
  have hheld : ∀ t : Recovering, t.artifacts = s.artifacts →
      t.heldRow .reserved artifact.artifactId = some row.2 := fun t ht => by
    rw [hid]
    exact heldRow_eq_some (ht ▸ hrow) hwas
  rcases decideByDigest_cases (h := rfl) with hfailed | ⟨hnone, heq⟩ | ⟨bytes, hsome, hverifies, heq⟩
    | ⟨bytes, hsome, hverifies, heq⟩
  · exact hfailed.rowStep hroom
  · rw [resolveOne, heq]
    have honly := discardTemporary_onlyTemporary faults artifact.artifactId (artifact.runId ≠ none || quiet)
      s.examined
    refine moveFrom_rowStep hparsed hwritten hroom hrow hwas honly.artifacts honly.records honly.verdicts
      (fun id => ?_) (fun havailable => absurd (havailable.symm.trans hwas) (by decide)) honly.clean ?_
    · by_cases hsame : id = row.1
      · exact .inr ⟨hsame, hwas⟩
      · exact .inl (honly.blobs _ fun h => hsame (by rw [BlobLocation.temporary.inj h, hid]))
    rw [moveFrom_of_held (hheld _ honly.artifacts)]
    exact .missing hnone honly.blobs honly.bytes
  · rw [resolveOne, heq]
    refine moveFrom_rowStep hparsed hwritten hroom hrow hwas rfl rfl rfl (fun _ => .inl rfl)
      (fun havailable => absurd (havailable.symm.trans hwas) (by decide)) id ?_
    rw [moveFrom_of_held (hheld (s.examined.verifying artifact.byteLength) rfl)]
    exact .available hsome hverifies rfl rfl
  · rw [resolveOne, heq]
    refine moveFrom_rowStep hparsed hwritten hroom hrow hwas rfl rfl rfl
      (fun _ => .inl (Blobs.get_finalize (by simp) (by simp)))
      (fun havailable => absurd (havailable.symm.trans hwas) (by decide)) id ?_
    rw [moveFrom_of_held (hheld ((s.examined.verifying artifact.byteLength).setAside artifact.digest bytes) rfl)]
    exact .quarantined hsome hverifies rfl rfl

end

end Falryn.Recovery
