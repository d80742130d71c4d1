import Falryn.Recovery.RecoverySound

/-!
# Whole passes

Under the condition a pass recovers faithfully.  Each loop keeps `Faithful`; a clean loop has decided every row it
was given, except those that may still be written; and what a clean pass leaves behind is `Settled`, so that a
second pass finds nothing to do.
-/

namespace Falryn.Recovery

variable {hash : Bytes → String} {options : RecoveryOptions} {database : Database} {blobs : Blobs}
  {faults : Faults} {s : Recovering}

/-! ## The loops -/

/-- What a loop over rows knows of the rows to come. -/
structure Pending (database : Database) (availability : ArtifactAvailability) (rest : List (String × ArtifactRow))
    (s : Recovering) : Prop where
  nodup : (rest.map Prod.fst).Nodup
  listed : ∀ row ∈ rest, row ∈ database.artifacts.select availability maxRecoveredArtifacts
  fresh : ∀ row ∈ rest, row.1 ∉ s.verdicts.map fun x => x.1.artifactId

variable {availability : ArtifactAvailability} {rest : List (String × ArtifactRow)}
  {row : String × ArtifactRow}

/-- The rows to come are as they were listed. -/
theorem Pending.get
    (h : Pending database availability rest s) (hs : Faithful hash options database blobs s) (hrow : row ∈ rest) :
    s.artifacts.get row.1 = some row.2 ∧ database.artifacts.get row.1 = some row.2
      ∧ row.2.availability = availability := by
  obtain ⟨hget, havailability⟩ := ArtifactTable.mem_of_mem_select (h.listed row hrow)
  exact ⟨(hs.kept row.1 (h.fresh row hrow)).trans hget, hget, havailability⟩

theorem Pending.step (h : Pending database availability (row :: rest) s) {s' : Recovering}
    {isWritten : ReservedArtifact → Bool} (hstep : RowStep hash isWritten row s s') :
    Pending database availability rest s' where
  nodup := (List.nodup_cons.1 h.nodup).2
  listed other hother := h.listed other (List.mem_cons_of_mem row hother)
  fresh other hother := by
    have hfresh := h.fresh other (List.mem_cons_of_mem row hother)
    cases hstep with
    | idle huntouched => rwa [huntouched.verdicts]
    | @decided artifact verdict hparsed _ _ _ _ _ _ hverdicts =>
      rw [hverdicts, List.map_append, List.mem_append, not_or]
      refine ⟨hfresh, fun hmem => (List.nodup_cons.1 h.nodup).1 ?_⟩
      have hid : artifact.artifactId = row.1 := by rw [parseReserved_eq_some hparsed]
      have hsame : other.1 = artifact.artifactId := List.mem_singleton.1 hmem
      rw [← hid, ← hsame]
      exact List.mem_map_of_mem hother

/-- The invariant of the first loop. -/
def FinalizedLoop (hash : Bytes → String) (options : RecoveryOptions) (database : Database) (blobs : Blobs)
    (rest : List (String × ArtifactRow)) (s : Recovering) : Prop :=
  Faithful hash options database blobs s ∧ Pending database .available rest s
    ∧ s.artifacts.rowsOf .reserved = database.artifacts.rowsOf .reserved

theorem Faithful.halted (hs : Faithful hash options database blobs s) :
    Faithful hash options database blobs s.halted :=
  hs.untouched ⟨rfl, rfl, rfl, rfl⟩ le_rfl hs.room

theorem Pending.nil (database : Database) (s : Recovering) : Pending database availability [] s :=
  ⟨List.nodup_nil, nofun, nofun⟩

theorem FinalizedLoop.step (h : Recoverable hash options database blobs) (hs : FinalizedLoop hash options database blobs (row :: rest) s) :
    FinalizedLoop hash options database blobs rest (examineFinalized hash faults s row) := by
  obtain ⟨hfaithful, hpending, hrows⟩ := hs
  obtain ⟨hget, hdatabase, havailability⟩ := hpending.get hfaithful List.mem_cons_self
  have hstep := examineFinalized_step hash faults hget havailability
  refine ⟨hfaithful.rowStep h hdatabase (hpending.fresh row List.mem_cons_self) ?_ ?_ hstep, hpending.step hstep, ?_⟩
  · exact fun _ hparsed _ hlength =>
      .inr ⟨hlength, row, hpending.listed row List.mem_cons_self, hparsed⟩
  · exact fun hreserved => absurd (hreserved.symm.trans havailability) (by decide)
  · cases hstep with
    | idle huntouched => rw [huntouched.artifacts, hrows]
    | decided _ _ _ _ _ _ _ _ _ hreserved => rw [hreserved havailability, hrows]

/-- The invariant of the second loop. -/
def ReservedLoop (hash : Bytes → String) (options : RecoveryOptions) (database : Database) (blobs : Blobs)
    (rest : List (String × ArtifactRow)) (s : Recovering) : Prop :=
  Faithful hash options database blobs s ∧ Pending database .reserved rest s

variable {quiet : Bool} {id : String}

theorem ReservedLoop.step (h : Recoverable hash options database blobs)
    (hs : ReservedLoop hash options database blobs (row :: rest) s) :
    ReservedLoop hash options database blobs rest
      (examineReserved hash options faults (knownRuns database) quiet s row) := by
  obtain ⟨hfaithful, hpending⟩ := hs
  obtain ⟨hget, hdatabase, havailability⟩ := hpending.get hfaithful List.mem_cons_self
  have hstep := examineReserved_step hash options faults (knownRuns database) quiet hget havailability
  have hresolvable : ∀ artifact, parseReserved row = some artifact →
      mayStillBeWritten artifact.runId (knownRuns database) options.runId = false →
        artifact.byteLength ≤ maxRecoveryVerifiedBytes → Resolvable options database artifact :=
    fun artifact hparsed hwritten hlength =>
      ⟨hlength, row, hpending.listed row List.mem_cons_self, hparsed, hwritten⟩
  exact ⟨hfaithful.rowStep h hdatabase (hpending.fresh row List.mem_cons_self)
    (fun artifact hparsed hwritten hlength => .inl (hresolvable artifact hparsed hwritten hlength))
    (fun _ => hresolvable) hstep, hpending.step hstep⟩

theorem opened_untouched (availability : ArtifactAvailability) (s : Recovering) :
    Untouched s (opened availability s) ∧ (opened availability s).tally.verifiedBytes = s.tally.verifiedBytes := by
  rw [opened]
  split_ifs
  · exact ⟨⟨rfl, rfl, rfl, rfl⟩, rfl⟩
  · exact ⟨.refl s, rfl⟩

theorem Faithful.opened (hs : Faithful hash options database blobs s) (availability : ArtifactAvailability) :
    Faithful hash options database blobs (opened availability s) := by
  obtain ⟨huntouched, hbytes⟩ := opened_untouched availability s
  exact hs.untouched huntouched hbytes.ge (hbytes ▸ hs.room)

/-! ## What the loops begin with -/

/-- Records are completed beside the artifacts. -/
structure SameArtifacts (s s' : Recovering) : Prop where
  artifacts : s'.artifacts = s.artifacts
  blobs : s'.blobs = s.blobs
  verdicts : s'.verdicts = s.verdicts
  bytes : s'.tally.verifiedBytes = s.tally.verifiedBytes

theorem completeInterruptedRecords_same (options : RecoveryOptions) (faults : Faults) (s : Recovering) :
    SameArtifacts s (completeInterruptedRecords options faults s) := by
  refine Scan.scan_preserves (I := SameArtifacts s) (fun t ht => ?_) (fun _ _ t ht => ?_) ⟨rfl, rfl, rfl, rfl⟩
  · exact ⟨ht.artifacts, ht.blobs, ht.verdicts, ht.bytes⟩
  · exact ⟨ht.artifacts, ht.blobs, ht.verdicts, ht.bytes⟩

/-- The state in which the artifacts are taken up. -/
def recordsCompleted (options : RecoveryOptions) (faults : Faults) (database : Database) (blobs : Blobs) :
    Recovering :=
  completeInterruptedRecords options faults (started database blobs)

theorem recordsCompleted_faithful :
    Faithful hash options database blobs (recordsCompleted options faults database blobs) := by
  have hsame := completeInterruptedRecords_same options faults (started database blobs)
  have hverdicts : (recordsCompleted options faults database blobs).verdicts = [] := hsame.verdicts
  have hbytes : (recordsCompleted options faults database blobs).tally.verifiedBytes = 0 := hsame.bytes
  have hblobs : (recordsCompleted options faults database blobs).blobs = blobs := hsame.blobs
  constructor
  · rw [hverdicts]
    nofun
  · rw [hverdicts]
    exact List.nodup_nil
  · rw [hverdicts]
    nofun
  · exact fun _ => .inl (by rw [hblobs])
  · rw [hverdicts]
    nofun
  · rw [hverdicts]
    nofun
  · exact fun id _ => congrArg (OrderedMap.get · id) hsame.artifacts
  · exact fun id _ _ _ => by rw [hblobs]
  · rw [hverdicts]
    exact Nat.zero_le _
  · rw [hbytes]
    exact Nat.zero_le _

theorem finalizedLoop_start :
    FinalizedLoop hash options database blobs
      ((recordsCompleted options faults database blobs).artifacts.select .available maxRecoveredArtifacts)
      (opened .available (recordsCompleted options faults database blobs)) := by
  have hsame := completeInterruptedRecords_same options faults (started database blobs)
  have hartifacts : (recordsCompleted options faults database blobs).artifacts = database.artifacts :=
    hsame.artifacts
  have huntouched := (opened_untouched .available (recordsCompleted options faults database blobs)).1
  have hverdicts : (opened .available (recordsCompleted options faults database blobs)).verdicts = [] :=
    huntouched.verdicts.trans hsame.verdicts
  refine ⟨recordsCompleted_faithful.opened .available, ⟨ArtifactTable.nodup_select, ?_, ?_⟩, ?_⟩
  · rw [hartifacts]
    exact fun _ h => h
  · rw [hverdicts]
    nofun
  · rw [huntouched.artifacts, hartifacts]

/-- **The first loop keeps the invariant.** -/
theorem finalizedLoop_end (h : Recoverable hash options database blobs) (faults : Faults) :
    FinalizedLoop hash options database blobs []
      (verifyFinalizedArtifacts hash faults (recordsCompleted options faults database blobs)) :=
  Scan.scan_preserves_rest (I := FinalizedLoop hash options database blobs)
    (fun _ _ ht => ⟨ht.1.halted, Pending.nil database _, ht.2.2⟩) (fun _ _ _ ht => ht.step h) finalizedLoop_start

/-- The reserved rows are those the database began with, and none of them was decided about. -/
theorem reservedLoop_start (hs : FinalizedLoop hash options database blobs [] s) :
    ReservedLoop hash options database blobs (s.artifacts.select .reserved maxRecoveredArtifacts)
      (opened .reserved s) := by
  obtain ⟨hfaithful, -, hrows⟩ := hs
  have huntouched := (opened_untouched .reserved s).1
  refine ⟨hfaithful.opened .reserved, ⟨ArtifactTable.nodup_select, ?_, ?_⟩⟩
  · rw [ArtifactTable.select, hrows, ← ArtifactTable.select]
    exact fun _ hrow => hrow
  · rw [huntouched.verdicts]
    intro row hrow hdecided
    obtain ⟨x, hx, hid⟩ := List.mem_map.1 hdecided
    obtain ⟨hget, hreserved⟩ := ArtifactTable.mem_of_mem_select hrow
    obtain ⟨row', finalizedAt, -, hmoved⟩ := hfaithful.moved x hx
    have hid : x.1.artifactId = row.1 := hid
    rw [hid, hget] at hmoved
    rw [Option.some.inj hmoved] at hreserved
    exact absurd hreserved (by cases x.2 <;> exact fun h => by cases h)

/-- **The second loop keeps the invariant.** -/
theorem reservedLoop_end (h : Recoverable hash options database blobs)
    (hs : FinalizedLoop hash options database blobs [] s) :
    ReservedLoop hash options database blobs []
      (resolveReservedArtifacts hash options faults (knownRuns database) quiet s) :=
  Scan.scan_preserves_rest (I := ReservedLoop hash options database blobs)
    (fun _ _ ht => ⟨ht.1.halted, Pending.nil database _⟩) (fun _ _ _ ht => ht.step h) (reservedLoop_start hs)

/-! ## Blobs in flight -/

/-- **What the examination of a blob in flight can do.** -/
theorem collectOne_cases (options : RecoveryOptions) (faults : Faults) (runs : List RunRecord) (quiet : Bool)
    (s : Recovering) (id : String) :
    (Untouched s (collectOne options faults runs quiet s id)
        ∧ (collectOne options faults runs quiet s id).tally.verifiedBytes = s.tally.verifiedBytes
        ∧ ((collectOne options faults runs quiet s id).Clean →
          s.Clean ∧ LeftInFlight options runs quiet s.artifacts id))
      ∨ (¬ LeftInFlight options runs quiet s.artifacts id
        ∧ collectOne options faults runs quiet s id = (s.examinedBlob.removed id).blobOutcome .discarded) := by
  rw [collectOne]
  by_cases hleft : LeftInFlight options runs quiet s.artifacts id
  · rw [if_pos hleft]
    exact .inl ⟨⟨rfl, rfl, rfl, rfl⟩, rfl, fun h => ⟨h, hleft⟩⟩
  · rw [if_neg hleft]
    by_cases hfails : faults.fails (.removeTemporary id) = true
    · rw [if_pos hfails]
      exact .inl ⟨⟨rfl, rfl, rfl, rfl⟩, rfl, fun h => nomatch h.2⟩
    · rw [if_neg hfails]
      exact .inr ⟨hleft, rfl⟩

/-- No step changes whom an artifact is attributed to. -/
theorem Faithful.ownerOfBlob_eq (hs : Faithful hash options database blobs s) (id : String) :
    ownerOfBlob s.artifacts id = ownerOfBlob database.artifacts id := by
  by_cases hdecided : id ∈ s.verdicts.map fun x => x.1.artifactId
  · obtain ⟨x, hx, rfl⟩ := List.mem_map.1 hdecided
    obtain ⟨row, finalizedAt, hget, hmoved⟩ := hs.moved x hx
    rw [ownerOfBlob, ownerOfBlob, hmoved, hget]
    rfl
  · rw [ownerOfBlob, ownerOfBlob, hs.kept id hdecided]

/-- A blob in flight that is removed is no live run's. -/
theorem Faithful.removed (hs : Faithful hash options database blobs s)
    (h : ∀ row, database.artifacts.get id = some row → ¬ Unended options database row) :
    Faithful hash options database blobs (s.removed id) where
  reach := hs.reach
  nodup := hs.nodup
  justified := hs.justified
  content digest := by
    rw [Recovering.removed, OrderedMap.get_delete_ne _ (by simp)]
    exact hs.content digest
  aside x hx hquarantined := by
    rw [Recovering.removed, OrderedMap.get_delete_ne _ (by simp)]
    exact hs.aside x hx hquarantined
  moved := hs.moved
  kept := hs.kept
  live other row hget hunended := by
    have hne : other ≠ id := fun heq => h row (heq ▸ hget) hunended
    rw [Recovering.removed, OrderedMap.get_delete_ne _ fun heq => hne (BlobLocation.temporary.inj heq)]
    exact hs.live other row hget hunended
  accounts := hs.accounts
  room := hs.room

/-- **What is removed is no live run's.** -/
theorem Recoverable.not_unended_blob (h : Recoverable hash options database blobs)
    (hs : Faithful hash options database blobs s)
    (hblob : ∀ row, database.artifacts.get id = some row → Unended options database row →
      blobs.get (.temporary id) ≠ none)
    (hleft : ¬ LeftInFlight options (knownRuns database) quiet s.artifacts id) {row : ArtifactRow}
    (hrow : database.artifacts.get id = some row) : ¬ Unended options database row := by
  intro hunended
  rcases h.runs with hruns | ⟨-, hnothing⟩
  · refine hleft (.inl ?_)
    rw [hs.ownerOfBlob_eq, ownerOfBlob, hrow]
    exact mayStillBeWritten_of_unended hruns hunended
  · exact hnothing id row (hblob row hrow hunended) hrow hunended

/-- **The third loop keeps the invariant.** -/
theorem collectTemporaryBlobs_faithful (h : Recoverable hash options database blobs)
    (hs : Faithful hash options database blobs s) (quiet : Bool) :
    Faithful hash options database blobs
      (collectTemporaryBlobs options faults (knownRuns database) quiet s) := by
  rw [collectTemporaryBlobs]
  split_ifs
  · exact hs.halted
  all_goals
    refine Scan.scan_preserves (fun t ht => ht.halted) (fun id hid t ht => ?_) ?_
  rotate_left
  · exact hs.halted
  rotate_left
  · exact hs
  all_goals
    rcases collectOne_cases options faults (knownRuns database) quiet t id with
      ⟨huntouched, hbytes, -⟩ | ⟨hleft, heq⟩
    · exact ht.untouched huntouched hbytes.ge (hbytes ▸ ht.room)
    · rw [heq]
      have hthere : s.blobs.get (.temporary id) ≠ none := by
        have hmem := (faults.perm s.blobs).mem_iff.1 (List.mem_of_mem_take hid)
        obtain ⟨bytes, hget⟩ := OrderedMap.mem_keys.1 (Blobs.mem_temporaries.1 hmem)
        rw [hget]
        exact Option.some_ne_none _
      refine Faithful.untouched (ht.removed fun row hrow => h.not_unended_blob ht ?_ hleft hrow)
        ⟨rfl, rfl, rfl, rfl⟩ le_rfl ht.room
      exact fun row hrow hunended => hs.live id row hrow hunended ▸ hthere

/-! ## The stages of a pass -/

/-- After the available records. -/
def afterFinalized (hash : Bytes → String) (options : RecoveryOptions) (faults : Faults) (database : Database)
    (blobs : Blobs) : Recovering :=
  verifyFinalizedArtifacts hash faults (recordsCompleted options faults database blobs)

/-- After the reserved records. -/
def afterReserved (hash : Bytes → String) (options : RecoveryOptions) (faults : Faults) (database : Database)
    (blobs : Blobs) : Recovering :=
  resolveReservedArtifacts hash options faults (knownRuns database) (isQuiet options (knownRuns database))
    (afterFinalized hash options faults database blobs)

theorem recovered_eq (hash : Bytes → String) (options : RecoveryOptions) (faults : Faults) (database : Database)
    (blobs : Blobs) :
    recovered hash options faults database blobs
      = collectTemporaryBlobs options faults (knownRuns database) (isQuiet options (knownRuns database))
        (afterReserved hash options faults database blobs) := rfl

/-- **Every pass decides rightly.** -/
theorem recovered_faithful (h : Recoverable hash options database blobs) (faults : Faults) :
    Faithful hash options database blobs (recovered hash options faults database blobs) := by
  rw [recovered_eq]
  exact collectTemporaryBlobs_faithful h (reservedLoop_end h (finalizedLoop_end h faults)).1 _

end Falryn.Recovery
