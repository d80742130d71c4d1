import Falryn.Recovery.RecoverySettled

/-!
# When recovery is faithful

The condition is exact.  What it forbids is brought to light by a device on which every call fails but those for
one artifact, or for two: all other steps are idle then, and what is left of the pass is one step, or two in a
row.  A database whose runs cannot be parsed is where recovery takes live work for abandoned.
-/

namespace Falryn.Recovery

variable {hash : Bytes → String} {options : RecoveryOptions} {database : Database} {blobs : Blobs}
  {faults : Faults} {s : Recovering}

/-! ## A device on which most calls fail -/

/-- The artifact a call is made for. -/
def BlobCall.artifact : BlobCall → Option String
  | contentLength artifactId | readContent artifactId _ | setAside artifactId | temporaryLength artifactId
  | discardTemporary artifactId | removeTemporary artifactId => some artifactId
  | listTemporary => none

/-- Every call fails but some, and one blob in flight is listed first. -/
def Faults.sparing (spares : BlobCall → Bool) (leading : String) : Faults where
  fails call := call ≠ .listTemporary && !spares call
  inFlight blobs :=
    if leading ∈ blobs.temporaries then leading :: blobs.temporaries.erase leading else blobs.temporaries
  perm blobs := by
    split_ifs with h
    · exact (List.perm_cons_erase h).symm
    · exact .refl _
  aborted _ := false

/-- A device that serves some artifacts. -/
def Faults.serving (ids : List String) : Faults :=
  .sparing (fun call => decide (∃ id ∈ ids, call.artifact = some id)) ""

/-- Nothing happened but in the tally. -/
structure Idle (s s' : Recovering) : Prop where
  untouched : Untouched s s'
  bytes : s'.tally.verifiedBytes = s.tally.verifiedBytes

theorem Idle.refl (s : Recovering) : Idle s s := ⟨.refl s, rfl⟩

theorem Idle.trans (s t u : Recovering) (h : Idle s t) (h' : Idle t u) : Idle s u :=
  ⟨h.untouched.trans h'.untouched, h'.bytes.trans h.bytes⟩

variable {isWritten : ReservedArtifact → Bool}

/-- A row whose first call fails is left as it is. -/
theorem examineRow_idle {onMissing onIntact onCorrupt :
    ReservedArtifact → Recovering → Recovering} {row : String × ArtifactRow}
    (h : faults.fails (.contentLength row.1) = true) (s : Recovering) :
    Idle s (examineRow isWritten (fun artifact => decideByDigest hash faults (onMissing artifact)
      (onIntact artifact) (onCorrupt artifact) artifact) s row) := by
  rw [examineRow]
  rcases hparsed : parseReserved row with _ | artifact
  · exact ⟨⟨rfl, rfl, rfl, rfl⟩, rfl⟩
  · have hid : artifact.artifactId = row.1 := by rw [parseReserved_eq_some hparsed]
    dsimp only
    rw [decideByDigest, hid, if_pos h]
    split_ifs <;> exact ⟨⟨rfl, rfl, rfl, rfl⟩, rfl⟩

/-- Without failures the bytes decide. -/
theorem decideByDigest_of_not_fails {onMissing onIntact onCorrupt : Recovering → Recovering}
    {artifact : ReservedArtifact}
    (h : ∀ call : BlobCall, call.artifact = some artifact.artifactId → faults.fails call = false)
    (s : Recovering) :
    (s.blobs.get (.content artifact.digest) = none
        ∧ decideByDigest hash faults onMissing onIntact onCorrupt artifact s = onMissing s)
      ∨ decideByDigest hash faults onMissing onIntact onCorrupt artifact s
        = onIntact (s.verifying artifact.byteLength)
      ∨ ∃ bytes, decideByDigest hash faults onMissing onIntact onCorrupt artifact s
        = onCorrupt ((s.verifying artifact.byteLength).setAside artifact.digest bytes) := by
  rw [decideByDigest, h (.contentLength artifact.artifactId) rfl, if_neg Bool.false_ne_true]
  rcases hcontent : s.blobs.get (.content artifact.digest) with _ | bytes
  · exact .inl ⟨rfl, rfl⟩
  · have hverify := verifyStoredBytes_of_not_fails
      (fun offset => h (.readContent artifact.artifactId offset) rfl) hash bytes artifact.digest
      artifact.byteLength
    dsimp only
    rw [hverify]
    by_cases hyes : Verifies hash bytes artifact.digest artifact.byteLength
    · rw [decide_eq_true hyes]
      exact .inr (.inl rfl)
    · rw [decide_eq_false hyes, h (.setAside artifact.artifactId) rfl]
      exact .inr (.inr ⟨bytes, rfl⟩)

/-! ## The work of a pass -/

/-- One step of the two loops over rows. -/
inductive Work where
  | opening (availability : ArtifactAvailability)
  | finalized (row : String × ArtifactRow)
  | reserved (row : String × ArtifactRow)

/-- What a step of the loops does. -/
def Work.run (hash : Bytes → String) (options : RecoveryOptions) (faults : Faults) (database : Database)
    (s : Recovering) : Work → Recovering
  | .opening availability => opened availability s
  | .finalized row => examineFinalized hash faults s row
  | .reserved row =>
    examineReserved hash options faults (knownRuns database) (isQuiet options (knownRuns database)) s row

/-- The row a step examines. -/
def Work.row : Work → Option (String × ArtifactRow)
  | .opening _ => none
  | .finalized row | .reserved row => some row

/-- Everything the two loops go through. -/
def workload (database : Database) : List Work :=
  (.opening .available :: (database.artifacts.select .available maxRecoveredArtifacts).map .finalized)
    ++ .opening .reserved :: (database.artifacts.select .reserved maxRecoveredArtifacts).map .reserved

theorem nodup_workload (database : Database) : (workload database).Nodup := by
  have hrows : ∀ availability, (database.artifacts.select availability maxRecoveredArtifacts).Nodup :=
    fun availability => .of_map _ ArtifactTable.nodup_select
  have hfinalized := (hrows .available).map (f := Work.finalized) fun _ _ h => Work.finalized.inj h
  have hreserved := (hrows .reserved).map (f := Work.reserved) fun _ _ h => Work.reserved.inj h
  refine List.Nodup.append (List.nodup_cons.2 ⟨?_, hfinalized⟩) (List.nodup_cons.2 ⟨?_, hreserved⟩) ?_
  · simp
  · simp
  · intro work hleft hright
    rcases List.mem_cons.1 hleft with rfl | hleft
    · simp at hright
    · obtain ⟨row, -, rfl⟩ := List.mem_map.1 hleft
      simp at hright

/-- The rows to come are as they were listed. -/
structure Held (availability : ArtifactAvailability) (rest : List (String × ArtifactRow)) (s : Recovering) :
    Prop where
  nodup : (rest.map Prod.fst).Nodup
  get : ∀ row ∈ rest, s.artifacts.get row.1 = some row.2 ∧ row.2.availability = availability

theorem held_select (availability : ArtifactAvailability) (s : Recovering) (limit : ℕ) :
    Held availability (s.artifacts.select availability limit) s :=
  ⟨ArtifactTable.nodup_select, fun _ h => ArtifactTable.mem_of_mem_select h⟩

variable {s' : Recovering}

/-- A step leaves the other rows as they are. -/
theorem RowStep.get {row : String × ArtifactRow}
    (h : RowStep hash isWritten row s s') {id : String} (hne : id ≠ row.1) :
    s'.artifacts.get id = s.artifacts.get id := by
  cases h with
  | idle huntouched => rw [huntouched.artifacts]
  | decided _ _ _ _ hothers => exact hothers id hne

theorem Held.step {availability : ArtifactAvailability} {rest : List (String × ArtifactRow)}
    {row : String × ArtifactRow} (h : Held availability (row :: rest) s) (hstep : RowStep hash isWritten row s s') :
    Held availability rest s' where
  nodup := (List.nodup_cons.1 h.nodup).2
  get other hother := by
    have hne : other.1 ≠ row.1 := fun heq =>
      (List.nodup_cons.1 h.nodup).1 (heq ▸ List.mem_map_of_mem hother)
    rw [hstep.get hne]
    exact h.get other (List.mem_cons_of_mem row hother)

/-- The first loop leaves the reserved rows alone. -/
theorem afterFinalized_rowsOf (hash : Bytes → String) (options : RecoveryOptions) (faults : Faults)
    (database : Database) (blobs : Blobs) :
    (afterFinalized hash options faults database blobs).artifacts.rowsOf .reserved
      = database.artifacts.rowsOf .reserved := by
  have hartifacts : (recordsCompleted options faults database blobs).artifacts = database.artifacts :=
    (completeInterruptedRecords_same options faults (started database blobs)).artifacts
  have huntouched := (opened_untouched .available (recordsCompleted options faults database blobs)).1
  refine (Scan.scan_preserves_rest (I := fun rest t => Held .available rest t
    ∧ t.artifacts.rowsOf .reserved = database.artifacts.rowsOf .reserved) ?_ ?_ ⟨?_, ?_⟩).2
  · exact fun _ t ht => ⟨⟨List.nodup_nil, nofun⟩, ht.2⟩
  · rintro row rest t ⟨hheld, hrows⟩
    obtain ⟨hget, havailable⟩ := hheld.get row List.mem_cons_self
    have hstep := examineFinalized_step hash faults hget havailable
    refine ⟨hheld.step hstep, ?_⟩
    cases hstep with
    | idle huntouched => rw [huntouched.artifacts, hrows]
    | decided _ _ _ _ _ _ _ _ _ hreserved => rw [hreserved havailable, hrows]
  · have hheld := held_select .available (recordsCompleted options faults database blobs) maxRecoveredArtifacts
    exact ⟨hheld.nodup, by rw [huntouched.artifacts]; exact hheld.get⟩
  · rw [huntouched.artifacts, hartifacts]

/-- **A pass that is not aborted is one fold** over its work. -/
theorem afterReserved_eq_foldl (h : ∀ checkpoint, faults.aborted checkpoint = false) :
    afterReserved hash options faults database blobs
      = (workload database).foldl (Work.run hash options faults database)
        (recordsCompleted options faults database blobs) := by
  have hartifacts : (recordsCompleted options faults database blobs).artifacts = database.artifacts :=
    (completeInterruptedRecords_same options faults (started database blobs)).artifacts
  have hfinalized : afterFinalized hash options faults database blobs
      = ((database.artifacts.select .available maxRecoveredArtifacts).map Work.finalized).foldl
        (Work.run hash options faults database)
        (opened .available (recordsCompleted options faults database blobs)) := by
    rw [afterFinalized, verifyFinalizedArtifacts, Scan.scan_eq_foldl fun _ _ => h _, List.foldl_map, hartifacts]
    rfl
  have hselect : (afterFinalized hash options faults database blobs).artifacts.select .reserved
      maxRecoveredArtifacts = database.artifacts.select .reserved maxRecoveredArtifacts := by
    rw [ArtifactTable.select, afterFinalized_rowsOf, ← ArtifactTable.select]
  rw [afterReserved, resolveReservedArtifacts, Scan.scan_eq_foldl fun _ _ => h _, hselect, workload,
    List.foldl_append, List.foldl_cons, List.foldl_cons, List.foldl_map]
  change _ = List.foldl _ (opened .reserved (List.foldl _ (opened .available _) _)) _
  rw [← hfinalized]
  rfl

/-! ## One step of the work -/

/-- A step that examines a row whose first call fails is idle, and so is one that examines none. -/
theorem Work.run_idle {work : Work}
    (h : ∀ row, work.row = some row → faults.fails (.contentLength row.1) = true) (s : Recovering) :
    Idle s (Work.run hash options faults database s work) := by
  cases work with
  | opening availability =>
    obtain ⟨huntouched, hbytes⟩ := opened_untouched availability s
    exact ⟨huntouched, hbytes⟩
  | finalized row | reserved row => exact examineRow_idle (h row rfl) s

/-- A step of the work decides about an artifact in reach. -/
def Work.Decides (options : RecoveryOptions) (database : Database) (artifact : ReservedArtifact) : Work → Prop
  | .opening _ => False
  | .finalized row => row ∈ database.artifacts.select .available maxRecoveredArtifacts
    ∧ parseReserved row = some artifact
  | .reserved row => row ∈ database.artifacts.select .reserved maxRecoveredArtifacts
    ∧ parseReserved row = some artifact
    ∧ mayStillBeWritten artifact.runId (knownRuns database) options.runId = false

theorem WithinReach.work {artifact : ReservedArtifact} (h : WithinReach options database artifact) :
    artifact.byteLength ≤ maxRecoveryVerifiedBytes
      ∧ ∃ work ∈ workload database, work.Decides options database artifact := by
  rcases h with ⟨hlength, row, hmem, hparsed, hwritten⟩ | ⟨hlength, row, hmem, hparsed⟩
  · exact ⟨hlength, .reserved row, List.mem_append_right _ (List.mem_cons_of_mem _ (List.mem_map_of_mem hmem)),
      hmem, hparsed, hwritten⟩
  · exact ⟨hlength, .finalized row, List.mem_append_left _ (List.mem_cons_of_mem _ (List.mem_map_of_mem hmem)),
      hmem, hparsed⟩

/-- The row of a deciding step. -/
theorem Work.Decides.row {artifact : ReservedArtifact} {work : Work}
    (h : work.Decides options database artifact) :
    ∃ row, work.row = some row ∧ parseReserved row = some artifact
      ∧ database.artifacts.get row.1 = some row.2 := by
  cases work with
  | opening => exact h.elim
  | finalized row => exact ⟨row, rfl, h.2, (ArtifactTable.mem_of_mem_select h.1).1⟩
  | reserved row => exact ⟨row, rfl, h.2.1, (ArtifactTable.mem_of_mem_select h.1).1⟩

/-- A verdict that a step of the work comes to. -/
structure Falls (hash : Bytes → String) (database : Database) (artifact : ReservedArtifact) (verdict : Verdict)
    (s s' : Recovering) : Prop where
  rests : Rests hash artifact s s' verdict
  verdicts : s'.verdicts = s.verdicts ++ [(artifact, verdict)]
  row : ∃ row finalizedAt, database.artifacts.get artifact.artifactId = some row
    ∧ s'.artifacts.get artifact.artifactId
      = some { row with availability := verdict.availability, finalizedAt := finalizedAt }
  others : ∀ id, id ≠ artifact.artifactId → s'.artifacts.get id = s.artifacts.get id

theorem RowStep.falls {row : String × ArtifactRow}
    {artifact : ReservedArtifact} (h : RowStep hash isWritten row s s')
    (hparsed : parseReserved row = some artifact) (hrow : database.artifacts.get row.1 = some row.2)
    (hmore : s'.verdicts ≠ s.verdicts) : ∃ verdict, Falls hash database artifact verdict s s' := by
  have hid : artifact.artifactId = row.1 := by rw [parseReserved_eq_some hparsed]
  cases h with
  | idle huntouched => exact absurd huntouched.verdicts hmore
  | @decided artifact' verdict hparsed' _ _ hmoved hothers hrests _ hverdicts =>
    rw [hparsed] at hparsed'
    cases hparsed'
    obtain ⟨finalizedAt, hmoved⟩ := hmoved
    exact ⟨verdict, hrests, hverdicts, ⟨row.2, finalizedAt, hid ▸ hrow, hid ▸ hmoved⟩, hid ▸ hothers⟩

theorem moveFrom_verdicts_ne {was : ArtifactAvailability} {artifact : ReservedArtifact} {row : ArtifactRow}
    (h : s.heldRow was artifact.artifactId = some row) (finalizedAt : ArtifactRow → Option ℤ)
    (verdict : Verdict) :
    (Recovering.moveFrom was finalizedAt artifact verdict s).verdicts ≠ s.verdicts := by
  rw [moveFrom_of_held h]
  simp

/-- **A step that is served comes to a verdict.** -/
theorem Work.Decides.falls {artifact : ReservedArtifact} {work : Work}
    (h : work.Decides options database artifact)
    (hserved : ∀ call : BlobCall, call.artifact = some artifact.artifactId → faults.fails call = false)
    (hget : s.artifacts.get artifact.artifactId = database.artifacts.get artifact.artifactId)
    (hroom : s.tally.verifiedBytes + artifact.byteLength ≤ maxRecoveryVerifiedBytes) :
    ∃ verdict, Falls hash database artifact verdict s (Work.run hash options faults database s work) := by
  cases work with
  | opening => exact h.elim
  | finalized row =>
    obtain ⟨hmem, hparsed⟩ := h
    obtain ⟨hrow, havailable⟩ := ArtifactTable.mem_of_mem_select hmem
    have hid : artifact.artifactId = row.1 := by rw [parseReserved_eq_some hparsed]
    rw [hid, hrow] at hget
    refine (examineFinalized_step hash faults hget havailable).falls hparsed hrow ?_
    have hheld : ∀ t : Recovering, t.artifacts = s.artifacts →
        t.heldRow .available artifact.artifactId = some row.2 := fun t ht => by
      rw [hid]
      exact heldRow_eq_some (ht ▸ hget) havailable
    rw [examineFinalized, examineRow, hparsed]
    dsimp only
    rw [if_neg Bool.false_ne_true, if_neg (not_lt.2 hroom), verifyOneFinalized]
    rcases decideByDigest_of_not_fails hserved s.examined with ⟨-, heq⟩ | heq | ⟨bytes, heq⟩
    · rw [heq]
      exact moveFrom_verdicts_ne (hheld s.examined rfl) _ _
    · rw [heq]
      simp [Recovering.decided, Recovering.verifying, Recovering.examined]
    · rw [heq]
      exact moveFrom_verdicts_ne
        (hheld ((s.examined.verifying artifact.byteLength).setAside artifact.digest bytes) rfl) _ _
  | reserved row =>
    obtain ⟨hmem, hparsed, hwritten⟩ := h
    obtain ⟨hrow, hreserved⟩ := ArtifactTable.mem_of_mem_select hmem
    have hid : artifact.artifactId = row.1 := by rw [parseReserved_eq_some hparsed]
    rw [hid, hrow] at hget
    refine (examineReserved_step hash options faults (knownRuns database) _ hget hreserved).falls hparsed hrow ?_
    have hheld : ∀ t : Recovering, t.artifacts = s.artifacts →
        t.heldRow .reserved artifact.artifactId = some row.2 := fun t ht => by
      rw [hid]
      exact heldRow_eq_some (ht ▸ hget) hreserved
    rw [examineReserved, examineRow, hparsed]
    dsimp only
    rw [hwritten, if_neg Bool.false_ne_true, if_neg (not_lt.2 hroom), resolveOne]
    rcases decideByDigest_of_not_fails hserved s.examined with ⟨-, heq⟩ | heq | ⟨bytes, heq⟩
    · rw [heq]
      have honly := discardTemporary_onlyTemporary faults artifact.artifactId
        (artifact.runId ≠ none || isQuiet options (knownRuns database)) s.examined
      have hne := moveFrom_verdicts_ne (hheld _ honly.artifacts) (fun _ => some options.now) .missing
      rwa [honly.verdicts] at hne
    · rw [heq]
      exact moveFrom_verdicts_ne (hheld (s.examined.verifying artifact.byteLength) rfl) _ _
    · rw [heq]
      exact moveFrom_verdicts_ne
        (hheld ((s.examined.verifying artifact.byteLength).setAside artifact.digest bytes) rfl) _ _

/-! ## Passes that serve few artifacts -/

theorem serving_served {ids : List String} {id : String} (h : id ∈ ids) (call : BlobCall)
    (hcall : call.artifact = some id) : (Faults.serving ids).fails call = false := by
  rw [Faults.serving, Faults.sparing]
  simp only [Bool.and_eq_false_iff, Bool.not_eq_false']
  exact .inr (decide_eq_true ⟨id, h, hcall⟩)

theorem serving_fails {ids : List String} {id : String} (h : id ∉ ids) :
    (Faults.serving ids).fails (.contentLength id) = true := by
  rw [Faults.serving, Faults.sparing]
  simp only [BlobCall.artifact, Option.some.injEq, exists_eq_right']
  simp [h]

/-- What the loops begin with. -/
theorem recordsCompleted_start (options : RecoveryOptions) (faults : Faults) (database : Database)
    (blobs : Blobs) :
    (recordsCompleted options faults database blobs).artifacts = database.artifacts
      ∧ (recordsCompleted options faults database blobs).blobs = blobs
      ∧ (recordsCompleted options faults database blobs).verdicts = []
      ∧ (recordsCompleted options faults database blobs).tally.verifiedBytes = 0 := by
  have hsame := completeInterruptedRecords_same options faults (started database blobs)
  exact ⟨hsame.artifacts, hsame.blobs, hsame.verdicts, hsame.bytes⟩

/-- A step of the work is idle unless it examines a row that is served. -/
theorem Work.run_serving_idle (hash : Bytes → String) (options : RecoveryOptions) (database : Database)
    {ids : List String} {work : Work} (h : ∀ row, work.row = some row → row.1 ∉ ids) (s : Recovering) :
    Idle s (Work.run hash options (.serving ids) database s work) :=
  Work.run_idle (fun row hrow => serving_fails (h row hrow)) s

/-- Two steps of the work examine different rows. -/
theorem eq_of_row_eq {work work' : Work} (hmem : work ∈ workload database) (hmem' : work' ∈ workload database)
    {row row' : String × ArtifactRow} (hrow : work.row = some row) (hrow' : work'.row = some row')
    (h : row.1 = row'.1) : work = work' := by
  have hlisted : ∀ {work : Work} {row : String × ArtifactRow}, work ∈ workload database → work.row = some row →
      database.artifacts.get row.1 = some row.2
        ∧ work = if row.2.availability = .available then .finalized row else .reserved row := by
    intro work row hmem hrow
    rcases List.mem_append.1 hmem with hmem | hmem
    · rcases List.mem_cons.1 hmem with rfl | hmem
      · cases hrow
      · obtain ⟨row', hselect, rfl⟩ := List.mem_map.1 hmem
        cases hrow
        obtain ⟨hget, havailability⟩ := ArtifactTable.mem_of_mem_select hselect
        exact ⟨hget, (if_pos havailability).symm⟩
    · rcases List.mem_cons.1 hmem with rfl | hmem
      · cases hrow
      · obtain ⟨row', hselect, rfl⟩ := List.mem_map.1 hmem
        cases hrow
        obtain ⟨hget, havailability⟩ := ArtifactTable.mem_of_mem_select hselect
        exact ⟨hget, (if_neg (by rw [havailability]; decide)).symm⟩
  obtain ⟨hget, heq⟩ := hlisted hmem hrow
  obtain ⟨hget', heq'⟩ := hlisted hmem' hrow'
  have hsame : row = row' := Prod.ext h (Option.some.inj (hget.symm.trans (h ▸ hget')))
  rw [heq, heq', hsame]

/-- **A pass that serves one artifact** comes to the verdict its bytes demand. -/
theorem recovered_serving_one (hash : Bytes → String) (blobs : Blobs) {artifact : ReservedArtifact}
    (h : WithinReach options database artifact) :
    ∃ verdict t u, t.blobs = blobs ∧ Falls hash database artifact verdict t u
      ∧ (recovered hash options (.serving [artifact.artifactId]) database blobs).artifacts = u.artifacts := by
  obtain ⟨hlength, work, hmem, hdecides⟩ := h.work
  obtain ⟨row, hrow, hparsed, -⟩ := hdecides.row
  have hid : artifact.artifactId = row.1 := by rw [parseReserved_eq_some hparsed]
  obtain ⟨hartifacts, hblobs, -, hbytes⟩ :=
    recordsCompleted_start options (.serving [artifact.artifactId]) database blobs
  obtain ⟨t, hbefore, hafter⟩ := Scan.foldl_one Idle.refl Idle.trans hmem (nodup_workload database)
    (fun other hother hne => Work.run_serving_idle hash options database fun row' hrow' hserved =>
      hne (eq_of_row_eq hother hmem hrow' hrow ((List.mem_singleton.1 hserved).trans hid)))
    (recordsCompleted options (.serving [artifact.artifactId]) database blobs)
  obtain ⟨verdict, hfalls⟩ := hdecides.falls (serving_served (List.mem_singleton.2 rfl))
    (by rw [hbefore.untouched.artifacts, hartifacts])
    (by rw [hbefore.bytes, hbytes]; omega)
  refine ⟨verdict, t, _, hbefore.untouched.blobs.trans hblobs, hfalls, ?_⟩
  rw [recovered_eq, (collectTemporaryBlobs_frame _ _ _ _ _).artifacts, afterReserved_eq_foldl fun _ => rfl]
  exact hafter.untouched.artifacts

/-- **A pass that serves two artifacts** comes to two verdicts, one after the other. -/
theorem recovered_serving_two (hash : Bytes → String) (blobs : Blobs) {x y : ReservedArtifact} {work work' : Work}
    {before after : List Work} (hwork : workload database = before ++ after) (hx : work ∈ before)
    (hy : work' ∈ after) (hxdecides : work.Decides options database x)
    (hydecides : work'.Decides options database y)
    (hne : x.artifactId ≠ y.artifactId) (hfit : x.byteLength + y.byteLength ≤ maxRecoveryVerifiedBytes) :
    ∃ verdict verdict' t t' u u', t.blobs = blobs ∧ Falls hash database x verdict t t' ∧ u.blobs = t'.blobs
      ∧ Falls hash database y verdict' u u'
      ∧ (recovered hash options (.serving [x.artifactId, y.artifactId]) database blobs).verdicts
        = [(x, verdict), (y, verdict')] := by
  obtain ⟨row, hrow, hparsed, -⟩ := hxdecides.row
  obtain ⟨row', hrow', hparsed', -⟩ := hydecides.row
  have hid : x.artifactId = row.1 := by rw [parseReserved_eq_some hparsed]
  have hid' : y.artifactId = row'.1 := by rw [parseReserved_eq_some hparsed']
  have hxmem : work ∈ workload database := hwork ▸ List.mem_append_left _ hx
  have hymem : work' ∈ workload database := hwork ▸ List.mem_append_right _ hy
  obtain ⟨hartifacts, hblobs, hverdicts, hbytes⟩ :=
    recordsCompleted_start options (.serving [x.artifactId, y.artifactId]) database blobs
  obtain ⟨t, u, hbefore, hbetween, hafter⟩ := Scan.foldl_two Idle.refl Idle.trans hwork hx hy
    (nodup_workload database)
    (fun _ hother hotherx hothery => Work.run_serving_idle hash options database fun _ hrow'' hserved => by
      rcases List.mem_cons.1 hserved with heq | hserved
      · exact hotherx (eq_of_row_eq hother hxmem hrow'' hrow (heq.trans hid))
      · exact hothery (eq_of_row_eq hother hymem hrow'' hrow' ((List.mem_singleton.1 hserved).trans hid')))
    (recordsCompleted options (.serving [x.artifactId, y.artifactId]) database blobs)
  obtain ⟨verdict, hfalls⟩ := hxdecides.falls (serving_served List.mem_cons_self)
    (by rw [hbefore.untouched.artifacts, hartifacts]) (by rw [hbefore.bytes, hbytes]; omega)
  have hroom : u.tally.verifiedBytes + y.byteLength ≤ maxRecoveryVerifiedBytes := by
    rw [hbetween.bytes, hfalls.rests.accounts, hbefore.bytes, hbytes]
    have hle := accounted_le (x, verdict)
    dsimp only at hle
    omega
  obtain ⟨verdict', hfalls'⟩ := hydecides.falls
    (serving_served (List.mem_cons_of_mem _ (List.mem_singleton.2 rfl)))
    (by rw [hbetween.untouched.artifacts, hfalls.others _ hne.symm, hbefore.untouched.artifacts, hartifacts]) hroom
  refine ⟨verdict, verdict', t, _, u, _, hbefore.untouched.blobs.trans hblobs, hfalls, hbetween.untouched.blobs,
    hfalls', ?_⟩
  rw [recovered_eq, (collectTemporaryBlobs_frame _ _ _ _ _).verdicts, afterReserved_eq_foldl fun _ => rfl,
    hafter.untouched.verdicts, hfalls'.verdicts, hbetween.untouched.verdicts, hfalls.verdicts,
    hbefore.untouched.verdicts, hverdicts]
  rfl

/-- **A pass that serves one blob in flight** removes it, where nothing is known of any run. -/
theorem recovered_removes (hash : Bytes → String) {id : String} (hruns : readRuns database = none)
    (hthere : blobs.get (.temporary id) ≠ none) (hother : ownerOfBlob database.artifacts id ≠ some options.runId) :
    (recovered hash options (.sparing (fun call => decide (call = .removeTemporary id)) id) database blobs).blobs.get
      (.temporary id) = none := by
  generalize hfaults : Faults.sparing (fun call => decide (call = .removeTemporary id)) id = faults
  have haborted : ∀ checkpoint, faults.aborted checkpoint = false := fun _ => by rw [← hfaults]; rfl
  have hcalls : ∀ other, faults.fails (.contentLength other) = true := fun other => by rw [← hfaults]; rfl
  obtain ⟨hartifacts, hblobs, -, -⟩ := recordsCompleted_start options faults database blobs
  have hidle : Idle (recordsCompleted options faults database blobs) ((workload database).foldl
      (Work.run hash options faults database) (recordsCompleted options faults database blobs)) :=
    Scan.foldl_idle Idle.refl Idle.trans (fun _ _ => Work.run_idle fun row _ => hcalls row.1) _
  rw [← afterReserved_eq_foldl haborted] at hidle
  have hafter : (afterReserved hash options faults database blobs).blobs = blobs :=
    hidle.untouched.blobs.trans hblobs
  have hknown : knownRuns database = [] := by rw [knownRuns, hruns, Option.getD_none]
  have hmem : id ∈ blobs.temporaries := by
    rw [Blobs.mem_temporaries, OrderedMap.mem_keys]
    exact Option.ne_none_iff_exists'.1 hthere
  obtain ⟨rest, hlist⟩ : ∃ rest, faults.listTemporary blobs = id :: rest := by
    rw [Faults.listTemporary, ← hfaults, Faults.sparing]
    dsimp only
    rw [if_pos hmem]
    exact ⟨_, rfl⟩
  rw [recovered_eq, collectTemporaryBlobs, hafter, hlist, Scan.scan_cons, haborted, if_neg Bool.false_ne_true,
    if_neg (by rw [← hfaults]; simp [Faults.sparing])]
  generalize hstart : (if maxRecoveredBlobs ≤ (id :: rest).length
    then (afterReserved hash options faults database blobs).halted
    else afterReserved hash options faults database blobs) = start
  have hstart' : start.artifacts = database.artifacts := by
    rw [← hstart]
    split_ifs <;> exact hidle.untouched.artifacts.trans hartifacts
  have hremoved : (collectOne options faults (knownRuns database) (isQuiet options (knownRuns database)) start
      id).blobs.get (.temporary id) = none := by
    have hleft : ¬ LeftInFlight options (knownRuns database) (isQuiet options (knownRuns database))
        start.artifacts id := by
      rw [hstart', hknown]
      rintro (hwritten | ⟨-, hquiet⟩)
      · rcases howner : ownerOfBlob database.artifacts id with _ | owner
        · rw [howner] at hwritten
          cases hwritten
        · rw [howner] at hwritten hother
          have hsame : owner = options.runId := by simpa [mayStillBeWritten] using hwritten
          exact hother (congrArg some hsame)
      · simp [isQuiet, noOtherRunOpen, windowElapsed] at hquiet
    rw [collectOne, if_neg hleft, if_neg (by rw [← hfaults, Faults.sparing]; simp)]
    exact OrderedMap.get_delete_self _ _
  refine Scan.scan_preserves (I := fun t : Recovering => t.blobs.get (.temporary id) = none) (fun _ ht => ht)
    (fun other _ t ht => ?_) hremoved
  exact (collectOne_frame options faults (knownRuns database) (isQuiet options (knownRuns database)) t other).fewer
    id ht

/-! ## The condition is necessary -/

/-- **Two records that share bytes and fit the budget agree with them**, or they get different verdicts. -/
theorem verifies_of_sameVerdict (h : ∀ faults, RecoversFaithfully hash options database blobs faults)
    {x y : ReservedArtifact} {bytes : Bytes} {work work' : Work} {before after : List Work}
    (hwork : workload database = before ++ after) (hx : work ∈ before) (hy : work' ∈ after)
    (hxdecides : work.Decides options database x) (hydecides : work'.Decides options database y)
    (hne : x.artifactId ≠ y.artifactId) (hdigest : x.digest = y.digest)
    (hfit : x.byteLength + y.byteLength ≤ maxRecoveryVerifiedBytes)
    (hbytes : blobs.get (.content x.digest) = some bytes) :
    Verifies hash bytes x.digest x.byteLength ∧ Verifies hash bytes y.digest y.byteLength := by
  obtain ⟨verdict, verdict', t, t', u, u', hblobs, hfalls, hbetween, hfalls', hverdicts⟩ :=
    recovered_serving_two hash blobs hwork hx hy hxdecides hydecides hne hfit
  have hsame := (h (.serving [x.artifactId, y.artifactId])).sameVerdict (x, verdict) (by simp [hverdicts])
    (y, verdict') (by simp [hverdicts]) hdigest
  dsimp only at hsame
  subst hsame
  have hrests := hfalls.rests
  have hrests' := hfalls'.rests
  cases hrests with
  | missing hnone =>
    rw [hblobs, hbytes] at hnone
    cases hnone
  | available hsome hverifies hkept =>
    rw [hblobs, hbytes] at hsome
    cases hsome
    cases hrests' with
    | available hsome' hverifies' =>
      rw [hbetween, hkept, hblobs, ← hdigest, hbytes] at hsome'
      cases hsome'
      exact ⟨hverifies, hverifies'⟩
  | quarantined hsome hverifies =>
    -- the bytes are gone when the second record is read
    cases hrests' with
    | quarantined hsome' =>
      have hgone := hfalls.rests.aside.1
      rw [hbetween, ← hdigest, hgone] at hsome'
      cases hsome'

/-- A resolvable artifact is about a reserved row. -/
theorem Resolvable.row {artifact : ReservedArtifact} (h : Resolvable options database artifact) :
    ∃ row, database.artifacts.get artifact.artifactId = some row ∧ row.availability = .reserved
      ∧ row.digest = artifact.digest := by
  obtain ⟨-, row, hmem, hparsed, -⟩ := h
  obtain ⟨hget, hreserved⟩ := ArtifactTable.mem_of_mem_select hmem
  rw [parseReserved_eq_some hparsed]
  exact ⟨row.2, hget, hreserved, rfl⟩

/-- **Recovery that is faithful whatever fails** needs the condition. -/
theorem recoverable_of_recoversFaithfully
    (h : ∀ faults, RecoversFaithfully hash options database blobs faults) :
    Recoverable hash options database blobs where
  runs := by
    by_cases hruns : readRuns database = none
    · refine .inr ⟨fun artifact row hresolvable hrow hunended => ?_, fun id row hthere hrow hunended => ?_⟩
      · obtain ⟨verdict, t, u, -, hfalls, hartifacts⟩ :=
          recovered_serving_one hash blobs (.inl hresolvable : WithinReach options database artifact)
        obtain ⟨row', hrow', hreserved, -⟩ := hresolvable.row
        obtain ⟨old, finalizedAt, -, hmoved⟩ := hfalls.row
        rw [hrow] at hrow'
        cases hrow'
        have hkept := (h (.serving [artifact.artifactId])).liveRecord artifact.artifactId row hrow hreserved
          hunended
        rw [hartifacts, hmoved] at hkept
        rw [← Option.some.inj hkept] at hreserved
        exact verdict.availability_ne_reserved hreserved
      · have hother : ownerOfBlob database.artifacts id ≠ some options.runId := by
          obtain ⟨owner, run, howner, hne, -⟩ := hunended
          rw [ownerOfBlob, hrow, Option.bind_some, howner, Option.bind_some, identifier?]
          split_ifs
          · exact fun heq => hne (Option.some.inj heq)
          · exact (Option.some_ne_none _).symm
        have hremoved := recovered_removes hash hruns hthere hother
        rw [(h _).liveBlob id row hrow hunended] at hremoved
        exact hthere hremoved
    · exact .inl hruns
  lengths artifact bytes hresolvable hbytes := by
    obtain ⟨verdict, t, u, hblobs, hfalls, hartifacts⟩ :=
      recovered_serving_one hash blobs (.inl hresolvable : WithinReach options database artifact)
    obtain ⟨row, hrow, hreserved, hdigest⟩ := hresolvable.row
    obtain ⟨old, finalizedAt, hold, hmoved⟩ := hfalls.row
    rw [hrow] at hold
    cases hold
    rw [← hartifacts] at hmoved
    have hrests := hfalls.rests
    cases hrests with
    | missing hnone =>
      rw [hblobs, hbytes] at hnone
      cases hnone
    | available hsome hverifies =>
      obtain ⟨bytes', hbytes', hhash⟩ := (h _).available _ row _ hrow hreserved hmoved rfl
      rw [hblobs, hbytes] at hsome
      cases hsome
      rw [hdigest, hbytes] at hbytes'
      cases hbytes'
      exact ⟨fun _ => hhash.trans hdigest, fun _ => hverifies⟩
    | quarantined hsome hverifies =>
      obtain ⟨bytes', hbytes', hhash, -⟩ := (h _).quarantined _ row _ hrow hreserved hmoved rfl
      rw [hblobs, hbytes] at hsome
      cases hsome
      rw [hdigest, hbytes] at hbytes'
      cases hbytes'
      exact ⟨fun hyes => absurd hyes hverifies, fun heq => absurd (heq.trans hdigest.symm) hhash⟩
  shared x y bytes hx hy hne hdigest hfit hbytes := by
    obtain ⟨-, work, hmem, hdecides⟩ := hx.work
    obtain ⟨-, work', hmem', hdecides'⟩ := hy.work
    have hworks : work ≠ work' := by
      rintro rfl
      obtain ⟨row, hrow, hparsed, -⟩ := hdecides.row
      obtain ⟨row', hrow', hparsed', -⟩ := hdecides'.row
      rw [hrow] at hrow'
      cases hrow'
      rw [hparsed] at hparsed'
      cases hparsed'
      exact hne rfl
    rcases Scan.exists_cut hmem hmem' hworks with ⟨before, after, hwork, hin, hin'⟩
      | ⟨before, after, hwork, hin', hin⟩
    · exact verifies_of_sameVerdict h hwork hin hin' hdecides hdecides' hne hdigest hfit hbytes
    · exact (verifies_of_sameVerdict h hwork hin' hin hdecides' hdecides hne.symm hdigest.symm (by omega)
        (hdigest ▸ hbytes)).symm

/-- **Recovery is faithful whatever fails and wherever it is aborted** exactly when the runs can be read or
nothing of an unended run is in reach, lengths agree with bytes, and records that share bytes agree with them. -/
theorem recoversFaithfully_iff (hash : Bytes → String) (options : RecoveryOptions) (database : Database)
    (blobs : Blobs) :
    (∀ faults, RecoversFaithfully hash options database blobs faults)
      ↔ Recoverable hash options database blobs :=
  ⟨recoverable_of_recoversFaithfully, recoversFaithfully⟩

/-! ## A run row that does not parse -/

/-- The record of an artifact another run is ingesting. -/
def ingesting : ArtifactRow where
  digest := "sha-256:0000000000000000000000000000000000000000000000000000000000000000"
  byteLength := 1
  runId := some "live"
  availability := .reserved
  createdAt := "2024-01-01T00:00:00.000Z"
  finalizedAt := none

/-- One run is under way; the row of another one holds no canonical timestamp. -/
def mixedRuns : Database where
  runs := (OrderedMap.empty.set "live" ⟨"2024-01-01T00:00:00.000Z", none, 3⟩).set "older" ⟨"2023-01-01", none, 3⟩
  runsReadable := true
  artifacts := OrderedMap.empty.set "a1" ingesting
  records _ := []

/-- A pass of a third run. -/
def thirdRun : RecoveryOptions := ⟨"third", 1704067200000, ⟨false, false⟩, defaultRecoveryWindowMs⟩

/-- **A row that does not parse lets live work be taken for abandoned.** -/
theorem not_recoversFaithfully :
    ¬ ∀ faults, RecoversFaithfully (fun _ => "") thirdRun mixedRuns .empty faults := by
  intro hfaithful
  have hruns : readRuns mixedRuns = none := by decide +kernel
  have hunended : Unended thirdRun mixedRuns ingesting :=
    ⟨"live", ⟨"2024-01-01T00:00:00.000Z", none, 3⟩, rfl, by decide, by decide, rfl⟩
  have hselect : mixedRuns.artifacts.select .reserved maxRecoveredArtifacts = [("a1", ingesting)] := by
    have hrows : mixedRuns.artifacts.rowsOf .reserved = [("a1", ingesting)] := by decide +kernel
    rw [ArtifactTable.select, hrows, List.mergeSort_singleton]
    rfl
  have hresolvable : Resolvable thirdRun mixedRuns ⟨"a1", ingesting.digest, 1, some "live"⟩ := by
    refine ⟨by decide, ("a1", ingesting), hselect ▸ List.mem_singleton.2 rfl, by decide +kernel, ?_⟩
    rw [knownRuns, hruns]
    decide
  rcases (recoverable_of_recoversFaithfully hfaithful).runs with hread | ⟨hnothing, -⟩
  · exact hread hruns
  · exact hnothing _ ingesting hresolvable (by decide) hunended

end Falryn.Recovery
