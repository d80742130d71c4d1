import Falryn.Recovery.RecoveryRuns

/-!
# A second pass

What a complete pass leaves behind is settled: every available record has its bytes, every reserved one may still
be written, every blob in flight is left alone, and every record that can be completed is.  A pass over that
changes nothing.
-/

namespace Falryn.Recovery

variable {hash : Bytes → String} {options : RecoveryOptions} {database : Database} {blobs : Blobs}
  {faults : Faults} {s : Recovering}

/-! ## Records -/

/-- A record with an identity that can be completed. -/
def Completable (entity : RecordEntity) (id : String) : Prop := entity = .session ∨ isIdentifier id = true

variable {entity : RecordEntity} {now : ℤ} {rows : List RecordRow} {id : String}
  {identities : List String}

/-- What one completion leaves without a completion. -/
theorem mem_completeOne {row : RecordRow}
    (h : row ∈ completeOne entity now rows id) (hopen : row.completedAt = none) :
    row ∈ rows ∧ (row.id = id → ¬ Completable entity id) := by
  rw [completeOne] at h
  split_ifs at h with hsession hidentifier
  · obtain ⟨old, hold, heq⟩ := List.mem_map.1 h
    split_ifs at heq with hmatch
    · rw [← heq] at hopen
      cases hopen
    · rw [← heq] at hopen ⊢
      exact ⟨hold, fun hid => absurd ⟨hid, hopen⟩ hmatch⟩
  · obtain ⟨old, hold, heq⟩ := List.mem_map.1 h
    split_ifs at heq with hmatch
    · rw [← heq] at hopen
      cases hopen
    · rw [← heq]
      exact ⟨hold, fun hid => absurd hid hmatch⟩
  · exact ⟨h, fun _ hcompletable => hcompletable.elim hsession hidentifier⟩

theorem mem_completeAll {row : RecordRow} : ∀ {rows : List RecordRow} {changed : ℕ},
      row ∈ (identities.foldl (fun (rows, changed) id =>
          (completeOne entity now rows id, changed + completedBy entity rows id)) (rows, changed)).1 →
        row.completedAt = none → row ∈ rows ∧ ∀ id ∈ identities, row.id = id → ¬ Completable entity id := by
  induction identities with
  | nil => exact fun h _ => ⟨h, nofun⟩
  | cons id identities ih =>
    intro rows changed h hopen
    obtain ⟨hrest, hall⟩ := ih h hopen
    obtain ⟨hrow, hid⟩ := mem_completeOne hrest hopen
    exact ⟨hrow, List.forall_mem_cons.2 ⟨hid, hall⟩⟩

/-- An identity that is none completes nothing. -/
theorem completeOne_of_not_completable (h : ¬ Completable entity id)
    (now : ℤ) (rows : List RecordRow) :
    completeOne entity now rows id = rows ∧ completedBy entity rows id = 0 := by
  obtain ⟨hsession, hidentifier⟩ := not_or.1 h
  rw [completeOne, completedBy, if_neg hsession, if_neg hsession, if_neg hidentifier,
    if_neg fun hboth => hidentifier hboth.1]
  exact ⟨rfl, rfl⟩

theorem completeAll_of_not_completable (h : ∀ id ∈ identities, ¬ Completable entity id) :
    completeAll entity now rows identities = (rows, 0) := by
  rw [completeAll]
  induction identities with
  | nil => rfl
  | cons id identities ih =>
    obtain ⟨hid, hrest⟩ := List.forall_mem_cons.1 h
    obtain ⟨hrows, hchanged⟩ := completeOne_of_not_completable hid now rows
    rw [List.foldl_cons]
    dsimp only
    rw [hrows, hchanged]
    exact ih hrest

theorem completeEntity_records (now : ℤ) (s : Recovering) (entity : RecordEntity) :
    (completeEntity now s entity).records = Function.update s.records entity
      (completeAll entity now (s.records entity) (unfinished (s.records entity))).1 := rfl

/-- No record of an entity can be completed any more. -/
def Finished (entity : RecordEntity) (s : Recovering) : Prop :=
  ∀ id ∈ unfinished (s.records entity), ¬ Completable entity id

theorem unfinished_of_lt (h : (unfinished rows).length < maxRecoveredRecords) :
    unfinished rows = (rows.filter fun row => row.completedAt = none).map RecordRow.id := by
  rw [unfinished, List.length_map, List.length_take] at h
  rw [unfinished, List.take_of_length_le (by omega)]

/-- **All records of an entity are completed** unless there are too many. -/
theorem finished_completeEntity (h : (completeEntity now s entity).Clean) :
    Finished entity (completeEntity now s entity) := by
  have hfew : (unfinished (s.records entity)).length < maxRecoveredRecords := by
    by_contra hmany
    have hcomplete := h.1
    simp only [completeEntity, if_pos (not_lt.1 hmany)] at hcomplete
    cases hcomplete
  intro id hid
  obtain ⟨row, hrow, rfl⟩ := List.mem_map.1 hid
  obtain ⟨hmem, hopen⟩ := List.mem_filter.1 (List.mem_of_mem_take hrow)
  rw [completeEntity_records, Function.update_self] at hmem
  have hopen : row.completedAt = none := of_decide_eq_true hopen
  obtain ⟨hold, hall⟩ := mem_completeAll hmem hopen
  refine hall row.id ?_ rfl
  rw [unfinished_of_lt hfew]
  exact List.mem_map_of_mem (List.mem_filter.2 ⟨hold, decide_eq_true hopen⟩)

theorem Finished.completeEntity {other : RecordEntity} (h : Finished other s) :
    Finished other (completeEntity now s entity) := by
  by_cases hsame : other = entity
  · subst hsame
    rw [Finished, completeEntity_records, Function.update_self, completeAll_of_not_completable h]
    exact h
  · rw [Finished, completeEntity_records, Function.update_of_ne hsame]
    exact h

/-- Where nothing can be completed, nothing is. -/
theorem Finished.same (h : Finished entity s) :
    (Recovery.completeEntity now s entity).records = s.records := by
  rw [completeEntity_records, completeAll_of_not_completable h, Function.update_eq_self]

/-- **A clean pass completes every record it can.** -/
theorem completeInterruptedRecords_finished (h : (completeInterruptedRecords options faults s).Clean) :
    s.Clean ∧ ∀ entity, Finished entity (completeInterruptedRecords options faults s) := by
  have hclean : ∀ (entity : RecordEntity) (_ : List RecordEntity) (t : Recovering), True →
      (completeEntity options.now t entity).Clean → t.Clean := by
    rintro entity - t - ⟨hcomplete, hfailed⟩
    refine ⟨?_, hfailed⟩
    simp only [completeEntity] at hcomplete
    split_ifs at hcomplete
    exact hcomplete
  have hkeep : ∀ (entity other : RecordEntity) (_ : List RecordEntity) (t : Recovering), True →
      Finished other t → Finished other (completeEntity options.now t entity) :=
    fun _ _ _ _ _ hfinished => hfinished.completeEntity
  have hdone := Scan.scan_done (I := fun _ _ => True) not_clean_halted hclean (fun _ _ _ _ => trivial)
    (fun _ _ _ _ hfirst => finished_completeEntity hfirst) hkeep trivial h
  exact ⟨hdone.1, fun entity => hdone.2 entity (by cases entity <;> decide)⟩

/-! ## Rows and blobs of a clean pass -/

/-- What the examination of a row settles: it may still be written, or there is a verdict about it. -/
def Examined (isWritten : ReservedArtifact → Bool) (row : String × ArtifactRow) (s : Recovering) : Prop :=
  (∃ artifact, parseReserved row = some artifact ∧ isWritten artifact = true)
    ∨ row.1 ∈ s.verdicts.map fun x => x.1.artifactId

variable {isWritten : ReservedArtifact → Bool} {row : String × ArtifactRow} {s' : Recovering}

theorem RowStep.clean
    (h : RowStep hash isWritten row s s') (hclean : s'.Clean) : s.Clean ∧ Examined isWritten row s' := by
  cases h with
  | idle _ _ hidle => exact ⟨(hidle hclean).1, .inl (hidle hclean).2⟩
  | @decided artifact verdict hparsed _ _ _ _ _ _ hverdicts _ _ _ hdecided =>
    refine ⟨hdecided hclean, .inr ?_⟩
    rw [hverdicts, List.map_append, List.mem_append]
    refine .inr (List.mem_singleton.2 ?_)
    rw [parseReserved_eq_some hparsed]

theorem RowStep.verdicts_subset (h : RowStep hash isWritten row s s') : s.verdicts ⊆ s'.verdicts := by
  cases h with
  | idle huntouched => rw [huntouched.verdicts]; exact fun _ hx => hx
  | decided _ _ _ _ _ _ _ hverdicts => rw [hverdicts]; exact List.subset_append_left _ _

theorem RowStep.records (h : RowStep hash isWritten row s s') : s'.records = s.records := by
  cases h with
  | idle huntouched => exact huntouched.records
  | decided _ _ _ _ _ _ hrecords => exact hrecords

theorem Examined.step {isWritten' : ReservedArtifact → Bool} {row' : String × ArtifactRow} (h : Examined isWritten row s) (hstep : RowStep hash isWritten' row' s s') :
    Examined isWritten row s' := by
  rcases h with hwritten | hdecided
  · exact .inl hwritten
  · exact .inr (List.map_subset _ hstep.verdicts_subset hdecided)

/-- A clean loop began with all its rows. -/
theorem opened_clean {availability : ArtifactAvailability} (h : (opened availability s).Clean) :
    s.Clean ∧ (s.artifacts.select availability maxRecoveredArtifacts).length < maxRecoveredArtifacts := by
  rw [opened] at h
  split_ifs at h with hmany
  · exact absurd h (not_clean_halted s)
  · exact ⟨h, not_le.1 hmany⟩

/-- The first loop leaves the records alone. -/
theorem afterFinalized_records (h : Recoverable hash options database blobs) :
    (afterFinalized hash options faults database blobs).records
      = (recordsCompleted options faults database blobs).records := by
  have huntouched := (opened_untouched .available (recordsCompleted options faults database blobs)).1
  refine (Scan.scan_preserves_rest (I := fun rest t => FinalizedLoop hash options database blobs rest t
    ∧ t.records = (recordsCompleted options faults database blobs).records) ?_ ?_
    ⟨finalizedLoop_start, huntouched.records⟩).2
  · exact fun _ t ht => ⟨⟨ht.1.1.halted, Pending.nil database _, ht.1.2.2⟩, ht.2⟩
  · rintro row rest t ⟨hloop, hrecords⟩
    obtain ⟨hget, -, havailability⟩ := hloop.2.1.get hloop.1 List.mem_cons_self
    exact ⟨hloop.step h, (examineFinalized_step hash faults hget havailability).records.trans hrecords⟩

/-- **A clean first loop** has a verdict about every available row. -/
theorem verifyFinalizedArtifacts_clean (hrecoverable : Recoverable hash options database blobs)
    (h : (afterFinalized hash options faults database blobs).Clean) :
    (recordsCompleted options faults database blobs).Clean
      ∧ ∀ row : String × ArtifactRow, database.artifacts.get row.1 = some row.2 →
        row.2.availability = .available →
          row.1 ∈ (afterFinalized hash options faults database blobs).verdicts.map fun x => x.1.artifactId := by
  have hstep : ∀ row rest t, FinalizedLoop hash options database blobs (row :: rest) t →
      RowStep hash (fun _ => false) row t (examineFinalized hash faults t row) := fun row rest t ht => by
    obtain ⟨hget, -, havailability⟩ := ht.2.1.get ht.1 List.mem_cons_self
    exact examineFinalized_step hash faults hget havailability
  have hdone := Scan.scan_done (I := FinalizedLoop hash options database blobs) not_clean_halted
    (fun row rest t ht hclean => ((hstep row rest t ht).clean hclean).1) (fun _ _ _ ht => ht.step hrecoverable)
    (fun row rest t ht hclean => ((hstep row rest t ht).clean hclean).2)
    (fun row other rest t ht (hexamined : Examined (fun _ => false) other t) =>
      hexamined.step (hstep row rest t ht)) finalizedLoop_start h
  obtain ⟨hclean, hfew⟩ := opened_clean hdone.1
  refine ⟨hclean, fun row hrow havailability => ?_⟩
  have hartifacts : (recordsCompleted options faults database blobs).artifacts = database.artifacts :=
    (completeInterruptedRecords_same options faults (started database blobs)).artifacts
  have hmem := ArtifactTable.mem_select_of_lt (hartifacts ▸ hrow) havailability hfew
  exact (hdone.2 row hmem).resolve_left fun ⟨_, _, hwritten⟩ => nomatch hwritten

variable {quiet : Bool}

/-- What the second loop does to verdicts and records. -/
theorem resolveReservedArtifacts_frame (hrecoverable : Recoverable hash options database blobs)
    (hs : FinalizedLoop hash options database blobs [] s) :
    s.verdicts ⊆ (resolveReservedArtifacts hash options faults (knownRuns database) quiet s).verdicts
      ∧ (resolveReservedArtifacts hash options faults (knownRuns database) quiet s).records = s.records := by
  have huntouched := (opened_untouched .reserved s).1
  refine (Scan.scan_preserves_rest (I := fun rest t => ReservedLoop hash options database blobs rest t
    ∧ s.verdicts ⊆ t.verdicts ∧ t.records = s.records) ?_ ?_
    ⟨reservedLoop_start hs, huntouched.verdicts ▸ List.Subset.refl _, huntouched.records⟩).2
  · exact fun _ t ht => ⟨⟨ht.1.1.halted, Pending.nil database _⟩, ht.2⟩
  · rintro row rest t ⟨hloop, hsubset, hrecords⟩
    obtain ⟨hget, -, havailability⟩ := hloop.2.get hloop.1 List.mem_cons_self
    have hstep := examineReserved_step hash options faults (knownRuns database) quiet hget havailability
    exact ⟨hloop.step hrecoverable, fun _ hx => hstep.verdicts_subset (hsubset hx), hstep.records.trans hrecords⟩

/-- **A clean second loop** has a verdict about every reserved row that cannot be written any more. -/
theorem resolveReservedArtifacts_clean (hrecoverable : Recoverable hash options database blobs)
    (hs : FinalizedLoop hash options database blobs [] s)
    (h : (resolveReservedArtifacts hash options faults (knownRuns database) quiet s).Clean) :
    s.Clean ∧ ∀ row : String × ArtifactRow, s.artifacts.get row.1 = some row.2 →
      row.2.availability = .reserved →
        Examined (fun artifact => mayStillBeWritten artifact.runId (knownRuns database) options.runId) row
          (resolveReservedArtifacts hash options faults (knownRuns database) quiet s) := by
  have hstep : ∀ row rest t, ReservedLoop hash options database blobs (row :: rest) t →
      RowStep hash (fun artifact => mayStillBeWritten artifact.runId (knownRuns database) options.runId) row t
        (examineReserved hash options faults (knownRuns database) quiet t row) := fun row rest t ht => by
    obtain ⟨hget, -, havailability⟩ := ht.2.get ht.1 List.mem_cons_self
    exact examineReserved_step hash options faults (knownRuns database) quiet hget havailability
  have hdone := Scan.scan_done (I := ReservedLoop hash options database blobs) not_clean_halted
    (fun row rest t ht hclean => ((hstep row rest t ht).clean hclean).1) (fun _ _ _ ht => ht.step hrecoverable)
    (fun row rest t ht hclean => ((hstep row rest t ht).clean hclean).2)
    (fun row other rest t ht (hexamined : Examined (fun artifact =>
        mayStillBeWritten artifact.runId (knownRuns database) options.runId) other t) =>
      hexamined.step (hstep row rest t ht)) (reservedLoop_start hs) h
  obtain ⟨hclean, hfew⟩ := opened_clean hdone.1
  exact ⟨hclean, fun row hrow havailability =>
    hdone.2 row (ArtifactTable.mem_select_of_lt hrow havailability hfew)⟩

/-- What the third loop does but to blobs in flight. -/
structure OnlyTemporaries (s s' : Recovering) : Prop where
  artifacts : s'.artifacts = s.artifacts
  records : s'.records = s.records
  verdicts : s'.verdicts = s.verdicts
  fewer : ∀ id, s.blobs.get (.temporary id) = none → s'.blobs.get (.temporary id) = none

theorem collectOne_frame (options : RecoveryOptions) (faults : Faults) (runs : List RunRecord) (quiet : Bool)
    (s : Recovering) (id : String) : OnlyTemporaries s (collectOne options faults runs quiet s id) := by
  rcases collectOne_cases options faults runs quiet s id with ⟨huntouched, -, -⟩ | ⟨-, heq⟩
  · exact ⟨huntouched.artifacts, huntouched.records, huntouched.verdicts, fun _ _ => by rwa [huntouched.blobs]⟩
  · rw [heq]
    refine ⟨rfl, rfl, rfl, fun _ hnone => ?_⟩
    change (s.blobs.delete _).get _ = none
    rw [OrderedMap.get_delete]
    split_ifs
    · rfl
    · exact hnone

variable {t : Recovering} {u t' : Recovering}

theorem OnlyTemporaries.trans (h : OnlyTemporaries s t) (h' : OnlyTemporaries t u) :
    OnlyTemporaries s u :=
  ⟨h'.artifacts.trans h.artifacts, h'.records.trans h.records, h'.verdicts.trans h.verdicts,
    fun id hnone => h'.fewer id (h.fewer id hnone)⟩

theorem collectTemporaryBlobs_frame (options : RecoveryOptions) (faults : Faults) (runs : List RunRecord)
    (quiet : Bool) (s : Recovering) :
    OnlyTemporaries s (collectTemporaryBlobs options faults runs quiet s) := by
  have hhalted : ∀ t : Recovering, OnlyTemporaries s t → OnlyTemporaries s t.halted :=
    fun t ht => ⟨ht.artifacts, ht.records, ht.verdicts, ht.fewer⟩
  have hself : OnlyTemporaries s s := ⟨rfl, rfl, rfl, fun _ h => h⟩
  rw [collectTemporaryBlobs]
  split_ifs
  · exact hhalted s hself
  · exact Scan.scan_preserves hhalted (fun id _ t ht => ht.trans (collectOne_frame options faults runs quiet t id))
      (hhalted s hself)
  · exact Scan.scan_preserves hhalted (fun id _ t ht => ht.trans (collectOne_frame options faults runs quiet t id))
      hself

/-- **A clean third loop** leaves those blobs in flight it may not remove. -/
theorem collectTemporaryBlobs_clean {runs : List RunRecord}
    (h : (collectTemporaryBlobs options faults runs quiet s).Clean) :
    s.Clean ∧ ∀ id, (collectTemporaryBlobs options faults runs quiet s).blobs.get (.temporary id) ≠ none →
      LeftInFlight options runs quiet s.artifacts id := by
  have hframe := collectTemporaryBlobs_frame options faults runs quiet s
  rw [collectTemporaryBlobs] at h hframe ⊢
  by_cases hlist : faults.fails .listTemporary = true
  · rw [if_pos hlist] at h
    exact absurd h (not_clean_halted s)
  rw [if_neg hlist] at h hframe ⊢
  have hdone := Scan.scan_done (I := fun _ t => t.artifacts = s.artifacts) not_clean_halted
    (fun id _ t _ (hclean : (collectOne options faults runs quiet t id).Clean) => ?_)
    (fun id _ t ht => (collectOne_frame options faults runs quiet t id).artifacts.trans ht)
    (fun id _ t ht hclean => ?_)
    (fun id other _ t _ (hother : t.blobs.get (.temporary other) = none
        ∨ LeftInFlight options runs quiet s.artifacts other) =>
      hother.imp_left fun hnone => (collectOne_frame options faults runs quiet t id).fewer other hnone)
    ?_ h
  · obtain ⟨hclean, hall⟩ := hdone
    split_ifs at hclean with hmany
    · exact absurd hclean (not_clean_halted s)
    · refine ⟨hclean, fun id hthere => ?_⟩
      have hbefore : s.blobs.get (.temporary id) ≠ none := fun hnone => hthere (hframe.fewer id hnone)
      have hlisted : id ∈ faults.listTemporary s.blobs := by
        rw [Faults.listTemporary, List.length_take] at hmany
        rw [Faults.listTemporary, List.take_of_length_le (by omega), (faults.perm s.blobs).mem_iff,
          Blobs.mem_temporaries, OrderedMap.mem_keys]
        exact Option.ne_none_iff_exists'.1 hbefore
      exact (hall id hlisted).resolve_left hthere
  · rcases collectOne_cases options faults runs quiet t id with ⟨-, -, hleft⟩ | ⟨-, heq⟩
    · exact (hleft hclean).1
    · rw [heq] at hclean
      exact hclean
  · rcases collectOne_cases options faults runs quiet t id with ⟨-, -, hleft⟩ | ⟨-, heq⟩
    · exact .inr (ht ▸ (hleft hclean).2)
    · rw [heq]
      exact .inl (OrderedMap.get_delete_self _ _)
  · split_ifs <;> rfl

/-! ## Settled stores -/

/-- **There is nothing left to do.** -/
structure Settled (hash : Bytes → String) (options : RecoveryOptions) (database : Database) (s : Recovering) :
    Prop where
  available : ∀ (row : String × ArtifactRow) artifact, s.artifacts.get row.1 = some row.2 →
    row.2.availability = .available → parseReserved row = some artifact →
      ∃ bytes, s.blobs.get (.content artifact.digest) = some bytes
        ∧ Verifies hash bytes artifact.digest artifact.byteLength
  reserved : ∀ (row : String × ArtifactRow) artifact, s.artifacts.get row.1 = some row.2 →
    row.2.availability = .reserved → parseReserved row = some artifact →
      mayStillBeWritten artifact.runId (knownRuns database) options.runId = true
  inFlight : ∀ id, s.blobs.get (.temporary id) ≠ none →
    LeftInFlight options (knownRuns database) (isQuiet options (knownRuns database)) s.artifacts id
  records : ∀ entity, Finished entity s

/-- The bytes of an available verdict are in their place. -/
theorem Faithful.bytes_in_place (h : Recoverable hash options database blobs)
    (hs : Faithful hash options database blobs s) {x : ReservedArtifact × Verdict} (hx : x ∈ s.verdicts)
    (havailable : x.2 = .available) :
    ∃ bytes, s.blobs.get (.content x.1.digest) = some bytes ∧ Verifies hash bytes x.1.digest x.1.byteLength := by
  have hjustified := hs.justified x hx
  rw [Justified, havailable] at hjustified
  obtain ⟨bytes, hsome, hverifies⟩ := hjustified
  rcases hs.content x.1.digest with heq | ⟨-, y, hy, hquarantined, hdigest⟩
  · exact ⟨bytes, heq.trans hsome, hverifies⟩
  · have hsame := hs.sameVerdict h hy hx hdigest
    rw [hquarantined, havailable] at hsame
    cases hsame

/-- The verdicts of the first loop are verdicts of the pass. -/
theorem decided_of_afterFinalized (h : Recoverable hash options database blobs)
    (hid : id ∈ (afterFinalized hash options faults database blobs).verdicts.map fun x => x.1.artifactId) :
    id ∈ (recovered hash options faults database blobs).verdicts.map fun x => x.1.artifactId := by
  rw [recovered_eq, (collectTemporaryBlobs_frame _ _ _ _ _).verdicts]
  exact List.map_subset _ (resolveReservedArtifacts_frame h (finalizedLoop_end h faults)).1 hid

/-- A row that was decided about has the availability of its verdict. -/
theorem Faithful.decided (hs : Faithful hash options database blobs s) {row : String × ArtifactRow}
    (hrow : s.artifacts.get row.1 = some row.2) (hdecided : row.1 ∈ s.verdicts.map fun x => x.1.artifactId) :
    ∃ x ∈ s.verdicts, row.2.availability = x.2.availability ∧ x.1.digest = row.2.digest
      ∧ x.1.byteLength = row.2.byteLength := by
  obtain ⟨x, hx, hid⟩ := List.mem_map.1 hdecided
  have hid : x.1.artifactId = row.1 := hid
  obtain ⟨old, finalizedAt, hold, hmoved⟩ := hs.moved x hx
  obtain ⟨old', hold', hdigest, hlength, -⟩ := (hs.reach x hx).row
  rw [hold] at hold'
  cases hold'
  rw [hid, hrow] at hmoved
  have hnow := Option.some.inj hmoved
  exact ⟨x, hx, by rw [hnow], by rw [hnow, ← hdigest], by rw [hnow, ← hlength]⟩

theorem Verdict.availability_ne_reserved (verdict : Verdict) : verdict.availability ≠ .reserved := by
  cases verdict <;> exact nofun

theorem Verdict.eq_available {verdict : Verdict} (h : verdict.availability = .available) :
    verdict = .available := by
  cases verdict <;> first | rfl | cases h

/-- **A clean pass leaves its stores settled.** -/
theorem settled_of_clean (h : Recoverable hash options database blobs)
    (hclean : (recovered hash options faults database blobs).Clean) :
    Settled hash options database (recovered hash options faults database blobs) := by
  have hfaithful := recovered_faithful h faults
  have hfirst := finalizedLoop_end h faults
  have hframe := collectTemporaryBlobs_frame options faults (knownRuns database)
    (isQuiet options (knownRuns database)) (afterReserved hash options faults database blobs)
  rw [← recovered_eq] at hframe
  obtain ⟨hclean₂, hinFlight⟩ :=
    collectTemporaryBlobs_clean (recovered_eq hash options faults database blobs ▸ hclean)
  obtain ⟨hclean₁, hreserved⟩ := resolveReservedArtifacts_clean h hfirst hclean₂
  obtain ⟨hclean₀, havailable⟩ := verifyFinalizedArtifacts_clean h hclean₁
  constructor
  · intro row artifact hrow hrowAvailable hparsed
    rw [parseReserved_eq_some hparsed]
    by_cases hdecided : row.1 ∈ (recovered hash options faults database blobs).verdicts.map fun x => x.1.artifactId
    · obtain ⟨x, hx, havailability, hdigest, hlength⟩ := hfaithful.decided hrow hdecided
      have hbytes := hfaithful.bytes_in_place h hx
        (Verdict.eq_available (havailability.symm.trans hrowAvailable))
      rwa [hdigest, hlength] at hbytes
    · have hold := (hfaithful.kept row.1 hdecided).symm.trans hrow
      exact absurd (decided_of_afterFinalized h (havailable row hold hrowAvailable)) hdecided
  · intro row artifact hrow hrowReserved hparsed
    have hout : row.1 ∉ (recovered hash options faults database blobs).verdicts.map fun x => x.1.artifactId := by
      intro hdecided
      obtain ⟨x, -, havailability, -⟩ := hfaithful.decided hrow hdecided
      exact x.2.availability_ne_reserved (havailability.symm.trans hrowReserved)
    have hold := (hfirst.1.kept row.1 fun hin => hout (decided_of_afterFinalized h hin)).trans
      ((hfaithful.kept row.1 hout).symm.trans hrow)
    rcases hreserved row hold hrowReserved with ⟨artifact', hparsed', hwritten⟩ | hdecided
    · rw [hparsed] at hparsed'
      cases hparsed'
      exact hwritten
    · rw [hframe.verdicts] at hout
      exact absurd hdecided hout
  · intro id hthere
    rw [hframe.artifacts]
    exact hinFlight id hthere
  · intro entity
    have hrecords : (recovered hash options faults database blobs).records
        = (recordsCompleted options faults database blobs).records :=
      hframe.records.trans ((resolveReservedArtifacts_frame h hfirst).2.trans (afterFinalized_records h))
    rw [Finished, hrecords]
    exact (completeInterruptedRecords_finished hclean₀).2 entity

/-! ## A pass over settled stores -/

theorem SameStores.trans_untouched (h : SameStores s t) (h' : Untouched t u) : SameStores s u :=
  ⟨h'.artifacts.trans h.artifacts, h'.records.trans h.records, h'.blobs.trans h.blobs⟩

theorem SameStores.halted (h : SameStores s t) : SameStores s t.halted :=
  h.trans_untouched ⟨rfl, rfl, rfl, rfl⟩

/-- An available row of settled stores is found intact. -/
theorem Settled.finalizedStep (h : Settled hash options database s) (ht : SameStores s t) (hrow : s.artifacts.get row.1 = some row.2)
    (havailable : row.2.availability = .available) (hstep : RowStep hash (fun _ => false) row t t') :
    SameStores s t' := by
  cases hstep with
  | idle huntouched => exact ht.trans_untouched huntouched
  | @decided artifact verdict hparsed _ _ _ _ hrests hrecords _ _ _ hintact =>
    obtain ⟨bytes, hsome, hverifies⟩ := h.available row artifact hrow havailable hparsed
    rw [← ht.blobs] at hsome
    cases hrests with
    | missing hnone =>
      rw [hsome] at hnone
      cases hnone
    | available _ _ hblobs =>
      exact ⟨(hintact havailable rfl).trans ht.artifacts, hrecords.trans ht.records, hblobs.trans ht.blobs⟩
    | quarantined hsome' hverifies' =>
      rw [hsome] at hsome'
      cases hsome'
      exact absurd hverifies hverifies'

/-- A reserved row of settled stores may still be written. -/
theorem Settled.reservedStep (h : Settled hash options database s) (ht : SameStores s t) (hrow : s.artifacts.get row.1 = some row.2)
    (hreserved : row.2.availability = .reserved)
    (hstep : RowStep hash (fun artifact => mayStillBeWritten artifact.runId (knownRuns database) options.runId) row
      t t') : SameStores s t' := by
  cases hstep with
  | idle huntouched => exact ht.trans_untouched huntouched
  | decided hparsed hwritten =>
    rw [h.reserved row _ hrow hreserved hparsed] at hwritten
    cases hwritten

/-- **A pass over settled stores changes nothing.** -/
theorem Settled.recovered (h : Settled hash options database s) (faults : Faults) :
    SameStores s (recovered hash options faults (s.database database) s.blobs) := by
  have hknown : knownRuns (s.database database) = knownRuns database := rfl
  have hrecords : SameStores s (recordsCompleted options faults (s.database database) s.blobs) := by
    refine Scan.scan_preserves (fun t ht => ht.halted) (fun entity _ t ht => ?_) ⟨rfl, rfl, rfl⟩
    have hfinished : Finished entity t := by
      rw [Finished, ht.records]
      exact h.records entity
    exact ⟨ht.artifacts, hfinished.same.trans ht.records, ht.blobs⟩
  have hfinalized : SameStores s (afterFinalized hash options faults (s.database database) s.blobs) := by
    refine Scan.scan_preserves (fun t ht => ht.halted) (fun row hrow t ht => ?_)
      (hrecords.trans_untouched (opened_untouched _ _).1)
    rw [hrecords.artifacts] at hrow
    obtain ⟨hget, havailable⟩ := ArtifactTable.mem_of_mem_select hrow
    exact h.finalizedStep ht hget havailable
      (examineFinalized_step hash faults (ht.artifacts ▸ hget) havailable)
  have hreserved : SameStores s (afterReserved hash options faults (s.database database) s.blobs) := by
    rw [afterReserved, hknown]
    refine Scan.scan_preserves (fun t ht => ht.halted) (fun row hrow t ht => ?_)
      (hfinalized.trans_untouched (opened_untouched _ _).1)
    rw [hfinalized.artifacts] at hrow
    obtain ⟨hget, hreserved⟩ := ArtifactTable.mem_of_mem_select hrow
    exact h.reservedStep ht hget hreserved
      (examineReserved_step hash options faults (knownRuns database) _ (ht.artifacts ▸ hget) hreserved)
  rw [recovered_eq, hknown, collectTemporaryBlobs]
  have hcollect : ∀ t, SameStores s t → SameStores s (Scan.scan
      (fun artifactId => faults.aborted (.temporary artifactId)) Recovering.halted
      (collectOne options faults (knownRuns database) (isQuiet options (knownRuns database)))
      (faults.listTemporary (afterReserved hash options faults (s.database database) s.blobs).blobs) t) := by
    intro t ht
    refine Scan.scan_preserves (fun t ht => ht.halted) (fun id hid t ht => ?_) ht
    rcases collectOne_cases options faults (knownRuns database) (isQuiet options (knownRuns database)) t id with
      ⟨huntouched, -, -⟩ | ⟨hleft, -⟩
    · exact ht.trans_untouched huntouched
    · rw [hreserved.blobs] at hid
      have hmem := (faults.perm s.blobs).mem_iff.1 (List.mem_of_mem_take hid)
      obtain ⟨bytes, hget⟩ := OrderedMap.mem_keys.1 (Blobs.mem_temporaries.1 hmem)
      rw [ht.artifacts] at hleft
      exact absurd (h.inFlight id (by rw [hget]; exact Option.some_ne_none _)) hleft
  split_ifs
  · exact hreserved.halted
  · exact hcollect _ hreserved.halted
  · exact hcollect _ hreserved

/-! ## Faithful recovery -/

/-- **Under the condition every pass recovers faithfully.** -/
theorem recoversFaithfully (h : Recoverable hash options database blobs) (faults : Faults) :
    RecoversFaithfully hash options database blobs faults := by
  have hfaithful := recovered_faithful h faults
  -- a reserved row that is no longer reserved has a verdict
  have hdecided : ∀ id row row', database.artifacts.get id = some row → row.availability = .reserved →
      (recovered hash options faults database blobs).artifacts.get id = some row' →
        row'.availability ≠ .reserved → ∃ x ∈ (recovered hash options faults database blobs).verdicts,
          row'.availability = x.2.availability ∧ x.1.digest = row.digest
            ∧ Resolvable options database x.1 ∧ x.1.artifactId = id := by
    intro id row row' hrow hreserved hrow' hmoved
    by_cases hin : id ∈ (recovered hash options faults database blobs).verdicts.map fun x => x.1.artifactId
    · obtain ⟨x, hx, rfl⟩ := List.mem_map.1 hin
      obtain ⟨old, finalizedAt, hold, hset⟩ := hfaithful.moved x hx
      obtain ⟨old', hold', hdigest, -, havailability⟩ := (hfaithful.reach x hx).row
      have hold := Option.some.inj (hold.symm.trans hrow)
      have hold' := Option.some.inj (hold'.symm.trans hrow)
      subst hold hold'
      rw [hrow'] at hset
      rcases havailability with havailable | ⟨hresolvable, -⟩
      · exact absurd (havailable.symm.trans hreserved) (by decide)
      · exact ⟨x, hx, by rw [Option.some.inj hset], hdigest.symm, hresolvable, rfl⟩
    · rw [hfaithful.kept id hin, hrow] at hrow'
      cases hrow'
      exact absurd hreserved hmoved
  constructor
  · intro id row hrow hreserved hunended
    by_cases hin : id ∈ (recovered hash options faults database blobs).verdicts.map fun x => x.1.artifactId
    · obtain ⟨x, hx, rfl⟩ := List.mem_map.1 hin
      obtain ⟨old, hold, -, -, havailability⟩ := (hfaithful.reach x hx).row
      have hold := Option.some.inj (hold.symm.trans hrow)
      subst hold
      rcases havailability with havailable | ⟨hresolvable, -⟩
      · exact absurd (havailable.symm.trans hreserved) (by decide)
      · exact absurd hunended (h.not_unended hresolvable hrow)
    · rw [hfaithful.kept id hin, hrow]
  · exact hfaithful.live
  · intro id row row' hrow hreserved hrow' havailable
    obtain ⟨x, hx, havailability, hdigest, hresolvable, -⟩ := hdecided id row row' hrow hreserved hrow'
      (by rw [havailable]; decide)
    have hjustified := hfaithful.justified x hx
    rw [Justified, Verdict.eq_available (havailability.symm.trans havailable)] at hjustified
    obtain ⟨bytes, hsome, hverifies⟩ := hjustified
    rw [← hdigest]
    exact ⟨bytes, hsome, (h.lengths x.1 bytes hresolvable hsome).1 hverifies⟩
  · intro id row row' hrow hreserved hrow' hmissing
    obtain ⟨x, hx, havailability, hdigest, -⟩ := hdecided id row row' hrow hreserved hrow'
      (by rw [hmissing]; decide)
    have hverdict : x.2 = .missing := by
      rw [hmissing] at havailability
      cases hx2 : x.2 <;> rw [hx2] at havailability <;> first | rfl | cases havailability
    have hjustified := hfaithful.justified x hx
    rw [Justified, hverdict] at hjustified
    rw [← hdigest]
    exact hjustified
  · intro id row row' hrow hreserved hrow' hquarantined
    obtain ⟨x, hx, havailability, hdigest, hresolvable, -⟩ := hdecided id row row' hrow hreserved hrow'
      (by rw [hquarantined]; decide)
    have hverdict : x.2 = .quarantined := by
      rw [hquarantined] at havailability
      cases hx2 : x.2 <;> rw [hx2] at havailability <;> first | rfl | cases havailability
    have hjustified := hfaithful.justified x hx
    rw [Justified, hverdict] at hjustified
    obtain ⟨bytes, hsome, hverifies⟩ := hjustified
    have haside := hfaithful.aside x hx hverdict
    rw [← hdigest]
    exact ⟨bytes, hsome, fun heq => hverifies ((h.lengths x.1 bytes hresolvable hsome).2 heq), haside.trans hsome⟩
  · exact fun x hx _ hy hdigest => hfaithful.sameVerdict h hx hy hdigest
  · exact fun hcomplete faults' => (settled_of_clean h hcomplete).recovered faults'

end Falryn.Recovery
