import Falryn.Recovery.RecoverySteps

/-!
# What a pass decides

What recovery is for, and a condition on what it finds under which it does that, whatever fails and wherever the
pass is aborted.  The invariant `Faithful` compares a pass with the device it began on: a digest whose bytes are
gone from their place has one record, which was quarantined.  That is where the condition on records that share
a digest is used, and the byte budget makes two of them that were both read fit it together.
-/

namespace Falryn.Recovery

variable (hash : Bytes → String) (options : RecoveryOptions) (database : Database) (blobs : Blobs)

/-! ## What recovery is for -/

/-- A row is attributed to a run that is recorded without an end, other than this one. -/
def Unended (row : ArtifactRow) : Prop :=
  ∃ owner run, row.runId = some owner ∧ owner ≠ options.runId ∧ database.runs.get owner = some run
    ∧ run.endedAt = none

/-- A second pass, run immediately after the first. -/
def recoveredTwice (faults faults' : Faults) : Recovering :=
  recovered hash options faults' ((recovered hash options faults database blobs).database database)
    (recovered hash options faults database blobs).blobs

/-- Tables and device are as they were. -/
structure SameStores (s s' : Recovering) : Prop where
  artifacts : s'.artifacts = s.artifacts
  records : s'.records = s.records
  blobs : s'.blobs = s.blobs

/-- **Recovery never touches live work and decides only from bytes**, and deciding again changes nothing. -/
structure RecoversFaithfully (faults : Faults) : Prop where
  liveRecord : ∀ id row, database.artifacts.get id = some row → row.availability = .reserved →
    Unended options database row →
      (recovered hash options faults database blobs).artifacts.get id = some row
  liveBlob : ∀ id row, database.artifacts.get id = some row → Unended options database row →
    (recovered hash options faults database blobs).blobs.get (.temporary id) = blobs.get (.temporary id)
  available : ∀ id row row', database.artifacts.get id = some row → row.availability = .reserved →
    (recovered hash options faults database blobs).artifacts.get id = some row' →
      row'.availability = .available → ∃ bytes, blobs.get (.content row.digest) = some bytes ∧ hash bytes = row.digest
  missing : ∀ id row row', database.artifacts.get id = some row → row.availability = .reserved →
    (recovered hash options faults database blobs).artifacts.get id = some row' →
      row'.availability = .missing → blobs.get (.content row.digest) = none
  quarantined : ∀ id row row', database.artifacts.get id = some row → row.availability = .reserved →
    (recovered hash options faults database blobs).artifacts.get id = some row' →
      row'.availability = .quarantined →
        ∃ bytes, blobs.get (.content row.digest) = some bytes ∧ hash bytes ≠ row.digest
          ∧ (recovered hash options faults database blobs).blobs.get (.quarantine row.digest) = some bytes
  sameVerdict : ∀ x ∈ (recovered hash options faults database blobs).verdicts,
    ∀ y ∈ (recovered hash options faults database blobs).verdicts, x.1.digest = y.1.digest → x.2 = y.2
  secondPass : ((recovered hash options faults database blobs).report options).IsComplete →
    ∀ faults', SameStores (recovered hash options faults database blobs)
      (recoveredTwice hash options database blobs faults faults')

/-! ## The condition -/

/-- An artifact the pass may resolve. -/
def Resolvable (artifact : ReservedArtifact) : Prop :=
  artifact.byteLength ≤ maxRecoveryVerifiedBytes
    ∧ ∃ row ∈ database.artifacts.select .reserved maxRecoveredArtifacts, parseReserved row = some artifact
      ∧ mayStillBeWritten artifact.runId (knownRuns database) options.runId = false

/-- An artifact the pass may decide about. -/
def WithinReach (artifact : ReservedArtifact) : Prop :=
  Resolvable options database artifact
    ∨ (artifact.byteLength ≤ maxRecoveryVerifiedBytes
      ∧ ∃ row ∈ database.artifacts.select .available maxRecoveredArtifacts, parseReserved row = some artifact)

/-- **The condition**: the runs can be read, or nothing of an unended run is in reach; the lengths of the records
agree with the bytes; and the records that share bytes agree with them. -/
structure Recoverable : Prop where
  runs : readRuns database ≠ none ∨
    (∀ artifact row, Resolvable options database artifact →
      database.artifacts.get artifact.artifactId = some row → ¬ Unended options database row)
    ∧ ∀ id row, blobs.get (.temporary id) ≠ none → database.artifacts.get id = some row →
      ¬ Unended options database row
  lengths : ∀ artifact bytes, Resolvable options database artifact →
    blobs.get (.content artifact.digest) = some bytes →
      (Verifies hash bytes artifact.digest artifact.byteLength ↔ hash bytes = artifact.digest)
  shared : ∀ x y bytes, WithinReach options database x → WithinReach options database y →
    x.artifactId ≠ y.artifactId → x.digest = y.digest →
      x.byteLength + y.byteLength ≤ maxRecoveryVerifiedBytes → blobs.get (.content x.digest) = some bytes →
        Verifies hash bytes x.digest x.byteLength ∧ Verifies hash bytes y.digest y.byteLength

variable {hash options database blobs} {α β : Type}

/-! ## What is in reach -/

/-- An artifact in reach is about a row of the table. -/
theorem WithinReach.row {artifact : ReservedArtifact} (h : WithinReach options database artifact) :
    ∃ row, database.artifacts.get artifact.artifactId = some row ∧ row.digest = artifact.digest
      ∧ row.byteLength = artifact.byteLength
      ∧ (row.availability = .available ∨ Resolvable options database artifact ∧ row.availability = .reserved
        ∧ artifact.runId = row.runId.bind identifier?) := by
  have hresolved := h
  rcases h with ⟨hlength, row, hmem, hparsed, hwritten⟩ | ⟨-, row, hmem, hparsed⟩
  · obtain ⟨hget, havailability⟩ := ArtifactTable.mem_of_mem_select hmem
    have hartifact := parseReserved_eq_some hparsed
    refine ⟨row.2, by rw [hartifact]; exact hget, by rw [hartifact], by rw [hartifact],
      .inr ⟨?_, havailability, by rw [hartifact]⟩⟩
    exact ⟨hlength, row, hmem, hparsed, hwritten⟩
  · obtain ⟨hget, havailability⟩ := ArtifactTable.mem_of_mem_select hmem
    have hartifact := parseReserved_eq_some hparsed
    exact ⟨row.2, by rw [hartifact]; exact hget, by rw [hartifact], by rw [hartifact], .inl havailability⟩

theorem mapM_some_of_mem {f : α → Option β} {l : List α} {l' : List β} (h : l.mapM f = some l')
    {a : α} (ha : a ∈ l) : ∃ b ∈ l', f a = some b := by
  induction l generalizing l' with
  | nil => cases ha
  | cons _ l ih =>
    rw [List.mapM_cons] at h
    obtain ⟨b, hb, h⟩ := Option.bind_eq_some_iff.1 h
    obtain ⟨bs, hbs, h⟩ := Option.bind_eq_some_iff.1 h
    cases h
    rcases List.mem_cons.1 ha with rfl | ha
    · exact ⟨b, List.mem_cons_self, hb⟩
    · obtain ⟨b', hb', heq⟩ := ih hbs ha
      exact ⟨b', List.mem_cons_of_mem b hb', heq⟩

theorem mem_of_mapM_some {f : α → Option β} {l : List α} {l' : List β} (h : l.mapM f = some l')
    {b : β} (hb : b ∈ l') : ∃ a ∈ l, f a = some b := by
  induction l generalizing l' with
  | nil =>
    cases h
    cases hb
  | cons c l ih =>
    rw [List.mapM_cons] at h
    obtain ⟨b', hb', h⟩ := Option.bind_eq_some_iff.1 h
    obtain ⟨bs, hbs, h⟩ := Option.bind_eq_some_iff.1 h
    cases h
    rcases List.mem_cons.1 hb with rfl | hb
    · exact ⟨c, List.mem_cons_self, hb'⟩
    · obtain ⟨a, ha, heq⟩ := ih hbs hb
      exact ⟨a, List.mem_cons_of_mem c ha, heq⟩

/-- **Where the runs could be read, an unended run is presumed live.** -/
theorem mayStillBeWritten_of_unended (hruns : readRuns database ≠ none) {row : ArtifactRow}
    (h : Unended options database row) :
    mayStillBeWritten (row.runId.bind identifier?) (knownRuns database) options.runId = true := by
  obtain ⟨owner, run, howner, hother, hrun, hended⟩ := h
  obtain ⟨records, hrecords⟩ := Option.ne_none_iff_exists'.1 hruns
  have hknown : knownRuns database = records := by rw [knownRuns, hrecords, Option.getD_some]
  rw [readRuns] at hrecords
  split_ifs at hrecords
  obtain ⟨record, hmem, hparsed⟩ := mapM_some_of_mem hrecords (OrderedMap.mem_entries.2 hrun)
  obtain ⟨hid, -, hidentifier⟩ := parseRunRecord_eq_some hparsed
  have hfound : (records.find? fun candidate => candidate.runId = owner).isSome :=
    List.find?_isSome.2 ⟨record, hmem, by simpa using hid⟩
  obtain ⟨found, hfound⟩ := Option.isSome_iff_exists.1 hfound
  -- the run is the only one of its name
  obtain ⟨row', hrow', hparsed'⟩ := mem_of_mapM_some hrecords (List.mem_of_find?_eq_some hfound)
  obtain ⟨hid', hopen', -⟩ := parseRunRecord_eq_some hparsed'
  have hname : found.runId = owner := by simpa using List.find?_some hfound
  have hsame : row'.2 = run := by
    have hget := OrderedMap.mem_entries.1 hrow'
    rw [← hid', hname, hrun] at hget
    exact (Option.some.inj hget).symm
  have hlive : isPresumedLive found options.runId = true :=
    decide_eq_true ⟨hopen'.2 (hsame ▸ hended), hname ▸ hother⟩
  rw [howner, Option.bind_some, identifier?, if_pos hidentifier, mayStillBeWritten, hknown, hfound]
  simp [hlive]

/-- **No artifact the pass may resolve is live.** -/
theorem Recoverable.not_unended (h : Recoverable hash options database blobs) {artifact : ReservedArtifact}
    {row : ArtifactRow} (hresolvable : Resolvable options database artifact)
    (hrow : database.artifacts.get artifact.artifactId = some row) : ¬ Unended options database row := by
  rcases h.runs with hruns | ⟨hnothing, -⟩
  · intro hunended
    obtain ⟨-, row', hmem, hparsed, hwritten⟩ := hresolvable
    have hartifact := parseReserved_eq_some hparsed
    have hget := (ArtifactTable.mem_of_mem_select hmem).1
    rw [hartifact, hget] at hrow
    cases hrow
    rw [hartifact] at hwritten
    rw [mayStillBeWritten_of_unended hruns hunended] at hwritten
    cases hwritten
  · exact hnothing artifact row hresolvable hrow

/-! ## The invariant -/

/-- The bytes a verdict accounts for. -/
def accounted (x : ReservedArtifact × Verdict) : ℕ := if x.2 = .missing then 0 else x.1.byteLength

/-- A verdict is what the bytes say that were there when the pass began. -/
def Justified (hash : Bytes → String) (blobs : Blobs) (x : ReservedArtifact × Verdict) : Prop :=
  match x.2 with
  | .missing => blobs.get (.content x.1.digest) = none
  | .available => ∃ bytes, blobs.get (.content x.1.digest) = some bytes
    ∧ Verifies hash bytes x.1.digest x.1.byteLength
  | .quarantined => ∃ bytes, blobs.get (.content x.1.digest) = some bytes
    ∧ ¬ Verifies hash bytes x.1.digest x.1.byteLength

/-- **A pass that decided rightly so far.** -/
structure Faithful (hash : Bytes → String) (options : RecoveryOptions) (database : Database) (blobs : Blobs)
    (s : Recovering) : Prop where
  reach : ∀ x ∈ s.verdicts, WithinReach options database x.1
  nodup : (s.verdicts.map fun x => x.1.artifactId).Nodup
  justified : ∀ x ∈ s.verdicts, Justified hash blobs x
  content : ∀ digest, s.blobs.get (.content digest) = blobs.get (.content digest)
    ∨ s.blobs.get (.content digest) = none ∧ ∃ x ∈ s.verdicts, x.2 = .quarantined ∧ x.1.digest = digest
  aside : ∀ x ∈ s.verdicts, x.2 = .quarantined →
    s.blobs.get (.quarantine x.1.digest) = blobs.get (.content x.1.digest)
  moved : ∀ x ∈ s.verdicts, ∃ row finalizedAt, database.artifacts.get x.1.artifactId = some row
    ∧ s.artifacts.get x.1.artifactId
      = some { row with availability := x.2.availability, finalizedAt := finalizedAt }
  kept : ∀ id, id ∉ s.verdicts.map (fun x => x.1.artifactId) → s.artifacts.get id = database.artifacts.get id
  live : ∀ id row, database.artifacts.get id = some row → Unended options database row →
    s.blobs.get (.temporary id) = blobs.get (.temporary id)
  accounts : (s.verdicts.map accounted).sum ≤ s.tally.verifiedBytes
  room : s.tally.verifiedBytes ≤ maxRecoveryVerifiedBytes

variable {x : ReservedArtifact × Verdict} {l : List (ReservedArtifact × Verdict)}
  {y : ReservedArtifact × Verdict}

theorem le_accounts (hx : x ∈ l) : accounted x ≤ (l.map accounted).sum :=
  List.le_sum_of_mem (List.mem_map_of_mem hx)

/-- Two verdicts are accounted for together. -/
theorem add_le_accounts (hx : x ∈ l)
    (hy : y ∈ l) (hne : x ≠ y) : accounted x + accounted y ≤ (l.map accounted).sum := by
  rcases Scan.exists_cut hx hy hne with ⟨l, m, rfl, hxl, hym⟩ | ⟨l, m, rfl, hyl, hxm⟩
  · rw [List.map_append, List.sum_append]
    exact Nat.add_le_add (le_accounts hxl) (le_accounts hym)
  · rw [List.map_append, List.sum_append, Nat.add_comm]
    exact Nat.add_le_add (le_accounts hyl) (le_accounts hxm)

/-- Where a verdict other than a missing one fell, the bytes were there. -/
theorem Justified.bytes (h : Justified hash blobs x) (hne : x.2 ≠ .missing) :
    ∃ bytes, blobs.get (.content x.1.digest) = some bytes
      ∧ (x.2 = .available ↔ Verifies hash bytes x.1.digest x.1.byteLength) := by
  obtain ⟨artifact, verdict⟩ := x
  cases verdict with
  | missing => exact absurd rfl hne
  | available =>
    obtain ⟨bytes, hsome, hverifies⟩ := h
    exact ⟨bytes, hsome, fun _ => hverifies, fun _ => rfl⟩
  | quarantined =>
    obtain ⟨bytes, hsome, hverifies⟩ := h
    exact ⟨bytes, hsome, nofun, fun hyes => absurd hyes hverifies⟩

/-- **Two records that share bytes and fit the budget agree with them.** -/
theorem Recoverable.available_of_shared (h : Recoverable hash options database blobs) {y : ReservedArtifact} (hx : WithinReach options database x.1)
    (hy : WithinReach options database y) (hne : x.1.artifactId ≠ y.artifactId) (hdigest : x.1.digest = y.digest)
    (hjustified : Justified hash blobs x) (hverdict : x.2 ≠ .missing)
    (hfit : x.1.byteLength + y.byteLength ≤ maxRecoveryVerifiedBytes) :
    x.2 = .available ∧ ∃ bytes, blobs.get (.content y.digest) = some bytes
      ∧ Verifies hash bytes y.digest y.byteLength := by
  obtain ⟨bytes, hsome, hiff⟩ := hjustified.bytes hverdict
  obtain ⟨hxbytes, hybytes⟩ := h.shared x.1 y bytes hx hy hne hdigest hfit hsome
  exact ⟨hiff.2 hxbytes, bytes, hdigest ▸ hsome, hybytes⟩

variable {s : Recovering} {s' : Recovering}

/-- **Records that share one digest get one verdict.** -/
theorem Faithful.sameVerdict (h : Recoverable hash options database blobs)
    (hs : Faithful hash options database blobs s) (hx : x ∈ s.verdicts)
    (hy : y ∈ s.verdicts) (hdigest : x.1.digest = y.1.digest) : x.2 = y.2 := by
  by_cases hsame : x = y
  · rw [hsame]
  have hid : x.1.artifactId ≠ y.1.artifactId := fun hid =>
    hsame (List.inj_on_of_nodup_map hs.nodup hx hy hid)
  by_cases hxmissing : x.2 = .missing
  · by_cases hymissing : y.2 = .missing
    · rw [hxmissing, hymissing]
    · obtain ⟨bytes, hsome, -⟩ := (hs.justified y hy).bytes hymissing
      have hnone : blobs.get (.content x.1.digest) = none := by
        have hjustified := hs.justified x hx
        rw [Justified, hxmissing] at hjustified
        exact hjustified
      rw [hdigest, hsome] at hnone
      cases hnone
  · by_cases hymissing : y.2 = .missing
    · obtain ⟨bytes, hsome, -⟩ := (hs.justified x hx).bytes hxmissing
      have hnone : blobs.get (.content y.1.digest) = none := by
        have hjustified := hs.justified y hy
        rw [Justified, hymissing] at hjustified
        exact hjustified
      rw [← hdigest, hsome] at hnone
      cases hnone
    · have hfit : x.1.byteLength + y.1.byteLength ≤ maxRecoveryVerifiedBytes := by
        have hboth := add_le_accounts hx hy hsame
        rw [accounted, accounted, if_neg hxmissing, if_neg hymissing] at hboth
        exact hboth.trans (hs.accounts.trans hs.room)
      have hxavailable := (h.available_of_shared (hs.reach x hx) (hs.reach y hy) hid hdigest
        (hs.justified x hx) hxmissing hfit).1
      have hyavailable := (h.available_of_shared (hs.reach y hy) (hs.reach x hx) hid.symm hdigest.symm
        (hs.justified y hy) hymissing (by omega)).1
      rw [hxavailable, hyavailable]

/-- An idle step keeps the invariant. -/
theorem Faithful.untouched (hs : Faithful hash options database blobs s)
    (h : Untouched s s') (hle : s.tally.verifiedBytes ≤ s'.tally.verifiedBytes)
    (hroom : s'.tally.verifiedBytes ≤ maxRecoveryVerifiedBytes) :
    Faithful hash options database blobs s' where
  reach := by rw [h.verdicts]; exact hs.reach
  nodup := by rw [h.verdicts]; exact hs.nodup
  justified := by rw [h.verdicts]; exact hs.justified
  content := by rw [h.verdicts, h.blobs]; exact hs.content
  aside := by rw [h.verdicts, h.blobs]; exact hs.aside
  moved := by rw [h.verdicts, h.artifacts]; exact hs.moved
  kept := by rw [h.verdicts, h.artifacts]; exact hs.kept
  live := by rw [h.blobs]; exact hs.live
  accounts := by rw [h.verdicts]; exact hs.accounts.trans hle
  room := hroom

section Decided

variable {s s' : Recovering} {artifact : ReservedArtifact} {verdict : Verdict}

/-- Where the bytes of a digest are gone from their place, no other record of it fits the budget. -/
theorem Faithful.not_quarantined (h : Recoverable hash options database blobs)
    (hs : Faithful hash options database blobs s) (hreach : WithinReach options database artifact)
    (hfresh : artifact.artifactId ∉ s.verdicts.map fun x => x.1.artifactId)
    (hroom : s.tally.verifiedBytes + artifact.byteLength ≤ maxRecoveryVerifiedBytes) (hx : x ∈ s.verdicts) (hdigest : x.1.digest = artifact.digest) :
    x.2 ≠ .quarantined := by
  intro hquarantined
  have hverdict : x.2 ≠ .missing := by rw [hquarantined]; decide
  have hne : x.1.artifactId ≠ artifact.artifactId := fun hid => hfresh (hid ▸ List.mem_map_of_mem hx)
  have hfit : x.1.byteLength + artifact.byteLength ≤ maxRecoveryVerifiedBytes := by
    have hone := (le_accounts hx).trans hs.accounts
    rw [accounted, if_neg hverdict] at hone
    omega
  have havailable := (h.available_of_shared (hs.reach x hx) hreach hne hdigest (hs.justified x hx) hverdict
    hfit).1
  rw [hquarantined] at havailable
  cases havailable

/-- The bytes a step finds are those the pass began with. -/
theorem Faithful.content_eq (h : Recoverable hash options database blobs)
    (hs : Faithful hash options database blobs s) (hreach : WithinReach options database artifact)
    (hfresh : artifact.artifactId ∉ s.verdicts.map fun x => x.1.artifactId)
    (hroom : s.tally.verifiedBytes + artifact.byteLength ≤ maxRecoveryVerifiedBytes) :
    s.blobs.get (.content artifact.digest) = blobs.get (.content artifact.digest) := by
  rcases hs.content artifact.digest with heq | ⟨-, x, hx, hquarantined, hdigest⟩
  · exact heq
  · exact absurd hquarantined (hs.not_quarantined h hreach hfresh hroom hx hdigest)

theorem Rests.justified (hrests : Rests hash artifact s s' verdict)
    (hcontent : s.blobs.get (.content artifact.digest) = blobs.get (.content artifact.digest)) :
    Justified hash blobs (artifact, verdict) := by
  cases hrests with
  | missing hnone => exact hcontent.symm.trans hnone
  | available hsome hverifies | quarantined hsome hverifies =>
    exact ⟨_, hcontent.symm.trans hsome, hverifies⟩

/-- A verdict concerns the bytes of its own digest. -/
theorem Rests.blobs_eq (hrests : Rests hash artifact s s' verdict) (location : BlobLocation)
    (htemporary : location ≠ .temporary artifact.artifactId)
    (hplaces : verdict = .quarantined →
      location ≠ .content artifact.digest ∧ location ≠ .quarantine artifact.digest) :
    s'.blobs.get location = s.blobs.get location := by
  cases hrests with
  | missing _ hblobs => exact hblobs location htemporary
  | available _ _ hblobs => rw [hblobs]
  | quarantined _ _ hblobs =>
    obtain ⟨hcontent, hquarantine⟩ := hplaces rfl
    rw [hblobs, Blobs.get_finalize hcontent hquarantine]

/-- Bytes that are set aside are kept in quarantine, and gone from their place. -/
theorem Rests.aside (hrests : Rests hash artifact s s' .quarantined) :
    s'.blobs.get (.content artifact.digest) = none
      ∧ s'.blobs.get (.quarantine artifact.digest) = s.blobs.get (.content artifact.digest) := by
  cases hrests with
  | quarantined hsome _ hblobs =>
    rw [hblobs, Blobs.finalize, hsome]
    exact ⟨by rw [OrderedMap.get_set_ne _ _ (by simp), OrderedMap.get_delete_self],
      OrderedMap.get_set_self _ _ _⟩

theorem Rests.accounts (hrests : Rests hash artifact s s' verdict) :
    s'.tally.verifiedBytes = s.tally.verifiedBytes + accounted (artifact, verdict) := by
  cases hrests with
  | missing _ _ hbytes | available _ _ _ hbytes | quarantined _ _ _ hbytes => exact hbytes

theorem accounted_le (x : ReservedArtifact × Verdict) : accounted x ≤ x.1.byteLength := by
  rw [accounted]
  split_ifs
  · exact Nat.zero_le _
  · exact le_rfl

end Decided

/-- **What the examination of a row keeps.** -/
theorem Faithful.rowStep (h : Recoverable hash options database blobs)
    (hs : Faithful hash options database blobs s) {isWritten : ReservedArtifact → Bool}
    {row : String × ArtifactRow} (hrow : database.artifacts.get row.1 = some row.2)
    (hfresh : row.1 ∉ s.verdicts.map fun x => x.1.artifactId)
    (hreach : ∀ artifact, parseReserved row = some artifact → isWritten artifact = false →
      artifact.byteLength ≤ maxRecoveryVerifiedBytes → WithinReach options database artifact)
    (hresolvable : row.2.availability = .reserved → ∀ artifact, parseReserved row = some artifact →
      isWritten artifact = false → artifact.byteLength ≤ maxRecoveryVerifiedBytes →
        Resolvable options database artifact)
    (hstep : RowStep hash isWritten row s s') : Faithful hash options database blobs s' := by
  cases hstep with
  | idle huntouched hbytes => exact hs.untouched huntouched hbytes.1 (hbytes.2 hs.room)
  | @decided artifact verdict hparsed hwritten hroom hmoved hothers hrests hrecords hverdicts htemporary =>
    have hartifact := parseReserved_eq_some hparsed
    have hid : artifact.artifactId = row.1 := by rw [hartifact]
    have hlength : artifact.byteLength ≤ maxRecoveryVerifiedBytes := by omega
    have hwithin := hreach artifact hparsed hwritten hlength
    rw [← hid] at hfresh
    have hcontent := hs.content_eq h hwithin hfresh hroom
    constructor
    · rw [hverdicts]
      exact List.forall_mem_append.2 ⟨hs.reach, List.forall_mem_singleton.2 hwithin⟩
    · rw [hverdicts, List.map_append, List.map_singleton]
      exact hs.nodup.append (List.nodup_singleton _) (List.disjoint_singleton.2 hfresh)
    · rw [hverdicts]
      exact List.forall_mem_append.2 ⟨hs.justified, List.forall_mem_singleton.2 (hrests.justified hcontent)⟩
    · intro digest
      by_cases haside : verdict = .quarantined ∧ artifact.digest = digest
      · obtain ⟨rfl, rfl⟩ := haside
        exact .inr ⟨hrests.aside.1, (artifact, .quarantined), by simp [hverdicts], rfl, rfl⟩
      · have hsame := hrests.blobs_eq (.content digest) (by simp) fun hquarantined =>
          ⟨fun heq => haside ⟨hquarantined, (BlobLocation.content.inj heq).symm⟩, by simp⟩
        rw [hsame, hverdicts]
        rcases hs.content digest with heq | ⟨hnone, x, hx, hfacts⟩
        · exact .inl heq
        · exact .inr ⟨hnone, x, List.mem_append_left _ hx, hfacts⟩
    · rw [hverdicts]
      refine List.forall_mem_append.2 ⟨fun x hx hquarantined => ?_,
        List.forall_mem_singleton.2 fun hquarantined => ?_⟩
      · have hother : x.1.digest ≠ artifact.digest := fun hdigest =>
          hs.not_quarantined h hwithin hfresh hroom hx hdigest hquarantined
        rw [← hs.aside x hx hquarantined]
        exact hrests.blobs_eq _ (by simp) fun _ => ⟨by simp, fun heq => hother (BlobLocation.quarantine.inj heq)⟩
      · cases hquarantined
        exact hrests.aside.2.trans hcontent
    · rw [hverdicts]
      refine List.forall_mem_append.2 ⟨fun x hx => ?_, List.forall_mem_singleton.2 ?_⟩
      · have hne : x.1.artifactId ≠ row.1 := fun heq =>
          hfresh (hid.symm ▸ heq ▸ List.mem_map_of_mem hx)
        rw [hothers _ hne]
        exact hs.moved x hx
      · obtain ⟨finalizedAt, hset⟩ := hmoved
        exact ⟨row.2, finalizedAt, hid ▸ hrow, hid ▸ hset⟩
    · intro id hout
      rw [hverdicts, List.map_append, List.mem_append, not_or] at hout
      have hne : id ≠ row.1 := fun heq => hout.2 (by rw [heq, ← hid]; exact List.mem_singleton.2 rfl)
      rw [hothers id hne, hs.kept id hout.1]
    · intro id row' hget hunended
      rcases htemporary id with hsame | ⟨rfl, hreserved⟩
      · rw [hsame, hs.live id row' hget hunended]
      · have hresolve := hresolvable hreserved artifact hparsed hwritten hlength
        exact absurd hunended (h.not_unended hresolve (hid.symm ▸ hget))
    · rw [hverdicts, List.map_append, List.sum_append, hrests.accounts, List.map_singleton, List.sum_singleton]
      exact Nat.add_le_add_right hs.accounts _
    · rw [hrests.accounts]
      exact (Nat.add_le_add_left (accounted_le _) _).trans hroom

end Falryn.Recovery
