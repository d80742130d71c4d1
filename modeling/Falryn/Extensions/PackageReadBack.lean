import Falryn.Extensions.PackageFields

/-!
# Reading an archive back

The records of an archive that was written from entries, read one after the other: what names an entry
is pending when its own record is reached, and the entry is then the file or directory that was packed
(`readRecords_archive`).
-/

namespace Falryn.Extensions

variable {tables : UnicodeTables}

/-! ## Paths -/

theorem dropDotSlashes_replicate (dots : ℕ) (path : CodeUnits) :
    dropDotSlashes ((List.replicate dots [0x2e, 0x2f]).flatten ++ path) = dropDotSlashes path := by
  induction dots with
  | zero => rfl
  | succ dots ih =>
    rw [List.replicate_succ, List.flatten_cons, List.append_assoc]
    exact ih

variable {path : CodeUnits}

theorem dropDotSlashes_portable (h : Portable tables path) : dropDotSlashes path = path := by
  unfold dropDotSlashes
  split
  · rename_i rest
    exact absurd rfl (Portable.slash [0x2e] rest h).2.2
  · rfl

theorem rdropWhile_slashes (before : CodeUnits) (slashes : ℕ) (h : Portable tables path) :
    (before ++ path ++ List.replicate slashes 0x2f).rdropWhile (· = 0x2f) = before ++ path := by
  have hlast : ∀ hne : before ++ path ≠ [], ¬ decide ((before ++ path).getLast hne = 0x2f) = true := by
    intro hne heq
    rw [List.getLast_append_of_right_ne_nil _ _ h.ne_nil, decide_eq_true_eq] at heq
    have hsplit : path = path.dropLast ++ 0x2f :: [] := by
      rw [← heq, List.dropLast_concat_getLast]
    rw [hsplit] at h
    exact (h.slash _ _).2.1 rfl
  rw [List.rdropWhile, List.reverse_append, List.reverse_replicate,
    List.dropWhile_append_of_pos fun _ hu => by rw [List.eq_of_mem_replicate hu]; decide]
  exact List.rdropWhile_eq_self_iff.2 hlast

/-- **The path of a spelled name.** -/
theorem entryPath_spelled {raw : CodeUnits} {directory : Bool} {dots slashes : ℕ}
    (hraw : raw = (List.replicate dots [0x2e, 0x2f]).flatten ++ path ++ List.replicate slashes 0x2f)
    (hfile : directory = false → slashes = 0) (h : Portable tables path)
    (hshort : utf8Length path ≤ PackageArchiveLimits.pathBytes)
    (hshallow : (path.splitOn 0x2f).length ≤ PackageArchiveLimits.depth) :
    entryPath tables raw directory = some (some path) := by
  have hpath : dropDotSlashes (if directory then raw.rdropWhile (· = 0x2f) else raw) = path := by
    cases directory with
    | true =>
      rw [if_pos rfl, hraw, rdropWhile_slashes _ _ h, dropDotSlashes_replicate, dropDotSlashes_portable h]
    | false =>
      rw [if_neg (by decide), hraw, hfile rfl, List.replicate_zero, List.append_nil,
        dropDotSlashes_replicate, dropDotSlashes_portable h]
  have hdot : ¬ (path = [0x2e] ∨ path = []) := by
    rintro (hdot | hnil)
    · have hparts := h.parts
      rw [hdot] at hparts
      exact absurd hparts (by decide +kernel)
    · exact h.ne_nil hnil
  have hhead : path.head? ≠ some 0x2f := by
    intro hhead
    obtain ⟨rest, hpath⟩ := List.head?_eq_some_iff.1 hhead
    rw [hpath] at h
    exact (Portable.slash [] rest h).1 rfl
  have hzero : (0x0 : UInt16) ∉ path := by
    have hforbidden := ((portable_iff h.not_mem_backslash).1 h).2.2.2.2.1
    rw [List.any_eq_false] at hforbidden
    exact fun hmem => hforbidden _ hmem (by decide)
  have hbad : ¬ (path.head? = some 0x2f ∨ 0x5c ∈ path ∨ 0x0 ∈ path
      ∨ PackageArchiveLimits.pathBytes < utf8Length path
      ∨ PackageArchiveLimits.depth < (path.splitOn 0x2f).length) := by
    rintro (hbad | hbad | hbad | hbad | hbad)
    · exact hhead hbad
    · exact h.not_mem_backslash hbad
    · exact hzero hbad
    · omega
    · omega
  rw [entryPath]
  simp only [hpath]
  rw [if_neg hdot, if_neg hbad, h, Option.map_some, if_pos rfl]

/-! ## One record -/

section Record

theorem TarRecord.take_bytes (record : TarRecord) (more : Bytes) :
    (record.bytes ++ more).take blockBytes = record.header := by
  rw [TarRecord.bytes, List.append_assoc, List.append_assoc, List.take_left' record.header_length]

theorem TarRecord.drop_bytes (record : TarRecord) (more : Bytes) :
    (record.bytes ++ more).drop blockBytes = record.data ++ (record.padding ++ more) := by
  rw [TarRecord.bytes, List.append_assoc, List.append_assoc, List.drop_left' record.header_length]

theorem TarRecord.paddedSize (record : TarRecord) :
    paddedSize record.data.length = record.data.length + record.padding.length := by
  have hwhole := record.whole
  have hlt := record.padding_lt
  rw [Extensions.paddedSize]
  simp only [blockBytes] at *
  omega

theorem TarRecord.drop_record (record : TarRecord) (more : Bytes) :
    (record.bytes ++ more).drop (blockBytes + Extensions.paddedSize record.data.length) = more := by
  have hlength : record.bytes.length = blockBytes + Extensions.paddedSize record.data.length := by
    rw [TarRecord.bytes, List.length_append, List.length_append, record.header_length, record.paddedSize]
    omega
  exact List.drop_left' hlength

/-- A header is not the block that ends an archive. -/
theorem TarRecord.header_ne_zero (record : TarRecord) : record.header.all (· = 0) = false := by
  have hmem : (0x75 : UInt8) ∈ record.header := by
    have hmagic : (0x75 : UInt8) ∈ (record.header.drop 257).take 5 := by
      rw [record.magic]
      decide +kernel
    exact List.mem_of_mem_drop (List.mem_of_mem_take hmagic)
  rw [List.all_eq_false]
  exact ⟨_, hmem, by decide⟩

theorem TarRecord.recordSize (record : TarRecord) (more : Bytes) :
    recordSize (record.bytes ++ more) = some record.data.length := by
  have hmagic : utf8 "ustar" = [0x75, 0x73, 0x74, 0x61, 0x72] := by decide +kernel
  have hchecksum : checksumValid record.header = true := by
    rw [checksumValid, octal_of_spells record.checksum]
    exact beq_self_eq_true _
  have hok : ¬ ((record.header.drop 257).take 5 ≠ [0x75, 0x73, 0x74, 0x61, 0x72]
      ∨ ¬ checksumValid record.header = true) := by
    rw [record.magic, hmagic, hchecksum]
    decide
  have hlength : ¬ (record.bytes ++ more).length < blockBytes + record.data.length := by
    rw [TarRecord.bytes]
    simp only [List.length_append, record.header_length]
    omega
  rw [Extensions.recordSize]
  simp only [record.take_bytes]
  rw [if_neg hok, octal_of_spells record.size]
  exact if_neg hlength

/-- **One record at the start of an archive** is read on its own, and the rest after it. -/
theorem readRecords_bytes (left : ℕ) (record : TarRecord) (more : Bytes) (w : Walk) :
    readRecords tables (left + 1) (record.bytes ++ more) w
      = (readRecord tables w record.header record.data).bind (readRecords tables left more) := by
  have hlength : ¬ (record.bytes ++ more).length < blockBytes := by
    rw [TarRecord.bytes]
    simp only [List.length_append, record.header_length]
    omega
  have hdata : ((record.bytes ++ more).drop blockBytes).take record.data.length = record.data := by
    rw [record.drop_bytes, List.take_left]
  rw [readRecords, if_neg hlength, record.take_bytes, record.header_ne_zero, if_neg (by decide),
    record.recordSize]
  simp only [hdata, record.drop_record]
  rfl

end Record

/-! ## Names -/

variable {w : Walk} {naming : Naming}

/-- **What names an entry is there when its record is reached.** -/
theorem readRecords_naming (tables : UnicodeTables) {header : Bytes} (hstands : naming.Stands header)
    (hplain : naming.Plain) (left : ℕ) (more : Bytes) (hw : w.pendingPath = none) :
    ∃ pending, readRecords tables (left + naming.records.length) (naming.records.flatMap TarRecord.bytes ++ more) w
        = readRecords tables left more { w with pendingPath := pending }
      ∧ pending.or (headerPath header) = some (utf16 naming.raw) := by
  cases naming with
  | whole name =>
    obtain ⟨hne, hname, hdirectory⟩ := hstands
    refine ⟨none, by rw [← hw]; rfl, ?_⟩
    have hnone : decodePath [] = none := rfl
    have hword : ¬ (some (utf16 name) = some malformed ∨ (none : Option CodeUnits) = some malformed) := by
      rintro (h | h)
      · exact malformed_ne hplain.2 (Option.some.inj h)
      · cases h
    rw [Option.none_or, headerPath, field_of_holds hname, field_of_holds hdirectory,
      decodePath_utf8 hne hplain, hnone]
    exact if_neg hword
  | split directory name =>
    obtain ⟨hdirne, hne, hname, hdirectory⟩ := hstands
    refine ⟨none, by rw [← hw]; rfl, ?_⟩
    have hword : ¬ (some (utf16 name) = some malformed ∨ some (utf16 directory) = some malformed) := by
      rintro (h | h)
      · exact malformed_ne hplain.2.2 (Option.some.inj h)
      · exact malformed_ne hplain.1.2 (Option.some.inj h)
    have hraw : utf16 (Naming.split directory name).raw = utf16 directory ++ 0x2f :: utf16 name := by
      have hslash : utf16 "/" = [0x2f] := by decide
      rw [Naming.raw, utf16_append, utf16_append, hslash, List.append_assoc, List.singleton_append]
    rw [Option.none_or, headerPath, field_of_holds hname, field_of_holds hdirectory,
      decodePath_utf8 hne hplain.2, decodePath_utf8 hdirne hplain.1, hraw]
    exact if_neg hword
  | longName record name =>
    obtain ⟨hne, htype, hdata⟩ := hstands
    obtain ⟨hle, hname⟩ := hplain
    refine ⟨some (utf16 name), ?_, Option.some_or⟩
    have hnamed : decodePath (field record.data 0 record.data.length) = some (utf16 name) := by
      rw [field_whole hdata, decodePath_utf8 hne hname]
    have hword : ¬ (some (utf16 name) = some malformed) :=
      fun h => malformed_ne hname.2 (Option.some.inj h)
    have hread : readRecord tables w record.header record.data
        = .ok { w with pendingPath := some (utf16 name) } := by
      rw [readRecord]
      simp only [htype, hnamed, or_true, if_true, if_neg (not_lt.2 hle), if_neg hword]
    show readRecords tables (left + 1) ([record].flatMap TarRecord.bytes ++ more) w = _
    rw [List.flatMap_singleton, readRecords_bytes, hread]
    rfl
  | pax record _ path =>
    obtain ⟨htype, hkey, hafter, hdata⟩ := hstands
    obtain ⟨hle, hne, hascii⟩ := hplain
    refine ⟨some (utf16 path.value), ?_, Option.some_or⟩
    have hnamed : paxPath record.data = some (utf16 path.value) := by
      rw [hdata] at hle ⊢
      exact paxPath_paxText hle hkey hafter hascii
    have hword : ¬ (some (utf16 path.value) = some malformed) :=
      fun h => malformed_ne hne (Option.some.inj h)
    have hread : readRecord tables w record.header record.data
        = .ok { w with pendingPath := some (utf16 path.value) } := by
      rw [readRecord]
      simp only [htype, hnamed, true_or, if_true, if_neg (not_lt.2 hle),
        if_neg (show ¬ (0x78 : UInt8) = 0x4c by decide), if_neg hword]
    show readRecords tables (left + 1) ([record].flatMap TarRecord.bytes ++ more) w = _
    rw [List.flatMap_singleton, readRecords_bytes, hread]
    rfl

theorem Naming.raw_ne_malformed (hplain : naming.Plain) : utf16 naming.raw ≠ malformed := by
  cases naming with
  | whole name => exact malformed_ne hplain.2
  | split directory name =>
    intro heq
    have hmem : (0x2f : UInt16) ∈ utf16 (directory ++ "/" ++ name) := by
      rw [utf16_append, utf16_append]
      exact List.mem_append_left _ (List.mem_append_right _ (by decide))
    rw [show utf16 (directory ++ "/" ++ name) = malformed from heq] at hmem
    exact absurd hmem (by decide +kernel)
  | longName record name => exact malformed_ne hplain.2.2
  | pax record => exact malformed_ne hplain.2.1

/-! ## Entries -/

/-- The walk after an entry. -/
def Walk.add (w : Walk) (entry : ArchiveEntry) : Walk :=
  if entry.directory then { w with directories := w.directories ++ [entry.path] }
  else { w with files := w.files ++ [entry.file] }

theorem Walk.add_pendingPath (w : Walk) (entry : ArchiveEntry) :
    (w.add entry).pendingPath = w.pendingPath := by
  rw [Walk.add]
  split_ifs <;> rfl

/-- What an entry needs to be read as what it is. -/
structure Readable (tables : UnicodeTables) (entry : ArchiveEntry) : Prop where
  portable : Portable tables entry.path
  short : utf8Length entry.path ≤ PackageArchiveLimits.pathBytes
  shallow : (entry.path.splitOn 0x2f).length ≤ PackageArchiveLimits.depth
  word : entry.path ≠ invalid
  plain : entry.naming.Plain

/-- **An entry's own record**, its name being there. -/
theorem readRecord_entry {entry : ArchiveEntry} (h : Readable tables entry)
    (hname : w.pendingPath.or (headerPath entry.record.header) = some (utf16 entry.naming.raw))
    (hroom : entry.directory = false → w.files.length < PackageArchiveLimits.files) :
    readRecord tables w entry.record.header entry.record.data
      = .ok { w.add entry with pendingPath := none } := by
  obtain ⟨dots, slashes, hraw, hfile⟩ := entry.spelled
  have hpath := entryPath_spelled hraw hfile h.portable h.short h.shallow
  have hread : readEntry tables w entry.directory (utf16 entry.naming.raw) entry.record.data
      = .ok { w.add entry with pendingPath := none } := by
    rw [readEntry, if_neg (Naming.raw_ne_malformed h.plain), hpath]
    dsimp only
    rw [if_neg h.word, Walk.add]
    cases hdirectory : entry.directory with
    | true => rfl
    | false =>
      rw [if_neg (by decide), if_neg (not_le.2 (hroom hdirectory))]
      rfl
  have htyped := entry.typed
  cases hdirectory : entry.directory with
  | true =>
    rw [hdirectory, if_pos rfl] at htyped
    rw [hdirectory] at hread
    rw [readRecord]
    simp only [htyped, hname]
    exact hread
  | false =>
    rw [hdirectory, if_neg (by decide)] at htyped
    rw [hdirectory] at hread
    rw [readRecord]
    rcases htyped with htyped | htyped <;>
    · simp only [htyped, hname]
      exact hread

/-- The walk over entries. -/
def Walk.addAll (w : Walk) (entries : List ArchiveEntry) : Walk := entries.foldl Walk.add w

theorem archiveRecords_cons (entry : ArchiveEntry) (entries : List ArchiveEntry) :
    archiveRecords (entry :: entries)
      = entry.naming.records ++ entry.record :: archiveRecords entries := by
  rw [archiveRecords, List.flatMap_cons, ArchiveEntry.records, List.append_assoc, List.singleton_append]
  rfl

/-- **The records of entries are read as the entries**, whatever comes after them. -/
theorem readRecords_archive {entries : List ArchiveEntry} (h : ∀ entry ∈ entries, Readable tables entry)
    (left : ℕ) (more : Bytes) (hw : w.pendingPath = none)
    (hroom : w.files.length + (fileEntries entries).length ≤ PackageArchiveLimits.files) :
    readRecords tables (left + (archiveRecords entries).length)
        ((archiveRecords entries).flatMap TarRecord.bytes ++ more) w
      = readRecords tables left more (w.addAll entries) := by
  induction entries generalizing w with
  | nil => rfl
  | cons entry entries ih =>
    have hentry := h entry List.mem_cons_self
    have hcount : left + (archiveRecords (entry :: entries)).length
        = (left + (archiveRecords entries).length + 1) + entry.naming.records.length := by
      rw [archiveRecords_cons, List.length_append, List.length_cons]
      omega
    have hbytes : (archiveRecords (entry :: entries)).flatMap TarRecord.bytes ++ more
        = entry.naming.records.flatMap TarRecord.bytes
          ++ (entry.record.bytes ++ ((archiveRecords entries).flatMap TarRecord.bytes ++ more)) := by
      rw [archiveRecords_cons, List.flatMap_append, List.flatMap_cons, List.append_assoc, List.append_assoc]
    obtain ⟨pending, hnaming, hname⟩ := readRecords_naming tables entry.stands hentry.plain
      (left + (archiveRecords entries).length + 1)
      (entry.record.bytes ++ ((archiveRecords entries).flatMap TarRecord.bytes ++ more)) hw
    have hfits : entry.directory = false →
        ({ w with pendingPath := pending } : Walk).files.length < PackageArchiveLimits.files := by
      intro hdirectory
      rw [fileEntries, List.filter_cons_of_pos (by rw [hdirectory]; rfl), List.length_cons] at hroom
      show w.files.length < PackageArchiveLimits.files
      omega
    have hadd : ({ ({ w with pendingPath := pending } : Walk).add entry with pendingPath := none } : Walk)
        = w.add entry := by
      rw [Walk.add, Walk.add]
      split_ifs <;> rw [← hw]
    have hnext : (w.add entry).files.length + (fileEntries entries).length ≤ PackageArchiveLimits.files := by
      rw [fileEntries] at hroom ⊢
      rw [Walk.add]
      cases hdirectory : entry.directory with
      | true =>
        rw [List.filter_cons_of_neg (by rw [hdirectory]; decide)] at hroom
        exact hroom
      | false =>
        rw [List.filter_cons_of_pos (by rw [hdirectory]; rfl), List.length_cons] at hroom
        rw [if_neg (by decide)]
        show (w.files ++ [entry.file]).length + _ ≤ _
        rw [List.length_append, List.length_singleton]
        omega
    rw [hcount, hbytes, hnaming, readRecords_bytes, readRecord_entry hentry hname hfits, hadd]
    exact ih (fun later hlater => h later (List.mem_cons_of_mem _ hlater))
      ((w.add_pendingPath entry).trans hw) hnext

/-- The block of zeros ends the records. -/
theorem readRecords_end (left : ℕ) (rest : Bytes) (w : Walk) :
    readRecords tables left (List.replicate blockBytes 0 ++ rest) w = .ok (w, true) := by
  have hlength : ¬ (List.replicate blockBytes (0 : UInt8) ++ rest).length < blockBytes := by
    rw [List.length_append, List.length_replicate]
    omega
  have hzero : ((List.replicate blockBytes (0 : UInt8) ++ rest).take blockBytes).all (· = 0) = true := by
    rw [List.take_left' List.length_replicate, List.all_eq_true]
    exact fun _ hb => decide_eq_true (List.eq_of_mem_replicate hb)
  cases left with
  | zero | succ left => rw [readRecords, if_neg hlength, if_pos hzero]

end Falryn.Extensions
