import Falryn.Extensions.PackageReadBack
import Falryn.Extensions.PackageSoundness
import Falryn.Foundation.Result

/-!
# Package archives decode to what was packed

Where they do: every archive that is written from safe paths and whose names are read as they are
written is read back (`readPackageArchive_archive`); and whatever is read is sound just when no file is
called like a directory in other letters (`readPackageArchive_sound_iff`).  An archive with a prefix field
that holds the word `malformed` is one that is not (`not_decodesWhatWasPacked`).
-/

namespace Falryn.Extensions

variable {z : Gzip} {tables : UnicodeTables}

/-! ## What was packed is read back -/

theorem Walk.addAll_eq (entries : List ArchiveEntry) (w : Walk) :
    w.addAll entries = ⟨w.files ++ packedFiles entries, w.directories ++ packedDirectories entries, w.pendingPath⟩ := by
  induction entries generalizing w with
  | nil =>
    simp only [Walk.addAll, List.foldl_nil, packedFiles, fileEntries, packedDirectories, List.filter_nil,
      List.map_nil, List.append_nil]
  | cons entry entries ih =>
    have hstep : w.addAll (entry :: entries) = (w.add entry).addAll entries := rfl
    rw [hstep, ih, Walk.add]
    cases hdirectory : entry.directory with
    | true =>
      simp only [packedFiles, fileEntries, packedDirectories, hdirectory, if_true, Bool.not_true,
        List.filter_cons_of_neg, Bool.false_eq_true, not_false_eq_true, List.filter_cons_of_pos,
        List.map_cons, List.append_assoc, List.singleton_append]
    | false =>
      simp only [packedFiles, fileEntries, packedDirectories, hdirectory, if_false, Bool.not_false,
        List.filter_cons_of_neg, Bool.false_eq_true, not_false_eq_true, List.filter_cons_of_pos,
        List.map_cons, List.append_assoc, List.singleton_append]

variable {entries : List ArchiveEntry} {rest compressed : Bytes} {files : List PackageFile}
  {root : CodeUnits}

theorem mem_fileEntries {entry : ArchiveEntry} :
    entry ∈ fileEntries entries ↔ entry ∈ entries ∧ entry.directory = false := by
  rw [fileEntries, List.mem_filter, Bool.not_eq_true']

/-- The paths of what may be packed do not meet. -/
theorem Packable.apart_walk (h : Packable tables entries) (hplain : Plain tables entries rest) :
    Apart tables ⟨packedFiles entries, packedDirectories entries, none⟩ := by
  have hdistinct : ∀ a ∈ entries, ∀ b ∈ entries, a ≠ b → tables.toLowerCase a.path ≠ tables.toLowerCase b.path := by
    have hsymm : Std.Symm fun a b : ArchiveEntry => tables.toLowerCase a.path ≠ tables.toLowerCase b.path :=
      ⟨fun _ _ => Ne.symm⟩
    exact fun a ha b hb hab => h.distinct.forall ha hb hab
  refine ⟨?_, ?_, ?_⟩
  · show ((packedFiles entries).map fun file => tables.toLowerCase file.path).Nodup
    rw [packedFiles, List.map_map]
    exact List.pairwise_map.2 (h.distinct.sublist List.filter_sublist)
  · intro file hfile hmem
    obtain ⟨entry, hentry, rfl⟩ := List.mem_map.1 hfile
    obtain ⟨directory, hdirectory, hpath⟩ := List.mem_map.1 hmem
    obtain ⟨hdirectory, htrue⟩ := List.mem_filter.1 hdirectory
    obtain ⟨hentry, hfalse⟩ := mem_fileEntries.1 hentry
    refine hdistinct directory hdirectory entry hentry (fun heq => ?_) (congrArg tables.toLowerCase hpath)
    rw [heq, hfalse] at htrue
    cases htrue
  · intro file hfile other hother path hpath
    obtain ⟨entry, hentry, rfl⟩ := List.mem_map.1 hfile
    obtain ⟨above, habove, rfl⟩ := List.mem_map.1 hother
    exact hplain.folded entry hentry above habove path hpath

/-- **What may be packed and is read as it is written is read back.** -/
theorem readPackageArchive_archive
    (h : Packable tables entries) (hplain : Plain tables entries rest) :
    ∃ files, readPackageArchive z tables (z.gzip (archiveBytes entries rest)) = .ok files
      ∧ Unpacked (packedFiles entries) files := by
  have hmagic : ¬ ((z.gzip (archiveBytes entries rest))[0]? ≠ some 0x1f
      ∨ (z.gzip (archiveBytes entries rest))[1]? ≠ some 0x8b) := by
    obtain ⟨hfirst, hsecond⟩ := z.gzip_magic (archiveBytes entries rest)
    exact not_or_intro (not_not_intro hfirst) (not_not_intro hsecond)
  have hreadable : ∀ entry ∈ entries, Readable tables entry := fun entry hentry =>
    ⟨h.portable entry hentry, h.short entry hentry, h.shallow entry hentry, hplain.word entry hentry,
      hplain.names entry hentry⟩
  obtain ⟨left, hleft⟩ := Nat.exists_eq_add_of_le' hplain.records_le
  have hwalk : readRecords tables PackageArchiveLimits.records (archiveBytes entries rest) Walk.start
      = .ok (⟨packedFiles entries, packedDirectories entries, none⟩, true) := by
    rw [hleft, archiveBytes, readRecords_archive hreadable left _ rfl
      (by rw [Walk.start, List.length_nil, Nat.zero_add]; exact hplain.files_le), readRecords_end,
      Walk.addAll_eq]
    rfl
  have hroot : utf16 "plugin.json" ∉ (packedFiles entries).map PackageFile.path →
      packedFiles entries ≠ [] ∧ ∃ top, Below top (packedFiles entries) := by
    intro hmanifest
    refine ⟨fun hnil => hplain.some_file (List.map_eq_nil_iff.1 hnil), ?_⟩
    rcases h.rooted with ⟨file, hfile, hpath⟩ | ⟨top, htop, hbelow⟩
    · exact absurd (List.mem_map.2 ⟨file.file, List.mem_map_of_mem hfile, hpath⟩) hmanifest
    · refine ⟨top, htop, fun file hfile => ?_⟩
      obtain ⟨entry, hentry, rfl⟩ := List.mem_map.1 hfile
      exact hbelow entry hentry
  obtain ⟨files, hfiles⟩ : ∃ files,
      packageFiles tables ⟨packedFiles entries, packedDirectories entries, none⟩ = .ok files := by
    by_cases hmanifest : utf16 "plugin.json" ∈ (packedFiles entries).map PackageFile.path
    · exact ⟨_, packageFiles_ok_iff.2 ⟨h.apart_walk hplain, by rw [if_pos hmanifest]⟩⟩
    · obtain ⟨hne, top, hbelow⟩ := hroot hmanifest
      exact ⟨_, packageFiles_ok_iff.2 ⟨h.apart_walk hplain, by
        rw [if_neg hmanifest]
        exact ⟨hne, top, hbelow, rfl⟩⟩⟩
  refine ⟨files, ?_, unpacked_of_packageFiles hfiles⟩
  rw [readPackageArchive, if_neg hmagic, z.gunzipSync_gzip _ _ hplain.expanded_le]
  refine except_bind_ok.2 ⟨_, hwalk, ?_⟩
  dsimp only
  rw [if_neg (by simp), hfiles]
  rfl

/-! ## What is read is sound -/

/-- A directory an archive has: one of its entries, or one above an entry. -/
def DirectoryPath (w : Walk) (path : CodeUnits) : Prop :=
  (∃ directory ∈ w.directories, path = directory ∨ path ∈ ancestors directory)
    ∨ ∃ file ∈ w.files, path ∈ ancestors file.path

/-- **What may be said of the files read from an archive**, the entries of which are in the walk: they
are the files of the archive, with safe paths, apart from each other and from every directory in lower
case, and their bytes are announced by headers. -/
structure Sound (tables : UnicodeTables) (tar : Bytes) (w : Walk) (files : List PackageFile) : Prop where
  unpacked : Unpacked w.files files
  safe : ∀ file ∈ files, SafePath tables file.path
  distinct : (files.map fun file => tables.toLowerCase file.path).Nodup
  apart : ∀ file ∈ w.files, ∀ path, DirectoryPath w path →
    tables.toLowerCase file.path ≠ tables.toLowerCase path
  announced : ∀ file ∈ files, Announced tar file.bytes

/-- No file is called like a directory entry or one above it, in any letters. -/
def ClashFree (tables : UnicodeTables) (w : Walk) : Prop :=
  ∀ file ∈ w.files, ∀ directory ∈ w.directories, ∀ path, path = directory ∨ path ∈ ancestors directory →
    tables.toLowerCase file.path ≠ tables.toLowerCase path

/-- The archive that bytes expand to, and the entries it has up to the block that ends it. -/
def Expands (z : Gzip) (tables : UnicodeTables) (compressed tar : Bytes) (w : Walk) : Prop :=
  z.gunzipSync compressed PackageArchiveLimits.expandedBytes = .ok tar
    ∧ readRecords tables PackageArchiveLimits.records tar Walk.start = .ok (w, true)

theorem readPackageArchive_ok (h : readPackageArchive z tables compressed = .ok files) :
    ∃ tar w, Expands z tables compressed tar w ∧ packageFiles tables w = .ok files := by
  rw [readPackageArchive] at h
  split_ifs at h with hmagic
  split at h
  · cases h
  · rename_i tar htar
    obtain ⟨⟨w, ended⟩, hwalk, h⟩ := except_bind_ok.1 h
    dsimp only at h
    split_ifs at h with hopen
    have hended : ended = true := by
      rw [not_or, Bool.not_eq_false] at hopen
      exact hopen.1
    refine ⟨tar, w, ⟨htar, hended ▸ hwalk⟩, ?_⟩
    cases hfiles : packageFiles tables w with
    | error error =>
      rw [hfiles] at h
      cases h
    | ok =>
      rw [hfiles] at h
      exact congrArg _ (Except.ok.inj h)

/-- A text with the root of a package before it. -/
theorem lower_root (tables : UnicodeTables) (hroot : root = [] ∨ ∃ top, root = top ++ [0x2f]) :
    ∃ before, ∀ path, tables.toLowerCase (root ++ path) = before ++ tables.toLowerCase path := by
  rcases hroot with rfl | ⟨top, rfl⟩
  · exact ⟨[], fun _ => rfl⟩
  · refine ⟨tables.toLowerCase top ++ [0x2f], fun path => ?_⟩
    rw [List.append_assoc, List.singleton_append, tables.lower_append_slash, List.append_assoc,
      List.singleton_append]

theorem SafePath.of_root {path : CodeUnits} (hroot : root = [] ∨ ∃ top, root = top ++ [0x2f])
    (h : SafePath tables (root ++ path)) : SafePath tables path := by
  rcases hroot with rfl | ⟨top, rfl⟩
  · exact h
  · rw [List.append_assoc, List.singleton_append] at h
    have hshort := h.short
    rw [utf8Length_append_cons (by decide)] at hshort
    exact ⟨h.portable.rest, by omega, le_trans (length_parts_lt top path).le h.shallow⟩

/-- **When the files read from an archive are sound.** -/
theorem sound_iff {tar : Bytes} {w : Walk}
    (hexpands : Expands z tables compressed tar w) (hfiles : packageFiles tables w = .ok files) :
    Sound tables tar w files ↔ ClashFree tables w := by
  obtain ⟨hapart, -⟩ := packageFiles_ok_iff.1 hfiles
  have hkept : w.Kept tables tar := by
    have hanswer := readRecords_kept PackageArchiveLimits.records 0 (Walk.kept_start tables tar)
    rw [Nat.zero_mul, List.drop_zero, hexpands.2] at hanswer
    exact hanswer
  constructor
  · intro hsound file hfile directory hdirectory path hpath
    exact hsound.apart file hfile path (Or.inl ⟨directory, hdirectory, hpath⟩)
  · intro hfree
    obtain ⟨root, hrootOf, hperm, -⟩ := unpacked_of_packageFiles hfiles
    have hroot : root = [] ∨ ∃ top, root = top ++ [0x2f] := by
      rw [RootOf] at hrootOf
      split_ifs at hrootOf
      · exact Or.inl hrootOf
      · obtain ⟨top, -, htop, -⟩ := hrootOf
        exact Or.inr ⟨top, htop⟩
    have hmem : ∀ file ∈ files, (⟨root ++ file.path, file.bytes⟩ : PackageFile) ∈ w.files :=
      fun file hfile => hperm.mem_iff.1 (List.mem_map_of_mem hfile)
    refine ⟨unpacked_of_packageFiles hfiles, fun file hfile => (hkept.files _ (hmem file hfile)).1.of_root hroot, ?_, ?_,
      fun file hfile => (hkept.files _ (hmem file hfile)).2⟩
    · obtain ⟨before, hlower⟩ := lower_root tables hroot
      have hnodup : ((files.map fun file => tables.toLowerCase file.path).map fun text => before ++ text).Nodup := by
        have hjoined : ((files.map fun file => tables.toLowerCase file.path).map fun text => before ++ text)
            = (files.map fun file => (⟨root ++ file.path, file.bytes⟩ : PackageFile)).map
              fun file => tables.toLowerCase file.path := by
          rw [List.map_map, List.map_map]
          exact List.map_congr_left fun file _ => (hlower file.path).symm
        rw [hjoined]
        exact (hperm.map _).nodup_iff.2 hapart.distinct
      exact hnodup.of_map _
    · rintro file hfile path (⟨directory, hdirectory, hpath⟩ | ⟨other, hother, hpath⟩)
      · exact hfree file hfile directory hdirectory path hpath
      · exact hapart.above file hfile other hother path hpath

/-! ## Exactly when -/

/-- **Package archives decode to what was packed**, as is claimed: whatever may be packed is read back
however it is written, nothing throws, and whatever is read is sound. -/
def DecodesWhatWasPacked (z : Gzip) (tables : UnicodeTables) : Prop :=
  (∀ entries rest, Packable tables entries →
      ∃ files, readPackageArchive z tables (z.gzip (archiveBytes entries rest)) = .ok files
        ∧ Unpacked (packedFiles entries) files)
    ∧ ∀ compressed, readPackageArchive z tables compressed ≠ .error .thrown
      ∧ ∀ files, readPackageArchive z tables compressed = .ok files →
        ∃ tar w, Expands z tables compressed tar w ∧ Sound tables tar w files

/-- **Where package archives decode to what was packed**: an archive within the limits whose names are
read as they are written is read back; nothing throws; and what is read is sound exactly when no file of
the archive is called like one of its directory entries in other letters. -/
theorem decodesWhatWasPacked_where (z : Gzip) (tables : UnicodeTables) :
    (∀ entries rest, Packable tables entries → Plain tables entries rest →
      ∃ files, readPackageArchive z tables (z.gzip (archiveBytes entries rest)) = .ok files
        ∧ Unpacked (packedFiles entries) files)
    ∧ ∀ compressed, readPackageArchive z tables compressed ≠ .error .thrown
      ∧ ∀ files, readPackageArchive z tables compressed = .ok files →
        ∃ tar w, Expands z tables compressed tar w ∧ (Sound tables tar w files ↔ ClashFree tables w) := by
  refine ⟨fun entries rest h hplain => readPackageArchive_archive h hplain,
    fun compressed => ⟨readPackageArchive_ne_thrown z tables compressed, fun files hfiles => ?_⟩⟩
  obtain ⟨tar, w, hexpands, hpackage⟩ := readPackageArchive_ok hfiles
  exact ⟨tar, w, hexpands, sound_iff hexpands hpackage⟩

/-! ## An archive that is not read back -/

theorem lowerLetter_slash {u : UInt16} : lowerLetter u = 0x2f ↔ u = 0x2f := by
  have hslash : (0x2f : UInt16).toNat = 0x2f := rfl
  rw [lowerLetter]
  split_ifs with h
  · rw [UInt16.le_iff_toNat_le, UInt16.le_iff_toNat_le] at h
    have hlow : (0x41 : UInt16).toNat = 0x41 := rfl
    have hhigh : (0x5a : UInt16).toNat = 0x5a := rfl
    have hstep : (0x20 : UInt16).toNat = 0x20 := rfl
    rw [← UInt16.toNat_inj, ← UInt16.toNat_inj, UInt16.toNat_add]
    omega
  · exact Iff.rfl

theorem splitOn_map_lowerLetter (text : CodeUnits) :
    (text.map lowerLetter).splitOn 0x2f = (text.splitOn 0x2f).map (List.map lowerLetter) := by
  induction text with
  | nil => rfl
  | cons u text ih =>
    obtain ⟨first, parts, hparts⟩ := List.exists_cons_of_ne_nil (List.splitOn_ne_nil 0x2f text)
    rw [List.map_cons, List.splitOn_cons_eq_if_modifyHead, List.splitOn_cons_eq_if_modifyHead, ih]
    by_cases hu : u = 0x2f
    · rw [if_pos (beq_iff_eq.2 (lowerLetter_slash.2 hu)), if_pos (beq_iff_eq.2 hu), List.map_cons, List.map_nil]
    · rw [if_neg fun h => hu (lowerLetter_slash.1 (beq_iff_eq.1 h)), if_neg fun h => hu (beq_iff_eq.1 h),
        hparts, List.modifyHead_cons, List.map_cons, List.modifyHead_cons, List.map_cons, List.map_cons]

/-- The mappings on texts of basic letters. -/
def basicTables : UnicodeTables where
  normalizeNfc text := text
  toLowerCase text := text.map lowerLetter
  nfc_parts _ := (List.map_id' _).symm
  nfc_backslash _ h := h
  lower_parts := splitOn_map_lowerLetter

/-- A compression that only marks what it was given. -/
def markGzip : Gzip where
  gzip bytes := 0x1f :: 0x8b :: bytes
  gunzipSync compressed limit :=
    if (compressed.drop 2).length ≤ limit then .ok (compressed.drop 2) else .error true
  gzip_magic _ := ⟨rfl, rfl⟩
  gunzipSync_gzip _ _ h := if_pos h

/-- The header of the manifest below a directory called `malformed`. -/
def sampleHeader : Bytes :=
  utf8 "plugin.json" ++ List.replicate 113 0 ++ utf8 "00000000000" ++ List.replicate 13 0 ++ utf8 "006775"
    ++ [0, 0x20, 0x30] ++ List.replicate 100 0 ++ utf8 "ustar" ++ [0, 0x30, 0x30] ++ List.replicate 80 0
    ++ utf8 "malformed" ++ List.replicate 158 0

theorem spells_sampleSize : Spells ((sampleHeader.drop 124).take 12) 0 := by
  refine ⟨0, 0, List.replicate 11 '0', ⟨[0], by decide +kernel, rfl, by decide +kernel⟩, by decide,
    by decide, fun _ hc => ?_, by decide⟩
  rw [List.eq_of_mem_replicate hc]
  decide

/-- The sum of a header, read from front to back. -/
theorem headerSum_eq_sum_zipIdx {block : Bytes} (h : block.length = blockBytes) :
    headerSum block
      = (block.zipIdx.map fun x => if 148 ≤ x.2 ∧ x.2 < 156 then 0x20 else x.1.toNat).sum := by
  rw [headerSum]
  refine congrArg List.sum (List.ext_getElem (by simp [h]) fun i hi _ => ?_)
  have hlt : i < block.length := by simpa [h] using hi
  simp [hlt]

theorem spells_sampleChecksum : Spells ((sampleHeader.drop 148).take 8) (headerSum sampleHeader) := by
  have hsum : headerSum sampleHeader = 3581 := by
    rw [headerSum_eq_sum_zipIdx (by decide +kernel)]
    decide +kernel
  rw [hsum]
  refine ⟨0, 0, ['0', '0', '6', '7', '7', '5'], ⟨[0, 0x20], by decide +kernel, rfl, by decide +kernel⟩,
    by decide, by decide, ?_, by decide⟩
  intro c hc
  simp only [List.mem_cons, List.not_mem_nil, or_false] at hc
  rcases hc with rfl | rfl | rfl | rfl | rfl | rfl <;> decide

/-- The record with that header, of an empty file. -/
def sampleRecord : TarRecord where
  header := sampleHeader
  data := []
  padding := []
  header_length := by decide +kernel
  magic := by decide +kernel
  size := spells_sampleSize
  checksum := spells_sampleChecksum
  whole := by decide
  padding_lt := by decide

/-- The entry it stands for. -/
def sampleEntry : ArchiveEntry where
  path := utf16 "malformed/plugin.json"
  directory := false
  naming := .split "malformed" "plugin.json"
  record := sampleRecord
  stands := ⟨by decide, by decide, ⟨List.replicate 89 0, by decide +kernel, rfl, by decide +kernel⟩,
    ⟨List.replicate 146 0, by decide +kernel, rfl, by decide +kernel⟩⟩
  spelled := ⟨0, 0, by decide +kernel, fun _ => rfl⟩
  typed := by decide +kernel

theorem packable_sample : Packable basicTables [sampleEntry] := by
  have hfiles : fileEntries [sampleEntry] = [sampleEntry] := rfl
  have hself : ∀ {P : ArchiveEntry → Prop}, P sampleEntry → ∀ entry ∈ [sampleEntry], P entry := by
    intro P hP entry hentry
    rwa [List.mem_singleton.1 hentry]
  refine ⟨hself ?_, hself ?_, hself ?_, List.pairwise_singleton _ _, ?_, Or.inr ⟨utf16 "malformed", ?_, ?_⟩⟩
  · show packageRelativePath basicTables (utf16 "malformed/plugin.json") = _
    decide +kernel
  · show utf8Length (utf16 "malformed/plugin.json") ≤ _
    decide +kernel
  · show ((utf16 "malformed/plugin.json").splitOn 0x2f).length ≤ _
    decide +kernel
  · rw [hfiles]
    refine hself (hself fun _ hpath => ?_)
    have hlength := congrArg List.length hpath
    rw [List.length_append, List.length_cons] at hlength
    omega
  · decide +kernel
  · rw [hfiles]
    exact hself ⟨utf16 "plugin.json", by show utf16 "malformed/plugin.json" = _; decide +kernel⟩

/-- **Not everything that is packed is read back**: the manifest below a directory called `malformed`,
written with that directory in the prefix field, is refused as malformed. -/
theorem not_decodesWhatWasPacked : ¬ ∀ z tables, DecodesWhatWasPacked z tables := by
  intro h
  obtain ⟨files, hread, -⟩ := (h markGzip basicTables).1 [sampleEntry] [] packable_sample
  obtain ⟨tar, w, ⟨htar, hwalk⟩, -⟩ := readPackageArchive_ok hread
  have hexpands : markGzip.gunzipSync (markGzip.gzip (archiveBytes [sampleEntry] []))
      PackageArchiveLimits.expandedBytes = .ok (archiveBytes [sampleEntry] []) :=
    markGzip.gunzipSync_gzip _ _ (by decide +kernel)
  cases htar.symm.trans hexpands
  have hrefused : (readRecord basicTables Walk.start sampleHeader []).isOk = false := by decide +kernel
  have hrecords : archiveRecords [sampleEntry] = [sampleRecord] := rfl
  rw [archiveBytes, hrecords, List.flatMap_singleton] at hwalk
  obtain ⟨after, hafter, -⟩ := except_bind_ok.1 ((readRecords_bytes 16383 sampleRecord _ Walk.start).symm.trans hwalk)
  rw [show readRecord basicTables Walk.start sampleHeader [] = .ok after from hafter] at hrefused
  cases hrefused

end Falryn.Extensions
