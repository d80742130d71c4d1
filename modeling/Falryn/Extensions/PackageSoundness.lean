import Falryn.Extensions.PackageFiles

/-!
# What is read is in the archive

For every byte string: the reading never throws, since no text it cuts out of a decoded one begins or
ends with half of a pair (`readPackageArchive_ne_thrown`); and every file it keeps has a safe path and
the bytes that a header of the archive announces (`readRecords_kept`).
-/

namespace Falryn.Extensions

variable {tables : UnicodeTables}

/-! ## Well-formed names -/

variable {bytes : Bytes} {text : CodeUnits} {u : UInt16} {rest named : CodeUnits}

theorem isWellFormed_decode (h : decode bytes = some text) : isWellFormed text = true := by
  rw [decode, Option.map_eq_some_iff] at h
  obtain ⟨string, -, rfl⟩ := h
  exact isWellFormed_utf16 string

theorem isWellFormed_decodePath (h : decodePath bytes = some text) : isWellFormed text = true := by
  rw [decodePath] at h
  split_ifs at h
  cases hdecode : decode bytes with
  | none =>
    rw [hdecode, Option.getD_none, Option.some.injEq] at h
    exact h ▸ isWellFormed_utf16 _
  | some =>
    rw [hdecode, Option.getD_some, Option.some.injEq] at h
    exact h ▸ isWellFormed_decode hdecode

theorem isWellFormed_right (hu : isSurrogate u = false) (before : CodeUnits)
    (h : isWellFormed (before ++ u :: rest) = true) : isWellFormed rest = true := by
  rw [isWellFormed_append_cons hu, Bool.and_eq_true] at h
  exact h.2

theorem isWellFormed_left (hu : isSurrogate u = false) {before : CodeUnits}
    (h : isWellFormed (before ++ u :: rest) = true) : isWellFormed before = true := by
  rw [isWellFormed_append_cons hu, Bool.and_eq_true] at h
  exact h.1

/-- The value of a record stands between an equals sign and a line end. -/
theorem paxRecord_value {key value : CodeUnits} {length : ℕ}
    (h : paxRecord text = some (length, key, value)) :
    ∃ before after, text = before ++ 0x3d :: (value ++ 0xa :: after) := by
  unfold paxRecord at h
  simp only [Option.bind_eq_bind, Option.bind_eq_some_iff] at h
  obtain ⟨space, _, n, _, h⟩ := h
  split_ifs at h with hle hlast
  simp only [Option.bind_eq_some_iff] at h
  obtain ⟨equals, hequals, h⟩ := h
  obtain ⟨hlt, hsign, -⟩ := List.findIdx?_eq_some_iff_getElem.1 hequals
  have hvalue := congrArg (fun answer : ℕ × CodeUnits × CodeUnits => answer.2.2) (Option.some.inj h)
  dsimp only at hvalue
  generalize hrecord : (text.take n.toNat).drop (space + 1) = record at *
  have hcut : record = record.take equals ++ 0x3d :: record.drop (equals + 1) := by
    rw [← of_decide_eq_true hsign, List.getElem_cons_drop, List.take_append_drop]
  have hne : record.drop (equals + 1) ≠ [] := by
    intro hnil
    rw [hnil] at hcut
    rw [hcut, List.getLast?_concat] at hlast
    exact hlast (by decide)
  have hend : record.drop (equals + 1) = value ++ [0xa] := by
    rw [← hvalue]
    have hgetLast : (record.drop (equals + 1)).getLast hne = 0xa := by
      rw [ne_eq, not_not, hcut, List.getLast?_append_of_ne_nil _ (List.cons_ne_nil _ _),
        List.getLast?_cons_of_ne_nil hne, List.getLast?_eq_some_getLast hne] at hlast
      exact Option.some.inj hlast
    rw [← hgetLast, List.dropLast_concat_getLast]
  refine ⟨(text.take n.toNat).take (space + 1) ++ record.take equals, text.drop n.toNat, ?_⟩
  calc text = text.take n.toNat ++ text.drop n.toNat := (List.take_append_drop _ _).symm
    _ = (text.take n.toNat).take (space + 1) ++ record ++ text.drop n.toNat := by
        rw [← hrecord, List.take_append_drop (space + 1)]
    _ = (text.take n.toNat).take (space + 1) ++ (record.take equals ++ 0x3d :: (value ++ [0xa]))
          ++ text.drop n.toNat := by rw [← hend, ← hcut]
    _ = _ := by simp only [List.append_assoc, List.cons_append, List.nil_append]

theorem isWellFormed_paxRecords {path : Option CodeUnits} (before : CodeUnits)
    (htext : isWellFormed (before ++ text) = true)
    (hpath : ∀ seen, path = some seen → isWellFormed seen = true)
    (h : paxRecords path text = some named) : isWellFormed named = true := by
  induction path, text using paxRecords.induct generalizing before with
  | case1 path =>
    rw [paxRecords, if_pos rfl] at h
    exact hpath named h
  | case2 path text hne hnone =>
    rw [paxRecords, if_neg hne] at h
    split at h
    · exact Option.some.inj h ▸ isWellFormed_utf16 _
    · rename_i hsome
      rw [hnone] at hsome
      cases hsome
  | case3 path text hne length _ _ hsome ih =>
    rw [paxRecords, if_neg hne] at h
    split at h
    · rename_i hnone
      rw [hsome] at hnone
      cases hnone
    · rename_i hsome'
      rw [hsome, Option.some.injEq, Prod.mk.injEq, Prod.mk.injEq] at hsome'
      obtain ⟨rfl, rfl, rfl⟩ := hsome'
      refine ih (before ++ text.take length) ?_ (fun seen hseen => ?_) h
      · rwa [List.append_assoc, List.take_append_drop]
      · split_ifs at hseen
        · obtain ⟨first, after, hvalue⟩ := paxRecord_value hsome
          rw [hvalue, ← List.append_assoc] at htext
          rw [← Option.some.inj hseen]
          exact isWellFormed_left (by decide) (isWellFormed_right (by decide) _ htext)
        · exact hpath seen hseen

theorem isWellFormed_paxPath (h : paxPath bytes = some named) : isWellFormed named = true := by
  rw [paxPath] at h
  split at h
  · exact Option.some.inj h ▸ isWellFormed_utf16 _
  · rename_i hdecode
    exact isWellFormed_paxRecords [] (isWellFormed_decode hdecode)
      (fun seen hseen => by cases hseen) h

variable {raw : CodeUnits} {header : Bytes}

theorem isWellFormed_headerPath (h : headerPath header = some raw) : isWellFormed raw = true := by
  rw [headerPath] at h
  split_ifs at h
  split at h
  · cases h
  · rename_i name hname _
    exact Option.some.inj h ▸ isWellFormed_decodePath hname
  · rename_i name _ hname hdirectory
    rw [← Option.some.inj h, isWellFormed_append_cons (by decide), isWellFormed_decodePath hdirectory,
      isWellFormed_decodePath hname]
    rfl

variable {path : CodeUnits} {α : Type} {w : Walk} {tar : Bytes} {P : α → Prop}

theorem isWellFormed_dropDotSlashes (h : isWellFormed path = true) :
    isWellFormed (dropDotSlashes path) = true := by
  induction path using dropDotSlashes.induct with
  | case1 _ ih =>
    rw [dropDotSlashes]
    exact ih (isWellFormed_right (u := 0x2f) (by decide) [0x2e] h)
  | case2 path hpath =>
    rw [dropDotSlashes]
    · exact h
    · exact hpath

theorem isWellFormed_rdropWhile (h : isWellFormed path = true) :
    isWellFormed (path.rdropWhile (· = 0x2f)) = true := by
  induction path using List.reverseRecOn with
  | nil => exact h
  | append_singleton path u ih =>
    by_cases hu : u = 0x2f
    · rw [List.rdropWhile_concat_pos (fun u => decide (u = 0x2f)) _ _ (decide_eq_true hu)]
      rw [hu] at h
      exact ih (isWellFormed_left (by decide) h)
    · rwa [List.rdropWhile_concat_neg (fun u => decide (u = 0x2f)) _ _ (by simpa using hu)]

/-- **A path taken from a well-formed name throws nothing.** -/
theorem entryPath_ne_none (h : isWellFormed raw = true) (directory : Bool) :
    entryPath tables raw directory ≠ none := by
  have hpath : isWellFormed (dropDotSlashes (if directory then raw.rdropWhile (· = 0x2f) else raw)) = true := by
    refine isWellFormed_dropDotSlashes ?_
    split_ifs
    · exact isWellFormed_rdropWhile h
    · exact h
  rw [entryPath]
  generalize dropDotSlashes (if directory then raw.rdropWhile (· = 0x2f) else raw) = path at hpath ⊢
  split_ifs with hroot
  · exact Option.some_ne_none _
  · exact Option.some_ne_none _
  · exact Option.some_ne_none _
  · rw [packageRelativePath, canonicalText, if_pos hpath]
    exact Option.some_ne_none _

/-! ## What a record adds -/

/-- A path that an entry may have. -/
structure SafePath (tables : UnicodeTables) (path : CodeUnits) : Prop where
  portable : Portable tables path
  short : utf8Length path ≤ PackageArchiveLimits.pathBytes
  shallow : (path.splitOn 0x2f).length ≤ PackageArchiveLimits.depth

theorem entryPath_safe {directory : Bool}
    (h : entryPath tables raw directory = some (some path)) (hne : path ≠ invalid) : SafePath tables path := by
  rw [entryPath] at h
  generalize dropDotSlashes (if directory then raw.rdropWhile (· = 0x2f) else raw) = cut at h
  split_ifs at h with hroot hdirectory hbad
  · cases h
  · exact absurd (Option.some.inj (Option.some.inj h)).symm hne
  · exact absurd (Option.some.inj (Option.some.inj h)).symm hne
  · obtain ⟨normalized, hnormalized, h⟩ := Option.map_eq_some_iff.1 h
    split_ifs at h with hsame
    · obtain rfl := Option.some.inj h
      simp only [not_or, not_lt] at hbad
      exact ⟨by rw [Portable, hnormalized, hsame], hbad.2.2.2.1, hbad.2.2.2.2⟩
    · exact absurd (Option.some.inj h).symm hne

/-- An answer that throws nothing and, when there is a value, has one of which something holds. -/
def Answers {α : Type} (P : α → Prop) : Except ArchiveFailure α → Prop
  | .ok a => P a
  | .error failure => failure ≠ .thrown

theorem answers_refused (error : PackageArchiveError) :
    Answers P (.error (.refused error)) := nofun

theorem Answers.bind {β : Type} {Q : β → Prop} {answer : Except ArchiveFailure α}
    {next : α → Except ArchiveFailure β} (h : Answers P answer) (hnext : ∀ a, P a → Answers Q (next a)) :
    Answers Q (answer.bind next) := by
  cases answer with
  | error => exact h
  | ok a => exact hnext a h

theorem readEntry_adds (tables : UnicodeTables) (w : Walk) (directory : Bool) (data : Bytes)
    (hraw : isWellFormed raw = true) :
    Answers (fun w' => w'.pendingPath = none ∧ (w'.files = w.files ∨ directory = false ∧ ∃ path,
      SafePath tables path ∧ w'.files = w.files ++ [⟨path, data⟩])) (readEntry tables w directory raw data) := by
  rw [readEntry]
  by_cases hword : raw = malformed
  · rw [if_pos hword]
    exact answers_refused _
  · rw [if_neg hword]
    cases hpath : entryPath tables raw directory with
    | none => exact absurd hpath (entryPath_ne_none hraw directory)
    | some path =>
      cases path with
      | none => exact ⟨rfl, Or.inl rfl⟩
      | some path =>
        dsimp only
        split_ifs with hinvalid hdirectory hmany
        · exact answers_refused _
        · exact ⟨rfl, Or.inl rfl⟩
        · exact answers_refused _
        · exact ⟨rfl, Or.inr ⟨Bool.eq_false_iff.2 hdirectory, path, entryPath_safe hpath hinvalid, rfl⟩⟩

/-- The name that is pending has no half of a pair standing alone. -/
def Walk.Named (w : Walk) : Prop := ∀ raw, w.pendingPath = some raw → isWellFormed raw = true

/-- What a record may add: at most one file, its data under a safe path. -/
structure Adds (tables : UnicodeTables) (header data : Bytes) (w w' : Walk) : Prop where
  named : w'.Named
  files : w'.files = w.files ∨ (recordType header = 0x30 ∨ recordType header = 0)
    ∧ ∃ path, SafePath tables path ∧ w'.files = w.files ++ [⟨path, data⟩]

/-- **One record throws nothing and adds at most one file**, its data under a safe path. -/
theorem readRecord_adds {data : Bytes} (hw : w.Named) :
    Answers (Adds tables header data w) (readRecord tables w header data) := by
  rw [readRecord]
  dsimp only
  by_cases hname : recordType header = 0x78 ∨ recordType header = 0x4c
  · rw [if_pos hname]
    split_ifs with hlong
    · exact answers_refused _
    · exact answers_refused _
    · exact ⟨fun raw hraw => isWellFormed_decodePath hraw, Or.inl rfl⟩
    · exact answers_refused _
    · exact ⟨fun raw hraw => isWellFormed_paxPath hraw, Or.inl rfl⟩
  rw [if_neg hname]
  by_cases hglobal : recordType header = 0x67
  · rw [if_pos hglobal]
    exact ⟨hw, Or.inl rfl⟩
  rw [if_neg hglobal]
  by_cases hlink : recordType header = 0x31 ∨ recordType header = 0x32 ∨ recordType header = 0x4b
  · rw [if_pos hlink]
    exact answers_refused _
  rw [if_neg hlink]
  by_cases hspecial : recordType header ≠ 0x30 ∧ recordType header ≠ 0 ∧ recordType header ≠ 0x35
  · rw [if_pos hspecial]
    exact answers_refused _
  rw [if_neg hspecial]
  cases hraw : w.pendingPath.or (headerPath header) with
  | none => exact answers_refused _
  | some raw =>
    have hwell : isWellFormed raw = true := by
      rcases Option.or_eq_some_iff.1 hraw with hpending | ⟨-, hheader⟩
      · exact hw raw hpending
      · exact isWellFormed_headerPath hheader
    have hentry := readEntry_adds tables w (decide (recordType header = 0x35)) data hwell
    dsimp only
    cases hread : readEntry tables w (decide (recordType header = 0x35)) raw data with
    | error => rwa [hread] at hentry
    | ok =>
      rw [hread] at hentry
      obtain ⟨hpending, hfiles⟩ := hentry
      refine ⟨fun raw hraw => (by rw [hpending] at hraw; cases hraw), hfiles.imp_right ?_⟩
      rintro ⟨hdirectory, hfile⟩
      refine ⟨?_, hfile⟩
      by_contra htype
      obtain ⟨hzero, hnul⟩ := not_or.1 htype
      exact hspecial ⟨hzero, hnul, of_decide_eq_false hdirectory⟩

/-! ## The loop over the records -/

/-- **Bytes that a header of an archive announces**: the range behind a block with a valid checksum. -/
def Announced (tar bytes : Bytes) : Prop :=
  ∃ block size, checksumValid ((tar.drop (block * blockBytes)).take blockBytes) = true
    ∧ (recordType ((tar.drop (block * blockBytes)).take blockBytes) = 0x30
      ∨ recordType ((tar.drop (block * blockBytes)).take blockBytes) = 0)
    ∧ octal ((tar.drop (block * blockBytes)).take blockBytes) 124 12 = some size
    ∧ (block + 1) * blockBytes + size ≤ tar.length
    ∧ bytes = (tar.drop ((block + 1) * blockBytes)).take size

/-- What holds of all that a walk over an archive has gathered. -/
structure Walk.Kept (tables : UnicodeTables) (tar : Bytes) (w : Walk) : Prop where
  named : w.Named
  files : ∀ file ∈ w.files, SafePath tables file.path ∧ Announced tar file.bytes

theorem Walk.kept_start (tables : UnicodeTables) (tar : Bytes) : Walk.start.Kept tables tar :=
  ⟨nofun, nofun⟩

theorem recordSize_eq_some {size : ℕ} (h : recordSize tar = some size) :
    checksumValid (tar.take blockBytes) = true ∧ octal (tar.take blockBytes) 124 12 = some size
      ∧ blockBytes + size ≤ tar.length := by
  rw [recordSize] at h
  split_ifs at h with hbad
  rw [not_or, not_not, not_not] at hbad
  split at h
  · cases h
  · rename_i hsize
    split_ifs at h with hshort
    obtain rfl := Option.some.inj h
    exact ⟨hbad.2, hsize, not_lt.1 hshort⟩

theorem paddedSize_blocks (size : ℕ) : paddedSize size = paddedSize size / blockBytes * blockBytes := by
  rw [paddedSize, Nat.mul_div_cancel _ (by decide)]

/-- **The loop keeps what holds of a walk**, and throws nothing. -/
theorem readRecords_kept (left block : ℕ) (hw : w.Kept tables tar) :
    Answers (fun answer => answer.1.Kept tables tar)
      (readRecords tables left (tar.drop (block * blockBytes)) w) := by
  induction left generalizing block w with
  | zero =>
    rw [readRecords]
    split_ifs
    · exact hw
    · exact hw
    · exact answers_refused _
  | succ left ih =>
    rw [readRecords]
    split_ifs
    · exact hw
    · exact hw
    · cases hsize : recordSize (tar.drop (block * blockBytes)) with
      | none => exact answers_refused _
      | some size =>
        obtain ⟨hchecksum, hoctal, hlength⟩ := recordSize_eq_some hsize
        have hnext : (tar.drop (block * blockBytes)).drop (blockBytes + paddedSize size)
            = tar.drop ((block + 1 + paddedSize size / blockBytes) * blockBytes) := by
          have hpadded := paddedSize_blocks size
          have hblocks : (block + 1 + paddedSize size / blockBytes) * blockBytes
              = block * blockBytes + (blockBytes + paddedSize size) := by
            rw [Nat.add_mul, Nat.add_mul, ← hpadded]
            omega
          rw [List.drop_drop, hblocks]
        dsimp only
        rw [hnext]
        refine Answers.bind (readRecord_adds hw.named) fun _ hadds => ih _ ⟨hadds.named, fun file hfile => ?_⟩
        rcases hadds.files with hsame | ⟨htype, path, hsafe, hadd⟩
        · exact hw.files file (hsame ▸ hfile)
        · rw [hadd, List.mem_append, List.mem_singleton] at hfile
          rcases hfile with hfile | rfl
          · exact hw.files file hfile
          · rw [List.length_drop] at hlength
            have hblock : 0 < blockBytes := by decide
            refine ⟨hsafe, block, size, hchecksum, htype, hoctal, ?_, ?_⟩
            · rw [Nat.add_mul]
              omega
            · rw [List.drop_drop, Nat.add_mul, Nat.one_mul]

/-- **Reading never throws.** -/
theorem readPackageArchive_ne_thrown (z : Gzip) (tables : UnicodeTables) (compressed : Bytes) :
    readPackageArchive z tables compressed ≠ .error .thrown := by
  have hanswers : Answers (fun _ => True) (readPackageArchive z tables compressed) := by
    rw [readPackageArchive]
    split_ifs with hmagic
    · exact answers_refused _
    · split
      · exact answers_refused _
      · rename_i tar _
        refine Answers.bind (P := fun _ => True) ?_ fun answer _ => ?_
        · have hkept := readRecords_kept PackageArchiveLimits.records 0 (Walk.kept_start tables tar)
          rw [Nat.zero_mul, List.drop_zero] at hkept
          cases hread : readRecords tables PackageArchiveLimits.records tar Walk.start with
          | error => rwa [hread] at hkept
          | ok answer => exact trivial
        · obtain ⟨w, ended⟩ := answer
          dsimp only
          split_ifs
          · exact answers_refused _
          · cases packageFiles tables w with
            | error error => exact answers_refused _
            | ok => exact trivial
  intro h
  rw [h] at hanswers
  exact hanswers rfl

end Falryn.Extensions
