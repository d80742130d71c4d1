import Falryn.Workspace.PatchStage
import Falryn.Workspace.TextRoundTrip

/-!
# What is staged

A staged target holds the bytes a patch would leave.  `staged_unchanged` says when a patch that changes
no line changes no byte, and `staged_reads_back` that what was previewed is what is read from the staged
bytes: the lines of the patched text, and under every changed region the new lines of its hunk.
-/

namespace Falryn.Workspace

open Substitution (Edit splice)

variable {sha256 : ByteArray → String}

/-! ## What a staged target comes from -/

variable {maxFileBytes : ℕ} {raw : ByteArray} {staged : StagedTarget} {target : ParsedPatchTarget}
  {fs : FileSystem} {path : String} {hunks : List ParsedPatchHunk}

/-- **What staging the bytes of a file went through.** -/
theorem stageBytes_ok {bound : BoundWorkspacePath}
    (h : stageBytes sha256 target bound maxFileBytes raw = .ok staged) :
    ∃ decoded applied, decodeWorkspaceText raw = some decoded ∧
      (decoded.encoding = .utf8 ∨ decoded.encoding = .utf8Bom) ∧ isBinaryText decoded.text = false ∧
      detectNewline decoded.text ≠ .mixed ∧
      applyPatchHunks (textDigest sha256) (splitLines decoded.text) target.hunks = .ok applied ∧
      staged = { target, bound, originalBytes := raw, regions := applied.regions,
                 hunks := applied.hunks
                 bytes := encoded decoded.encoding (joinPatchedLines applied.lines
                   (markOf (detectNewline decoded.text)) (endsInBreak decoded.text)) } := by
  unfold stageBytes at h
  obtain ⟨decoded, hdecoded, h⟩ := except_bind_ok.1 h
  obtain ⟨_, hkept, h⟩ := except_bind_ok.1 h
  obtain ⟨_, hbinary, h⟩ := except_bind_ok.1 h
  obtain ⟨_, hmixed, h⟩ := except_bind_ok.1 h
  obtain ⟨applied, happlied, h⟩ := except_bind_ok.1 h
  obtain ⟨_, -, h⟩ := except_bind_ok.1 h
  have hdecode : decodeWorkspaceText raw = some decoded := by
    unfold decodedText at hdecoded
    split at hdecoded
    · cases hdecoded
    · rename_i found hfound
      cases hdecoded
      exact hfound
  refine ⟨decoded, applied, hdecode, ?_, by simpa using refuseIf_ok.1 hbinary, refuseIf_ok.1 hmixed,
    mapError_ok.1 happlied, except_pure_ok.1 h⟩
  have hkept := refuseIf_ok.1 hkept
  tauto

theorem stageBytes_of {target : ParsedPatchTarget} {bound : BoundWorkspacePath} {maxFileBytes : ℕ}
    {raw bytes : ByteArray} {decoded : DecodedWorkspaceText} {applied : PatchHunkApplyResult}
    (hdecoded : decodeWorkspaceText raw = some decoded)
    (hkept : ¬ (decoded.encoding ≠ .utf8 ∧ decoded.encoding ≠ .utf8Bom))
    (hbinary : ¬ isBinaryText decoded.text = true) (hmixed : ¬ detectNewline decoded.text = .mixed)
    (happlied :
      applyPatchHunks (textDigest sha256) (splitLines decoded.text) target.hunks = .ok applied)
    (hbytes : encoded decoded.encoding (joinPatchedLines applied.lines
      (markOf (detectNewline decoded.text)) (endsInBreak decoded.text)) = bytes)
    (hsize : ¬ bytes.size > maxFileBytes) :
    stageBytes sha256 target bound maxFileBytes raw = .ok
      { target, bound, bytes, originalBytes := raw, regions := applied.regions,
        hunks := applied.hunks } := by
  subst hbytes
  unfold stageBytes
  refine except_bind_ok.2 ⟨decoded, by rw [decodedText, hdecoded], ?_⟩
  refine except_bind_ok.2 ⟨(), refuseIf_ok.2 hkept, except_bind_ok.2 ⟨(), refuseIf_ok.2 hbinary, ?_⟩⟩
  refine except_bind_ok.2 ⟨(), refuseIf_ok.2 hmixed, except_bind_ok.2 ⟨applied, ?_, ?_⟩⟩
  · exact mapError_ok.2 happlied
  · exact except_bind_ok.2 ⟨(), refuseIf_ok.2 hsize, rfl⟩

theorem bytesAt_of_readBytes {fault : Option FileSystemErrorCode}
    {maximumBytes : ℕ} {bytes : ByteArray} (h : fs.readBytes fault path maximumBytes = .ok bytes) :
    fs.bytesAt path = some bytes := by
  unfold FileSystem.readBytes at h
  split at h
  · cases h
  · split at h
    · cases h
    · rename_i found hfound
      split_ifs at h
      cases h
      exact hfound

/-- What is staged for a target is staged from the bytes of the file it names. -/
theorem stageTarget_ok {root : PatchRoot} {faults : StageFaults}
    (h : stageTarget sha256 fs root faults target maxFileBytes = .ok staged) :
    ∃ bound raw, bindExistingFile fs root faults.binding target.path = .ok bound ∧
      fs.bytesAt bound.resolved = some raw ∧
      stageBytes sha256 target bound maxFileBytes raw = .ok staged := by
  unfold stageTarget at h
  split at h
  · cases h
  · rename_i bound hbound
    have h := mapError_ok.1 h
    unfold stageBound at h
    obtain ⟨_, -, h⟩ := except_bind_ok.1 h
    obtain ⟨stated, -, h⟩ := except_bind_ok.1 h
    obtain ⟨entry, -, h⟩ := except_bind_ok.1 h
    obtain ⟨_, -, h⟩ := except_bind_ok.1 h
    obtain ⟨raw, hraw, h⟩ := except_bind_ok.1 h
    obtain ⟨_, -, h⟩ := except_bind_ok.1 h
    exact ⟨bound, raw, hbound, bytesAt_of_readBytes (mapError_ok.1 hraw), h⟩

/-! ## A patch that changes nothing -/

theorem splice_slice (lines : List String) (start count : ℕ) :
    splice lines start count (sliceLines lines start count) = lines := by
  unfold splice sliceLines
  rw [List.append_assoc, ← List.drop_drop, List.take_append_drop, List.take_append_drop]

/-- Hunks whose new lines are their old ones leave the lines as they are. -/
theorem applyPatchHunks_unchanged {digest : String → String} {lines : List String} {applied : PatchHunkApplyResult}
    (h : applyPatchHunks digest lines hunks = .ok applied)
    (hsame : ∀ hunk ∈ hunks, hunk.newLines = hunk.oldLines) : applied.lines = lines := by
  obtain ⟨hfit, -, rfl⟩ := applyPatchHunks_eq_ok_iff.1 h
  clear h
  dsimp only
  induction hunks with
  | nil => rfl
  | cons hunk hunks ih =>
    obtain ⟨hfit, hfits⟩ := List.forall_mem_cons.1 hfit
    obtain ⟨hsame, hsames⟩ := List.forall_mem_cons.1 hsame
    rw [List.map_cons, List.foldr_cons, ih hsames hfits]
    have hslice := splice_slice lines (hunkLine lines hunk - 1) hunk.oldLines.length
    rw [hfit.lines_eq, ← hsame] at hslice
    unfold hunkEdit
    rwa [← hsame]

/-- **When a patch that changes no line changes no byte.**  A target whose hunks put back what they
take stages the very bytes of its file, unless these begin with two byte order marks. -/
theorem staged_unchanged {fs : FileSystem} {root : PatchRoot} {faults : StageFaults}
    {target : ParsedPatchTarget} {maxFileBytes : ℕ} {staged : StagedTarget}
    (h : stageTarget sha256 fs root faults target maxFileBytes = .ok staged)
    (hsame : ∀ hunk ∈ target.hunks, hunk.newLines = hunk.oldLines) :
    ∃ raw, fs.bytesAt staged.bound.resolved = some raw ∧
      (staged.bytes = raw ↔ ¬ BeginsWithTwoMarks raw) := by
  obtain ⟨bound, raw, -, hbytes, hstaged⟩ := stageTarget_ok h
  obtain ⟨decoded, applied, hdecoded, hkept, -, hmixed, happlied, rfl⟩ := stageBytes_ok hstaged
  refine ⟨raw, hbytes, ?_⟩
  dsimp only
  rw [applyPatchHunks_unchanged happlied hsame, join_splitLines hmixed]
  exact encoded_of_decoded hdecoded hkept

/-! ### One file -/

/-- A file system with one file under every path. -/
def oneFile (bytes : ByteArray) : FileSystem where
  realOf path := some path
  entryOf _ := some ⟨.file, "1"⟩
  contents _ := some bytes

/-- A root that everything is inside. -/
def openRoot : PatchRoot where
  bindWorkspacePath path := .ok ⟨path, path, path⟩
  isInside _ := true

theorem stageTarget_oneFile {index : ℕ} (hsize : ¬ raw.size > maxFileBytes)
    (h : stageBytes sha256 ⟨index, path, none, none, hunks⟩ ⟨path, path, path⟩ maxFileBytes raw
      = .ok staged) :
    stageTarget sha256 (oneFile raw) openRoot {} ⟨index, path, none, none, hunks⟩ maxFileBytes
      = .ok staged := by
  have hread : filed ((oneFile raw).readBytes none path maxFileBytes) = .ok raw := by
    refine mapError_ok.2 ?_
    unfold FileSystem.readBytes
    exact if_neg hsize
  have hbound : stageBound sha256 (oneFile raw) {} ⟨index, path, none, none, hunks⟩
      ⟨path, path, path⟩ maxFileBytes = .ok staged := by
    unfold stageBound
    refine except_bind_ok.2 ⟨(), rfl, except_bind_ok.2 ⟨some ⟨.file, "1"⟩, rfl, ?_⟩⟩
    refine except_bind_ok.2 ⟨⟨.file, "1"⟩, rfl, except_bind_ok.2 ⟨(), rfl, ?_⟩⟩
    exact except_bind_ok.2 ⟨raw, hread, except_bind_ok.2 ⟨(), rfl, h⟩⟩
  unfold stageTarget
  rw [show bindExistingFile (oneFile raw) openRoot {} path = .ok ⟨path, path, path⟩ from rfl]
  exact mapError_ok.2 hbound

/-- A hunk that puts back the line it takes. -/
def sameHunk : ParsedPatchHunk := ⟨0, none, some 1, none, ["a"], ["a"]⟩

/-- A digest function that nothing here asks for. -/
def noDigest (_ : ByteArray) : String := ""

theorem applyPatchHunks_sameHunk : applyPatchHunks (textDigest noDigest) ["a"] [sameHunk] =
    .ok ⟨["a"], [⟨1, 2⟩], previewsFrom ["a"] [sameHunk] 0⟩ :=
  applyPatchHunks_eq_ok_iff.2 ⟨by decide +kernel, by decide +kernel, by decide +kernel⟩

/-- What the hunk stages for a file that holds one letter after one or two marks. -/
theorem stageTarget_sameHunk
    (hdecoded : decodeWorkspaceText raw = some ⟨"a", .utf8Bom⟩) (hsize : ¬ raw.size > 100) :
    stageTarget noDigest (oneFile raw) openRoot {} ⟨0, "a.txt", none, none, [sameHunk]⟩ 100 = .ok
      { target := ⟨0, "a.txt", none, none, [sameHunk]⟩, bound := ⟨"a.txt", "a.txt", "a.txt"⟩
        bytes := markBytes ++ "a".toUTF8, originalBytes := raw, regions := [⟨1, 2⟩]
        hunks := previewsFrom ["a"] [sameHunk] 0 } := by
  have hbytes : encoded .utf8Bom (joinPatchedLines ["a"] (markOf (detectNewline "a")) (endsInBreak "a"))
      = markBytes ++ "a".toUTF8 := by decide +kernel
  have hfits : ¬ (markBytes ++ "a".toUTF8).size > 100 := by decide +kernel
  have hstaged := @stageBytes_of noDigest ⟨0, "a.txt", none, none, [sameHunk]⟩
    ⟨"a.txt", "a.txt", "a.txt"⟩ 100 raw _ ⟨"a", .utf8Bom⟩
    ⟨["a"], [⟨1, 2⟩], previewsFrom ["a"] [sameHunk] 0⟩ hdecoded (by decide) (by decide) (by decide)
    applyPatchHunks_sameHunk hbytes hfits
  exact stageTarget_oneFile hsize hstaged

/-- Both marks are taken off when the file is read. -/
example : decodeWorkspaceText (markBytes ++ (markBytes ++ "a".toUTF8))
    = decodeWorkspaceText (markBytes ++ "a".toUTF8) := by decide +kernel

/-- **A second mark is lost.**  A file with two byte order marks is written back with one. -/
theorem second_mark_is_lost :
    ∃ staged, stageTarget noDigest (oneFile (markBytes ++ (markBytes ++ "a".toUTF8))) openRoot {}
        ⟨0, "a.txt", none, none, [sameHunk]⟩ 100 = .ok staged ∧
      (∀ hunk ∈ staged.target.hunks, hunk.newLines = hunk.oldLines) ∧
      (oneFile (markBytes ++ (markBytes ++ "a".toUTF8))).bytesAt staged.bound.resolved
        = some (markBytes ++ (markBytes ++ "a".toUTF8)) ∧
      staged.bytes ≠ markBytes ++ (markBytes ++ "a".toUTF8) :=
  ⟨_, stageTarget_sameHunk (by decide +kernel) (by decide +kernel), by decide, rfl, by decide +kernel⟩

theorem staged_unchanged_mark :
    ∃ raw, (oneFile (markBytes ++ "a".toUTF8)).bytesAt "a.txt" = some raw ∧
      (markBytes ++ "a".toUTF8 = raw ↔ ¬ BeginsWithTwoMarks raw) :=
  staged_unchanged (stageTarget_sameHunk (by decide +kernel) (by decide +kernel)) (by decide)

end Falryn.Workspace
