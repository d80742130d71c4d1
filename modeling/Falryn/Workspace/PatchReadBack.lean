import Falryn.Workspace.PatchStaged

/-!
# Reading back what was previewed

The lines a patch was previewed with are the lines of the bytes it stages, and a region of them shows the
new lines of its hunk (`staged_reads_back`).  Three texts are not read back as they were joined: one of
no lines, one whose last line is empty with no break after it, and one that begins with a byte order
mark.
-/

namespace Falryn.Workspace

open Substitution (Edit splice)

variable {sha256 : ByteArray → String}

/-! ## Lines of a patched text -/

/-- A line as the parser of a hunk accepts it. -/
def PlainLine (line : String) : Prop := Unbroken line ∧ '\x00' ∉ line.toList

variable {value : JsValue} {line : String}

theorem parseLine_plain (h : parseLine value = .ok line) : PlainLine line := by
  unfold parseLine at h
  split at h
  · split_ifs at h with hbad
    cases h
    simp only [includesChar, Bool.or_eq_true, List.contains_iff_mem, not_or] at hbad
    exact ⟨⟨hbad.1.2, hbad.2⟩, hbad.1.1⟩
  · cases h

variable {lines : List String} {index maxHunkLines : ℕ}

theorem parseLineList_plain
    (h : parseLineList value = .ok lines) : ∀ line ∈ lines, PlainLine line := by
  unfold parseLineList at h
  split at h
  · have hforall := mapM_ok_iff.1 h
    clear h
    induction hforall with
    | nil => exact fun _ h => (nomatch h)
    | cons hline _ ih => exact List.forall_mem_cons.2 ⟨parseLine_plain hline, ih⟩
  · cases h

theorem parseHunk_plain {hunk : ParsedPatchHunk}
    (h : parseHunk value index maxHunkLines = .ok hunk) : ∀ line ∈ hunk.newLines, PlainLine line := by
  simp only [parseHunk, except_bind_ok, refuseIf_ok, except_pure_ok, exists_const] at h
  obtain ⟨-, oldLines, -, newLines, hnew, -, -, hunkId, -, digest, -, start, -, -, -, rfl⟩ := h
  exact parseLineList_plain hnew

theorem parseHunks_plain {values : List JsValue} : ∀ {index : ℕ}
    {hunks : List ParsedPatchHunk}, parseHunks maxHunkLines index values = .ok hunks →
    ∀ hunk ∈ hunks, ∀ line ∈ hunk.newLines, PlainLine line := by
  induction values with
  | nil =>
    intro index hunks h
    cases h
    exact fun _ h => (nomatch h)
  | cons value values ih =>
    intro index hunks h
    obtain ⟨hunk, rest, rfl, hhunk, hrest⟩ := parseHunks_cons_ok.1 h
    exact List.forall_mem_cons.2 ⟨parseHunk_plain hhunk, ih hrest⟩

/-- The new lines of an accepted target hold no break and no null character. -/
theorem parseTarget_plain {limits : WorkspacePatchLimits}
    {target : ParsedPatchTarget} (h : parseTarget value index limits = .ok target) :
    ∀ hunk ∈ target.hunks, ∀ line ∈ hunk.newLines, PlainLine line := by
  obtain ⟨items, hunks, -, hhunks, hsorted, -⟩ := parseTarget_ok h
  intro hunk hhunk
  rw [hsorted, (List.mergeSort_perm _ _).mem_iff] at hhunk
  exact parseHunks_plain hhunks hunk hhunk

variable {hunks : List ParsedPatchHunk} {applied : PatchHunkApplyResult} {digest : String → String}

/-- A line of the patched text is one of the file or a new one. -/
theorem mem_applied (h : applyPatchHunks digest lines hunks = .ok applied) (hline : line ∈ applied.lines) :
    line ∈ lines ∨ ∃ hunk ∈ hunks, line ∈ hunk.newLines := by
  obtain ⟨-, -, rfl⟩ := applyPatchHunks_eq_ok_iff.1 h
  clear h
  dsimp only at hline
  induction hunks with
  | nil => exact .inl hline
  | cons hunk hunks ih =>
    rw [List.map_cons, List.foldr_cons, splice, List.mem_append, List.mem_append] at hline
    have hrest : line ∈ (hunks.map (hunkEdit lines)).foldr
        (fun e acc => splice acc e.start e.count e.text) lines →
        line ∈ lines ∨ ∃ other ∈ hunk :: hunks, line ∈ other.newLines := by
      intro hrest
      refine (ih hrest).imp_right fun hfound => ?_
      obtain ⟨other, hother, hmem⟩ := hfound
      exact ⟨other, List.mem_cons_of_mem _ hother, hmem⟩
    rcases hline with (hline | hline) | hline
    · exact hrest (List.mem_of_mem_take hline)
    · exact .inr ⟨hunk, List.mem_cons_self, hline⟩
    · exact hrest (List.mem_of_mem_drop hline)

/-! ## The staged text -/

/-- The first line begins with a byte order mark. -/
def BeginsWithMark (lines : List String) : Prop :=
  ∃ line, lines.head? = some line ∧ line.toList.head? = some byteOrderMark

variable {newline : NewlineMark} {trailingNewline : Bool}

theorem mem_joinPatchedLines
    {c : Char} (h : c ∈ (joinPatchedLines lines newline trailingNewline).toList) :
    c ∈ newline.text.toList ∨ ∃ line ∈ lines, c ∈ line.toList := by
  have hbody : c ∈ (newline.text.intercalate lines).toList →
      c ∈ newline.text.toList ∨ ∃ line ∈ lines, c ∈ line.toList := by
    intro h
    rw [String.toList_intercalate] at h
    refine (mem_intercalate h).imp_right ?_
    rintro ⟨chars, hchars, hc⟩
    obtain ⟨line, hline, rfl⟩ := List.mem_map.1 hchars
    exact ⟨line, hline, hc⟩
  unfold joinPatchedLines at h
  dsimp only at h
  split_ifs at h
  · cases h
  · rw [String.toList_append, List.mem_append] at h
    exact h.elim hbody .inl
  · exact hbody h

/-- Joined lines begin with a mark only when the first line does. -/
theorem head_joinPatchedLines (h : ¬ BeginsWithMark lines) :
    (joinPatchedLines lines newline trailingNewline).toList.head? ≠ some byteOrderMark := by
  have hmark : ∀ rest : List Char, (newline.text.toList ++ rest).head? ≠ some byteOrderMark := by
    rcases newline with _ | _ | _
    all_goals exact fun rest hhead => absurd (Option.some.inj hhead) (by decide)
  have hempty : ([] : List Char).head? ≠ some byteOrderMark := fun hhead => (nomatch hhead)
  have hbody : ∀ ending : List Char, ending.head? ≠ some byteOrderMark →
      ((newline.text.intercalate lines).toList ++ ending).head? ≠ some byteOrderMark := by
    intro ending hending
    rw [String.toList_intercalate]
    rcases lines with _ | ⟨line, lines⟩
    · exact hending
    · have hline : line.toList.head? ≠ some byteOrderMark := fun hhead => h ⟨line, rfl, hhead⟩
      rcases hchars : line.toList with _ | ⟨c, chars⟩
      · rcases lines with _ | ⟨next, lines⟩
        · rw [List.map_cons, hchars]
          exact hending
        · rw [List.map_cons, List.map_cons, List.intercalate_cons_cons, hchars, List.nil_append,
            List.append_assoc]
          exact hmark _
      · rw [hchars] at hline
        rcases lines with _ | ⟨next, lines⟩
        · rw [List.map_cons, hchars]
          exact hline
        · rw [List.map_cons, List.map_cons, List.intercalate_cons_cons, hchars]
          exact hline
  unfold joinPatchedLines
  dsimp only
  split_ifs
  · exact hempty
  · rw [String.toList_append]
    refine hbody _ fun hhead => hmark [] ?_
    rwa [List.append_nil]
  · have hopen := hbody [] hempty
    rwa [List.append_nil] at hopen

variable {text : String} {encoding : TextEncoding}

theorem decode_encoded (hkept : encoding = .utf8 ∨ encoding = .utf8Bom) (h : text.toList.head? ≠ some byteOrderMark) :
    decodeWorkspaceText (encoded encoding text) = some ⟨text, encoding⟩ := by
  rcases hkept with rfl | rfl
  · exact decode_utf8 h
  · exact decode_utf8Bom h

/-! ## Changed regions -/

/-- What a region of a patched file shows of a hunk: its new lines, up to the most that are shown. -/
structure ShowsHunk (hunk : ParsedPatchHunk) (region : WorkspacePatchChangedRegion) : Prop where
  lines : region.lines.map NumberedLine.text = hunk.newLines.take maxChangedRegionLines
  truncated : region.truncated = decide (maxChangedRegionLines < hunk.newLines.length)

theorem filter_numbered (keep : Bool) {first low high : ℕ}
    (h : ∀ n, first ≤ n → n < first + lines.length →
      (decide ((low : ℤ) ≤ n) && decide ((n : ℤ) ≤ high)) = keep) :
    (((lines.zipIdx first).map fun line => (⟨line.2, line.1⟩ : NumberedLine)).filter fun line =>
      decide ((low : ℤ) ≤ line.number) && decide ((line.number : ℤ) ≤ high)) =
      if keep then (lines.zipIdx first).map fun line => ⟨line.2, line.1⟩ else [] := by
  have hall : ∀ line ∈ (lines.zipIdx first).map fun line => (⟨line.2, line.1⟩ : NumberedLine),
      (decide ((low : ℤ) ≤ line.number) && decide ((line.number : ℤ) ≤ high)) = keep := by
    intro line hline
    obtain ⟨⟨text, n⟩, hmem, rfl⟩ := List.mem_map.1 hline
    obtain ⟨hlow, hhigh, -⟩ := List.mem_zipIdx hmem
    exact h n hlow (by omega)
  rcases keep with _ | _
  · refine List.filter_eq_nil_iff.2 fun line hline => ?_
    rw [hall line hline]
    decide
  · exact List.filter_eq_self.2 hall

/-- The lines of a range are the ones that stand there. -/
theorem applyLineRange_around {before new after : List String}
    (h : splitLines text = before ++ new ++ after) (hnew : new ≠ []) :
    applyLineRange text ⟨before.length + 1, before.length + new.length⟩ =
      .ok ((new.zipIdx (before.length + 1)).map fun line => ⟨line.2, line.1⟩) := by
  have hlength : 0 < new.length := List.length_pos_iff.2 hnew
  have hcast : ∀ n : ℕ, ((before.length : ℤ) + n) = ((before.length + n : ℕ) : ℤ) := fun n => by
    push_cast
    rfl
  unfold applyLineRange numberLines
  rw [if_neg (by dsimp only; omega), h, List.zipIdx_append, List.zipIdx_append, List.map_append,
    List.map_append, List.filter_append, List.filter_append]
  have hone : ((before.length : ℤ) + 1) = ((before.length + 1 : ℕ) : ℤ) := by push_cast; rfl
  dsimp only
  rw [hone, hcast]
  rw [filter_numbered false (by intro n h1 h2; simp; omega),
    filter_numbered true (by intro n h1 h2; simp; omega),
    filter_numbered false (by intro n h1 h2; simp at h2 h1 ⊢; omega)]
  simp [Nat.add_comm]

theorem linesForChangedRegion_around {text : String} {before new after : List String}
    (h : splitLines text = before ++ new ++ after) :
    ∃ region, linesForChangedRegion text ⟨before.length + 1, before.length + 1 + new.length⟩
        = .ok region ∧
      region.lines.map NumberedLine.text = new.take maxChangedRegionLines ∧
      region.truncated = decide (maxChangedRegionLines < new.length) := by
  have hpositive : ¬ ((before.length : ℤ) + 1 < 1 ∨
      (before.length : ℤ) + 1 + new.length < before.length + 1) := by omega
  unfold linesForChangedRegion
  dsimp only
  rw [if_neg hpositive]
  by_cases hnew : new = []
  · subst hnew
    rw [if_pos (by simp)]
    exact ⟨_, rfl, rfl, rfl⟩
  · have hlength : 0 < new.length := List.length_pos_iff.2 hnew
    rw [if_neg (by omega), show (before.length : ℤ) + 1 + new.length - 1 = before.length + new.length by
      omega, applyLineRange_around h hnew]
    have htexts : ((new.zipIdx (before.length + 1)).map fun line =>
        (⟨line.2, line.1⟩ : NumberedLine)).map NumberedLine.text = new := by
      rw [List.map_map]
      exact List.zipIdx_map_fst _ _
    by_cases hmany : maxChangedRegionLines < new.length
    · refine ⟨_, if_neg ?_, ?_, by simp [hmany]⟩
      · simpa using hmany
      · rw [List.map_take, htexts]
    · refine ⟨_, if_pos ?_, ?_, by simp [hmany]⟩
      · simpa using hmany
      · rw [htexts, List.take_of_length_le (by omega)]

/-- **What the regions of a patched text show**, once the patch is carried out at once. -/
theorem mapM_linesForChangedRegion (hsubstitution : SimultaneousSubstitution lines hunks applied)
    (htext : splitLines text = applied.lines) :
    ∃ regions, applied.regions.mapM (linesForChangedRegion text) = .ok regions ∧
      List.Forall₂ ShowsHunk hunks regions := by
  have heach : List.Forall₂ (fun hunk range => ∃ region,
      linesForChangedRegion text range = .ok region ∧ ShowsHunk hunk region) hunks applied.regions := by
    refine List.forall₂_iff_get.2 ⟨hsubstitution.counts.2.symm, fun i hi hi' => ?_⟩
    have hsplit : hunks = hunks.take i ++ hunks[i] :: hunks.drop (i + 1) := by
      rw [List.cons_getElem_drop_succ, List.take_append_drop]
    obtain ⟨preview, range, -, hrange, haddresses⟩ := hsubstitution.addressed _ _ _ hsplit
    rw [List.length_take_of_le hi.le, List.getElem?_eq_getElem hi', Option.some.injEq] at hrange
    obtain ⟨-, -, -, hcount, hregion, after, hlines, hstart⟩ := haddresses
    rw [List.get_eq_getElem, List.get_eq_getElem, hrange, hregion, hstart, hcount]
    obtain ⟨region, hregion, hshown, htruncated⟩ := linesForChangedRegion_around (htext.trans hlines)
    exact ⟨region, hregion, hshown, htruncated⟩
  clear hsubstitution htext
  generalize applied.regions = ranges at heach ⊢
  induction heach with
  | nil => exact ⟨[], rfl, .nil⟩
  | cons hregion _ ih =>
    obtain ⟨region, hregion, hshows⟩ := hregion
    obtain ⟨regions, hregions, hall⟩ := ih
    exact ⟨region :: regions, mapM_ok_iff.2 (.cons hregion (mapM_ok_iff.1 hregions)), .cons hshows hall⟩

theorem readPatchChangedRegions_ok {fs : FileSystem} {root : PatchRoot} {faults : StageFaults}
    {request : ParsedPatchChangedRegionRead} {answer : WorkspacePatchChangedRegionRead}
    (h : readPatchChangedRegions sha256 fs root faults request = .ok answer) :
    ∃ raw, fs.bytesAt answer.bound.resolved = some raw ∧
      changedRegions raw request.regions = .ok answer.regions := by
  unfold readPatchChangedRegions at h
  obtain ⟨bound, -, h⟩ := except_bind_ok.1 h
  obtain ⟨_, -, h⟩ := except_bind_ok.1 h
  obtain ⟨stated, -, h⟩ := except_bind_ok.1 h
  obtain ⟨entry, -, h⟩ := except_bind_ok.1 h
  obtain ⟨_, -, h⟩ := except_bind_ok.1 h
  obtain ⟨raw, hraw, h⟩ := except_bind_ok.1 h
  obtain ⟨_, -, h⟩ := except_bind_ok.1 h
  obtain ⟨regions, hregions, h⟩ := except_bind_ok.1 h
  cases except_pure_ok.1 h
  exact ⟨raw, bytesAt_of_readBytes (mapError_ok.1 hraw), hregions⟩

/-! ## What is read back -/

/-- What is read from staged bytes that were made of lines. -/
structure ReadBack (encoding : TextEncoding) (newline : NewlineMark) (trailingNewline : Bool)
    (lines : List String) (bytes : ByteArray) (text : String) : Prop where
  decoded : decodeWorkspaceText bytes = some ⟨text, encoding⟩
  split : splitLines text = lines
  trailing : endsInBreak text = trailingNewline
  /-- Every break is of the one kind; there is none in a text of one line that does not end in one. -/
  style : detectNewline text =
    if lines.length = 1 ∧ trailingNewline = false then .none else newline.style

theorem readBack_of_joined {encoding : TextEncoding} (hkept : encoding = .utf8 ∨ encoding = .utf8Bom)
    {lines : List String} (hlines : ∀ line ∈ lines, Unbroken line) (newline : NewlineMark)
    {trailingNewline : Bool} (hback : ReadsBack lines trailingNewline) (hmark : ¬ BeginsWithMark lines) :
    ReadBack encoding newline trailingNewline lines
      (encoded encoding (joinPatchedLines lines newline trailingNewline))
      (joinPatchedLines lines newline trailingNewline) where
  decoded := decode_encoded hkept (head_joinPatchedLines hmark)
  split := (splitLines_join hlines newline trailingNewline).2 hback
  trailing := endsInBreak_join hlines newline hback
  style := detectNewline_join hback.1 hlines newline trailingNewline

theorem plain_applied (hbinary : isBinaryText text = false) (hplain : ∀ hunk ∈ hunks, ∀ line ∈ hunk.newLines, PlainLine line) (h : applyPatchHunks digest (splitLines text) hunks = .ok applied) :
    ∀ line ∈ applied.lines, PlainLine line := by
  intro line hline
  rcases mem_applied h hline with hold | ⟨hunk, hhunk, hnew⟩
  · obtain ⟨hunbroken, hmem⟩ := mem_splitLines hold
    refine ⟨hunbroken, fun hnull => ?_⟩
    unfold isBinaryText includesChar at hbinary
    rw [List.contains_iff_mem.2 (hmem _ hnull)] at hbinary
    cases hbinary
  · exact hplain hunk hhunk line hnew

theorem changedRegions_of_readBack {bytes : ByteArray}
    (h : ReadBack encoding newline trailingNewline lines bytes text)
    (hbinary : isBinaryText text = false) (ranges : List LineRange) :
    changedRegions bytes ranges = ranges.mapM (linesForChangedRegion text) := by
  have hmixed : detectNewline text ≠ .mixed := by
    rw [h.style]
    split_ifs
    · exact fun h => (nomatch h)
    · rcases newline with _ | _ | _
      all_goals exact fun h => (nomatch h)
  have hpass : refuseIf (isBinaryText text = true ∨ detectNewline text = .mixed) PatchRefusal.unsupported
      = .ok () := refuseIf_ok.2 (not_or.2 ⟨by simp [hbinary], hmixed⟩)
  unfold changedRegions decodedText
  rw [h.decoded]
  change (refuseIf (isBinaryText text = true ∨ detectNewline text = .mixed) PatchRefusal.unsupported
    >>= fun _ => ranges.mapM (linesForChangedRegion text)) = _
  rw [hpass]
  rfl

theorem isBinaryText_joined (hplain : ∀ line ∈ lines, PlainLine line)
    (newline : NewlineMark) (trailingNewline : Bool) :
    isBinaryText (joinPatchedLines lines newline trailingNewline) = false := by
  unfold isBinaryText includesChar
  refine Bool.eq_false_iff.2 fun hnull => ?_
  rcases mem_joinPatchedLines (List.contains_iff_mem.1 hnull) with hbreak | ⟨line, hline, hnull⟩
  · revert hbreak
    rcases newline with _ | _ | _
    all_goals decide
  · exact (hplain line hline).2 hnull

/-- **What was previewed is what is read back.**  For an accepted target that is staged, when the patched
text has a line, does not end in an empty one with no break after it and does not begin with a byte order
mark: the staged bytes decode, in the file's encoding, to a text of the very lines the patch gave, with
the file's kind of break and with one at the end if the file had one.  When moreover the listing of the
hunks cannot be noticed (`OrderSafe`), reading the changed regions of the staged bytes shows under each
the new lines of its hunk, the first of them when there are more than are shown. -/
theorem staged_reads_back {value : JsValue} {index : ℕ} {limits : WorkspacePatchLimits}
    {target : ParsedPatchTarget} (htarget : parseTarget value index limits = .ok target)
    {fs : FileSystem} {root : PatchRoot} {faults : StageFaults} {maxFileBytes : ℕ}
    {staged : StagedTarget}
    (hstaged : stageTarget sha256 fs root faults target maxFileBytes = .ok staged) :
    ∃ raw decoded applied, fs.bytesAt staged.bound.resolved = some raw ∧
      decodeWorkspaceText raw = some decoded ∧
      applyPatchHunks (textDigest sha256) (splitLines decoded.text) target.hunks = .ok applied ∧
      staged.regions = applied.regions ∧
      (ReadsBack applied.lines (endsInBreak decoded.text) → ¬ BeginsWithMark applied.lines →
        (∃ text, ReadBack decoded.encoding (markOf (detectNewline decoded.text))
          (endsInBreak decoded.text) applied.lines staged.bytes text) ∧
        (OrderSafe (splitLines decoded.text) target.hunks →
          (∃ regions, changedRegions staged.bytes staged.regions = .ok regions) ∧
          ∀ fs' root' faults' request answer,
            readPatchChangedRegions sha256 fs' root' faults' request = .ok answer →
            fs'.bytesAt answer.bound.resolved = some staged.bytes →
            request.regions = staged.regions →
            List.Forall₂ ShowsHunk target.hunks answer.regions)) := by
  obtain ⟨bound, raw, -, hbytes, hstage⟩ := stageTarget_ok hstaged
  obtain ⟨decoded, applied, hdecoded, hkept, hbinary, hmixed, happlied, rfl⟩ := stageBytes_ok hstage
  refine ⟨raw, decoded, applied, hbytes, hdecoded, happlied, rfl, fun hback hmark => ?_⟩
  have hplain := plain_applied hbinary (parseTarget_plain htarget) happlied
  have hread := readBack_of_joined hkept (fun line hline => (hplain line hline).1)
    (markOf (detectNewline decoded.text)) hback hmark
  refine ⟨⟨_, hread⟩, fun hsafe => ?_⟩
  have hsubstitution := hsafe.substitution (parseTarget_appliedOrder htarget).1 happlied
  obtain ⟨regions, hregions, hshows⟩ := mapM_linesForChangedRegion hsubstitution hread.split
  have hbinary := isBinaryText_joined hplain (markOf (detectNewline decoded.text))
    (endsInBreak decoded.text)
  have hchanged := changedRegions_of_readBack hread hbinary applied.regions
  rw [hregions] at hchanged
  refine ⟨⟨regions, hchanged⟩, fun fs' root' faults' request answer hanswer hfile hrequest => ?_⟩
  obtain ⟨raw', hraw', hregions'⟩ := readPatchChangedRegions_ok hanswer
  rw [hfile, Option.some.injEq] at hraw'
  rw [← hraw', hrequest, hchanged, Except.ok.injEq] at hregions'
  rwa [← hregions']

/-! ### A file of one letter -/

/-- The one hunk of a patch, as it is written. -/
def oneItem (start : ℕ) (oldLines newLines : List String) : JsValue :=
  .object [("oldStart", .number start), ("oldLines", .array (oldLines.map .string)),
    ("newLines", .array (newLines.map .string))]

/-- A patch of one hunk. -/
def onePatch (start : ℕ) (oldLines newLines : List String) : JsValue :=
  .object [("path", .string "a.txt"), ("hunks", .array [oneItem start oldLines newLines])]

/-- The target it is parsed to. -/
def oneTarget (start : ℕ) (oldLines newLines : List String) : ParsedPatchTarget :=
  ⟨0, "a.txt", none, none, [⟨0, none, some start, none, oldLines, newLines⟩]⟩

variable {start : ℕ} {oldLines newLines : List String}

theorem parseTarget_onePatch (h : parseHunks 2048 0 [oneItem start oldLines newLines]
      = .ok [⟨0, none, some start, none, oldLines, newLines⟩]) :
    parseTarget (onePatch start oldLines newLines) 0 ⟨1, 2048⟩
      = .ok (oneTarget start oldLines newLines) := by
  simp only [parseTarget, except_bind_ok, refuseIf_ok, except_pure_ok, exists_const]
  refine ⟨by simp [onePatch, JsValue.isRecord], "a.txt", rfl, _, rfl, (Nat.lt_irrefl 1), _, h, ?_,
    none, rfl, none, rfl, ?_⟩
  · rw [List.mergeSort_singleton]
    exact Bool.false_ne_true
  · rw [List.mergeSort_singleton]
    rfl

/-- What the patch stages in a file that holds the letter "a". -/
def stagedInA (start : ℕ) (oldLines newLines : List String) (applied : PatchHunkApplyResult) :
    StagedTarget :=
  { target := oneTarget start oldLines newLines, bound := ⟨"a.txt", "a.txt", "a.txt"⟩
    bytes := encoded .utf8 (joinPatchedLines applied.lines .lf false), originalBytes := "a".toUTF8
    regions := applied.regions, hunks := applied.hunks }

theorem stageTarget_inA (h : applyPatchHunks (textDigest noDigest) ["a"]
      [⟨0, none, some start, none, oldLines, newLines⟩] = .ok applied)
    (hsize : ¬ (encoded .utf8 (joinPatchedLines applied.lines .lf false)).size > 4096) :
    stageTarget noDigest (oneFile "a".toUTF8) openRoot {} (oneTarget start oldLines newLines) 4096
      = .ok (stagedInA start oldLines newLines applied) := by
  have hdecoded : decodeWorkspaceText "a".toUTF8 = some ⟨"a", .utf8⟩ := decode_utf8 (by decide)
  have hstaged := @stageBytes_of noDigest (oneTarget start oldLines newLines)
    ⟨"a.txt", "a.txt", "a.txt"⟩ 4096 _ _ ⟨"a", .utf8⟩ applied hdecoded (by decide) (by decide)
    (by decide) h rfl hsize
  exact stageTarget_oneFile (by decide +kernel) hstaged

theorem applyPatchHunks_inA {start : ℕ} {oldLines newLines : List String}
    (h : ∀ hunk ∈ [(⟨0, none, some start, none, oldLines, newLines⟩ : ParsedPatchHunk)],
      HunkFits (textDigest noDigest) ["a"] hunk) :
    applyPatchHunks (textDigest noDigest) ["a"] [⟨0, none, some start, none, oldLines, newLines⟩] =
      .ok ⟨splice ["a"] (start - 1) oldLines.length newLines,
        [⟨start, start + newLines.length⟩],
        previewsFrom ["a"] [⟨0, none, some start, none, oldLines, newLines⟩] 0⟩ := by
  refine applyPatchHunks_eq_ok_iff.2 ⟨h, List.pairwise_singleton _ _, ?_⟩
  simp [previewsFrom, regionOf, previewOf, hunkEdit, hunkLine]

/-- A patch of the letter gives some lines and is read back as others. -/
def ReadsAs (start : ℕ) (oldLines newLines lines found : List String) : Prop :=
  parseTarget (onePatch start oldLines newLines) 0 ⟨1, 2048⟩ = .ok (oneTarget start oldLines newLines) ∧
    ∃ staged regions hunks text,
      stageTarget noDigest (oneFile "a".toUTF8) openRoot {} (oneTarget start oldLines newLines) 4096
        = .ok staged ∧
      applyPatchHunks (textDigest noDigest) ["a"] staged.target.hunks = .ok ⟨lines, regions, hunks⟩ ∧
      decodeWorkspaceText staged.bytes = some text ∧ splitLines text.text = found

theorem readsAs_of (text : DecodedWorkspaceText) {found : List String}
    (hparse : parseHunks 2048 0 [oneItem start oldLines newLines]
      = .ok [⟨0, none, some start, none, oldLines, newLines⟩])
    (hfits : ∀ hunk ∈ [(⟨0, none, some start, none, oldLines, newLines⟩ : ParsedPatchHunk)],
      HunkFits (textDigest noDigest) ["a"] hunk)
    (hlines : splice ["a"] (start - 1) oldLines.length newLines = lines)
    (hsize : ¬ (encoded .utf8 (joinPatchedLines lines .lf false)).size > 4096)
    (hdecoded : decodeWorkspaceText (encoded .utf8 (joinPatchedLines lines .lf false)) = some text)
    (hfound : splitLines text.text = found) : ReadsAs start oldLines newLines lines found := by
  have happlied := applyPatchHunks_inA hfits
  rw [hlines] at happlied
  exact ⟨parseTarget_onePatch hparse, _, _, _, text, stageTarget_inA happlied hsize, happlied,
    hdecoded, hfound⟩

/-- The letter replaced by another is read back. -/
theorem replaced_letter_reads_back : ∃ text, ReadBack .utf8 .lf false ["b"] "b".toUTF8 text := by
  have happlied := @applyPatchHunks_inA 1 ["a"] ["b"] (by decide +kernel)
  obtain ⟨raw, decoded, applied, hraw, hdecoded, hagain, -, hread⟩ :=
    staged_reads_back (parseTarget_onePatch (by decide +kernel))
      (stageTarget_inA happlied (by decide +kernel))
  have hraw : "a".toUTF8 = raw := Option.some.inj hraw
  rw [← hraw, decode_utf8 (by decide), Option.some.injEq] at hdecoded
  subst hdecoded
  have happlied' := happlied.symm.trans hagain
  rw [Except.ok.injEq] at happlied'
  subst happlied'
  exact (hread (by decide +kernel) (by
    rintro ⟨line, hline, hmark⟩
    cases hline
    revert hmark
    decide)).1

/-- More lines than a region shows. -/
def longLines : List String := List.replicate 257 "x"

theorem lines_are_lost : ReadsAs 2 [] [""] ["a", ""] ["a"] ∧ ReadsAs 1 ["a"] [] [] [""] ∧
    ReadsAs 1 ["a"] ["\uFEFFb"] ["\uFEFFb"] ["b"] := by
  refine ⟨readsAs_of ⟨"a\n", .utf8⟩ ?_ ?_ ?_ ?_ ?_ ?_, readsAs_of ⟨"", .utf8⟩ ?_ ?_ ?_ ?_ ?_ ?_,
    readsAs_of ⟨"b", .utf8Bom⟩ ?_ ?_ ?_ ?_ ?_ ?_⟩
  all_goals decide +kernel

/-- A region shows the first lines only of a long hunk. -/
theorem long_hunk_is_cut :
    parseTarget (onePatch 1 ["a"] longLines) 0 ⟨1, 2048⟩ = .ok (oneTarget 1 ["a"] longLines) ∧
    ∃ staged regions,
      stageTarget noDigest (oneFile "a".toUTF8) openRoot {} (oneTarget 1 ["a"] longLines) 4096
        = .ok staged ∧
      changedRegions staged.bytes staged.regions = .ok regions ∧
      regions.map (fun region => region.lines.map NumberedLine.text) ≠ [longLines] := by
  have happlied := @applyPatchHunks_inA 1 ["a"] longLines (by decide +kernel)
  have hlines : splice ["a"] (1 - 1) ["a"].length longLines = longLines := by decide +kernel
  rw [hlines] at happlied
  have hplain : ∀ line ∈ longLines, PlainLine line := by
    intro line hline
    rw [List.eq_of_mem_replicate hline]
    exact ⟨by decide, by decide⟩
  have hunmarked : ¬ BeginsWithMark longLines := by
    rintro ⟨line, hline, hmark⟩
    cases hline
    revert hmark
    decide
  have hback : ReadsBack longLines false := by decide +kernel
  have hread := @readBack_of_joined .utf8 (.inl rfl) longLines (fun line hline => (hplain line hline).1)
    .lf false hback hunmarked
  obtain ⟨region, hregion, hshown, -⟩ :=
    @linesForChangedRegion_around _ [] longLines [] (hread.split.trans (List.append_nil _).symm)
  have hregions : [LineRange.mk 1 (1 + longLines.length)].mapM
      (linesForChangedRegion (joinPatchedLines longLines .lf false)) = .ok [region] :=
    mapM_ok_iff.2 (.cons hregion .nil)
  have hchanged := (changedRegions_of_readBack hread (isBinaryText_joined hplain .lf false)
    [LineRange.mk 1 (1 + longLines.length)]).trans hregions
  refine ⟨parseTarget_onePatch (by decide +kernel), _, _,
    stageTarget_inA happlied (by decide +kernel), hchanged, fun hall => ?_⟩
  rw [List.map_singleton, hshown] at hall
  exact absurd (congrArg List.length (List.head_eq_of_cons_eq hall)) (by decide +kernel)

/-- **Texts that are not read back.**  An empty last line, no lines at all and a mark at the start are
lost; a file without a break may be given one; and of a long hunk a region shows the first lines only. -/
theorem not_all_is_read_back :
    detectNewline "a" ≠ detectNewline
      (joinPatchedLines ["a", "b"] (markOf (detectNewline "a")) (endsInBreak "a")) ∧
    ReadsAs 2 [] [""] ["a", ""] ["a"] ∧ ReadsAs 1 ["a"] [] [] [""] ∧
    ReadsAs 1 ["a"] ["\uFEFFb"] ["\uFEFFb"] ["b"] ∧
    parseTarget (onePatch 1 ["a"] longLines) 0 ⟨1, 2048⟩ = .ok (oneTarget 1 ["a"] longLines) ∧
    ∃ staged regions,
      stageTarget noDigest (oneFile "a".toUTF8) openRoot {} (oneTarget 1 ["a"] longLines) 4096
        = .ok staged ∧
      changedRegions staged.bytes staged.regions = .ok regions ∧
      regions.map (fun region => region.lines.map NumberedLine.text) ≠ [longLines] :=
  ⟨by decide +kernel, lines_are_lost.1, lines_are_lost.2.1, lines_are_lost.2.2, long_hunk_is_cut⟩

end Falryn.Workspace
