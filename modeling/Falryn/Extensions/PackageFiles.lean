import Falryn.Extensions.PackageWriting

/-!
# The files of a package

When the checks over all files of an archive pass (`packageFiles_ok_iff`), and that they then are the
files of the archive, relative to its root and in path order (`unpacked_of_packageFiles`).
-/

namespace Falryn.Extensions

variable {tables : UnicodeTables}

variable {files : List PackageFile}

theorem foldedPaths_eq_some {directories : List CodeUnits}
    {seen folded : List CodeUnits} : foldedPaths tables directories seen files = some folded ↔
      folded = seen ++ files.map (fun file => tables.toLowerCase file.path)
      ∧ (files.map fun file => tables.toLowerCase file.path).Nodup
      ∧ (∀ file ∈ files, tables.toLowerCase file.path ∉ seen) ∧ ∀ file ∈ files, file.path ∉ directories := by
  induction files generalizing seen with
  | nil =>
    rw [foldedPaths, Option.some.injEq, List.map_nil, List.append_nil, eq_comm]
    exact ⟨fun h => ⟨h, List.nodup_nil, nofun,
      nofun⟩, And.left⟩
  | cons file files ih =>
    rw [foldedPaths]
    by_cases hbad : tables.toLowerCase file.path ∈ seen ∨ file.path ∈ directories
    · rw [if_pos hbad]
      refine ⟨nofun, fun ⟨_, _, hseen, hdirectories⟩ => ?_⟩
      rcases hbad with hbad | hbad
      · exact absurd hbad (hseen file List.mem_cons_self)
      · exact absurd hbad (hdirectories file List.mem_cons_self)
    · obtain ⟨hseen, hdirectory⟩ := not_or.1 hbad
      rw [if_neg hbad, ih, List.map_cons, List.nodup_cons, List.append_assoc, List.singleton_append]
      constructor
      · rintro ⟨rfl, hnodup, hunseen, hdirectories⟩
        refine ⟨rfl, ⟨fun hmem => ?_, hnodup⟩, ?_, ?_⟩
        · obtain ⟨other, hother, heq⟩ := List.mem_map.1 hmem
          exact hunseen other hother (heq ▸ List.mem_append_right _ List.mem_cons_self)
        · intro other hother
          rcases List.mem_cons.1 hother with rfl | hother
          · exact hseen
          · exact fun hmem => hunseen other hother (List.mem_append_left _ hmem)
        · intro other hother
          rcases List.mem_cons.1 hother with rfl | hother
          · exact hdirectory
          · exact hdirectories other hother
      · rintro ⟨rfl, ⟨hnew, hnodup⟩, hunseen, hdirectories⟩
        refine ⟨rfl, hnodup, fun other hother hmem => ?_,
          fun other hother => hdirectories other (List.mem_cons_of_mem _ hother)⟩
        rcases List.mem_append.1 hmem with hmem | hmem
        · exact hunseen other (List.mem_cons_of_mem _ hother) hmem
        · exact hnew (List.mem_singleton.1 hmem ▸ List.mem_map_of_mem hother)

/-- The paths of files do not meet: not each other, not a directory's, not one above another file. -/
structure Apart (tables : UnicodeTables) (w : Walk) : Prop where
  distinct : (w.files.map fun file => tables.toLowerCase file.path).Nodup
  directories : ∀ file ∈ w.files, file.path ∉ w.directories
  above : ∀ file ∈ w.files, ∀ other ∈ w.files, ∀ path ∈ ancestors other.path,
    tables.toLowerCase file.path ≠ tables.toLowerCase path

/-- The files relative to the top directory they share. -/
def belowTop (top : CodeUnits) (files : List PackageFile) : List PackageFile :=
  files.map fun file => ⟨file.path.drop (top.length + 1), file.bytes⟩

/-- All files lie below one directory. -/
def Below (top : CodeUnits) (files : List PackageFile) : Prop :=
  (0x2f : UInt16) ∉ top ∧ ∀ file ∈ files, ∃ rest, file.path = top ++ 0x2f :: rest

variable {top : CodeUnits} {path : CodeUnits}

theorem topOf_below {rest : CodeUnits} (h : (0x2f : UInt16) ∉ top) : topOf (top ++ 0x2f :: rest) = top := by
  rw [topOf, List.splitOn_append_cons_self, List.splitOn_eq_singleton h]
  rfl

theorem topOf_append (h : (0x2f : UInt16) ∈ path) :
    ∃ rest, path = topOf path ++ 0x2f :: rest ∧ (0x2f : UInt16) ∉ topOf path := by
  obtain ⟨before, rest, rfl, hbefore⟩ := List.eq_append_cons_of_mem h
  exact ⟨rest, by rw [topOf_below hbefore], by rwa [topOf_below hbefore]⟩

/-- **When the tops of files are one**, and every file lies below it. -/
theorem dedup_tops :
    ((files.map fun file => topOf file.path).dedup = [top] ∧ ∀ file ∈ files, (0x2f : UInt16) ∈ file.path)
      ↔ files ≠ [] ∧ Below top files := by
  constructor
  · rintro ⟨hdedup, hslash⟩
    have htop : ∀ file ∈ files, topOf file.path = top := by
      intro file hfile
      have hmem : topOf file.path ∈ (files.map fun file => topOf file.path).dedup :=
        List.mem_dedup.2 (List.mem_map_of_mem hfile)
      rw [hdedup] at hmem
      exact List.mem_singleton.1 hmem
    have hne : files ≠ [] := by
      rintro rfl
      cases hdedup
    refine ⟨hne, ?_, fun file hfile => ?_⟩
    · obtain ⟨file, rest, rfl⟩ := List.exists_cons_of_ne_nil hne
      obtain ⟨_, _, hnot⟩ := topOf_append (hslash file List.mem_cons_self)
      rwa [htop file List.mem_cons_self] at hnot
    · obtain ⟨rest, hpath, _⟩ := topOf_append (hslash file hfile)
      rw [htop file hfile] at hpath
      exact ⟨rest, hpath⟩
  · rintro ⟨hne, htop, hbelow⟩
    have hmap : (files.map fun file => topOf file.path) = List.replicate files.length top := by
      rw [List.map_eq_replicate_iff]
      intro file hfile
      obtain ⟨rest, hpath⟩ := hbelow file hfile
      rw [hpath, topOf_below htop]
    refine ⟨?_, fun file hfile => ?_⟩
    · rw [hmap, List.replicate_dedup (List.length_pos_of_ne_nil hne).ne']
    · obtain ⟨rest, hpath⟩ := hbelow file hfile
      rw [hpath]
      exact List.mem_append_right _ List.mem_cons_self

variable {w : Walk}

/-- **When the checks over all files pass**, and what they answer. -/
theorem packageFiles_ok_iff : packageFiles tables w = .ok files ↔ Apart tables w
      ∧ if utf16 "plugin.json" ∈ w.files.map PackageFile.path then files = sortFiles w.files
        else w.files ≠ [] ∧ ∃ top, Below top w.files ∧ files = sortFiles (belowTop top w.files) := by
  have hmanifest : (w.files.any fun file => file.path = utf16 "plugin.json") = true
      ↔ utf16 "plugin.json" ∈ w.files.map PackageFile.path := by
    simp only [List.any_eq_true, decide_eq_true_eq, List.mem_map]
  rw [packageFiles]
  cases hfolded : foldedPaths tables w.directories [] w.files with
  | none =>
    refine ⟨nofun, fun ⟨hapart, _⟩ => ?_⟩
    have hsome := foldedPaths_eq_some.2 ⟨rfl, hapart.distinct, fun _ _ => List.not_mem_nil, hapart.directories⟩
    rw [hfolded] at hsome
    cases hsome
  | some =>
    obtain ⟨rfl, hdistinct, -, hdirectories⟩ := foldedPaths_eq_some.1 hfolded
    rw [List.nil_append]
    dsimp only
    by_cases habove : (w.files.any fun file => (ancestors file.path).any fun path =>
        tables.toLowerCase path ∈ w.files.map fun file => tables.toLowerCase file.path) = true
    · rw [if_pos habove]
      refine ⟨nofun, fun ⟨hapart, _⟩ => ?_⟩
      simp only [List.any_eq_true, decide_eq_true_eq, List.mem_map] at habove
      obtain ⟨other, hother, path, hpath, file, hfile, heq⟩ := habove
      exact absurd heq (hapart.above file hfile other hother path hpath)
    · have hapart : Apart tables w := by
        refine ⟨hdistinct, hdirectories, fun file hfile other hother path hpath heq => habove ?_⟩
        simp only [List.any_eq_true, decide_eq_true_eq, List.mem_map]
        exact ⟨other, hother, path, hpath, file, hfile, heq⟩
      rw [if_neg habove]
      by_cases hroot : utf16 "plugin.json" ∈ w.files.map PackageFile.path
      · rw [if_pos (hmanifest.2 hroot), if_pos hroot, Except.ok.injEq, eq_comm]
        exact ⟨fun h => ⟨hapart, h⟩, And.right⟩
      · rw [if_neg fun h => hroot (hmanifest.1 h), if_neg hroot]
        constructor
        · intro h
          split at h
          · rename_i top htops
            split_ifs at h with hbare
            rw [Bool.not_eq_true, List.any_eq_false] at hbare
            have hslash : ∀ file ∈ w.files, (0x2f : UInt16) ∈ file.path := fun file hfile => by
              simpa using hbare file hfile
            obtain ⟨hne, hbelow⟩ := dedup_tops.1 ⟨htops, hslash⟩
            exact ⟨hapart, hne, top, hbelow, (Except.ok.inj h).symm⟩
          · cases h
        · rintro ⟨-, hne, top, hbelow, rfl⟩
          obtain ⟨htops, hslash⟩ := dedup_tops.2 ⟨hne, hbelow⟩
          have hbare : ¬ (w.files.any fun file => (0x2f : UInt16) ∉ file.path) = true := by
            rw [Bool.not_eq_true, List.any_eq_false]
            exact fun file hfile => by simpa using hslash file hfile
          simp only [htops]
          rw [if_neg hbare]
          rfl

/-! ## In path order -/

theorem pathKey_inj {other : CodeUnits} (h : pathKey path = pathKey other) : path = other :=
  List.map_injective_iff.2 (fun _ _ => UInt16.toNat_inj.1) h

/-- Files of different paths are sorted strictly. -/
theorem pairwise_sortFiles (h : (files.map PackageFile.path).Nodup) :
    (sortFiles files).Pairwise fun a b => pathKey a.path < pathKey b.path := by
  have hsorted : (sortFiles files).Pairwise fun a b => pathKey a.path ≤ pathKey b.path := by
    have htrans : ∀ a b c : PackageFile, decide (pathKey a.path ≤ pathKey b.path) = true →
        decide (pathKey b.path ≤ pathKey c.path) = true → decide (pathKey a.path ≤ pathKey c.path) = true :=
      fun a b c hab hbc => decide_eq_true (le_trans (of_decide_eq_true hab) (of_decide_eq_true hbc))
    have htotal : ∀ a b : PackageFile, (decide (pathKey a.path ≤ pathKey b.path)
        || decide (pathKey b.path ≤ pathKey a.path)) = true := by
      intro a b
      rw [Bool.or_eq_true, decide_eq_true_eq, decide_eq_true_eq]
      exact le_total _ _
    have hpairwise := List.pairwise_mergeSort htrans htotal files
    exact hpairwise.imp fun hle => of_decide_eq_true hle
  have hdistinct : (sortFiles files).Pairwise fun a b => a.path ≠ b.path := by
    have hperm : ((sortFiles files).map PackageFile.path).Perm (files.map PackageFile.path) :=
      (List.mergeSort_perm _ _).map _
    exact List.pairwise_map.1 (hperm.nodup_iff.2 h)
  exact (hsorted.and hdistinct).imp fun ⟨hle, hne⟩ => lt_of_le_of_ne hle fun heq => hne (pathKey_inj heq)

theorem Apart.nodup_paths (h : Apart tables w) : (w.files.map PackageFile.path).Nodup := by
  have hdistinct := h.distinct
  rw [show (w.files.map fun file => tables.toLowerCase file.path)
    = (w.files.map PackageFile.path).map tables.toLowerCase by rw [List.map_map]; rfl] at hdistinct
  exact hdistinct.of_map _

theorem Below.rejoin (h : Below top files) :
    (belowTop top files).map (fun file => (⟨top ++ [0x2f] ++ file.path, file.bytes⟩ : PackageFile)) = files := by
  rw [belowTop, List.map_map]
  refine (List.map_congr_left fun file hfile => ?_).trans (List.map_id files)
  obtain ⟨rest, hpath⟩ := h.2 file hfile
  have hdrop : file.path.drop (top.length + 1) = rest := by
    rw [hpath, ← List.drop_drop, List.drop_left, List.drop_one, List.tail_cons]
  show (⟨top ++ [0x2f] ++ file.path.drop (top.length + 1), file.bytes⟩ : PackageFile) = file
  rw [hdrop, List.append_assoc, List.singleton_append, ← hpath]

/-- **The files of a package are the files of the archive**, relative to its root and in path order. -/
theorem unpacked_of_packageFiles
    (h : packageFiles tables w = .ok files) : Unpacked w.files files := by
  obtain ⟨hapart, hfiles⟩ := packageFiles_ok_iff.1 h
  by_cases hroot : utf16 "plugin.json" ∈ w.files.map PackageFile.path
  · rw [if_pos hroot] at hfiles
    subst hfiles
    refine ⟨[], by rw [RootOf, if_pos hroot], ?_, pairwise_sortFiles hapart.nodup_paths⟩
    rw [show (fun file : PackageFile => (⟨[] ++ file.path, file.bytes⟩ : PackageFile)) = id from rfl, List.map_id]
    exact List.mergeSort_perm _ _
  · rw [if_neg hroot] at hfiles
    obtain ⟨-, top, hbelow, rfl⟩ := hfiles
    refine ⟨top ++ [0x2f], ?_, ?_, pairwise_sortFiles ?_⟩
    · rw [RootOf, if_neg hroot]
      refine ⟨top, hbelow.1, rfl, fun path hpath => ?_⟩
      obtain ⟨file, hfile, rfl⟩ := List.mem_map.1 hpath
      obtain ⟨rest, hpath⟩ := hbelow.2 file hfile
      exact ⟨rest, by rw [hpath, List.append_assoc, List.singleton_append]⟩
    · have hperm := (List.mergeSort_perm (belowTop top w.files)
        fun a b => decide (pathKey a.path ≤ pathKey b.path)).map
          fun file => (⟨top ++ [0x2f] ++ file.path, file.bytes⟩ : PackageFile)
      rwa [hbelow.rejoin] at hperm
    · have hnodup := hapart.nodup_paths
      rw [← hbelow.rejoin, List.map_map] at hnodup
      rw [show (PackageFile.path ∘ fun file => (⟨top ++ [0x2f] ++ file.path, file.bytes⟩ : PackageFile))
        = (fun path => top ++ [0x2f] ++ path) ∘ PackageFile.path from rfl, ← List.map_map] at hnodup
      exact hnodup.of_map _

end Falryn.Extensions
