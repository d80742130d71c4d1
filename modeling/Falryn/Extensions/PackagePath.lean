import Falryn.Foundation.CodeUnits
import Falryn.Lib.Splitting

/-!
# Package paths

`packageRelativePath` of `domain/extensions/canonical.ts`: the one spelling a path inside a package has.
The Unicode tables are those of the runtime.  Of the two mappings that use them this file relies on one
thing: a solidus is mapped to itself and nothing around it depends on what stands on its other side.
-/

namespace Falryn.Extensions

open Splitting

/-- The mappings of texts that rest on the Unicode tables. -/
structure UnicodeTables where
  /-- `text.normalize("NFC")` -/
  normalizeNfc : CodeUnits → CodeUnits
  /-- `text.toLowerCase()` -/
  toLowerCase : CodeUnits → CodeUnits
  nfc_parts : ∀ text, (normalizeNfc text).splitOn 0x2f = (text.splitOn 0x2f).map normalizeNfc
  nfc_backslash : ∀ text, (0x5c : UInt16) ∉ text → (0x5c : UInt16) ∉ normalizeNfc text
  lower_parts : ∀ text, (toLowerCase text).splitOn 0x2f = (text.splitOn 0x2f).map toLowerCase

/-- `text.replace(/\r\n?/gu, "\n")` -/
def replaceReturns : CodeUnits → CodeUnits
  | [] => []
  | 0xd :: 0xa :: rest => 0xa :: replaceReturns rest
  | u :: rest => (if u = 0xd then 0xa else u) :: replaceReturns rest

example (text : CodeUnits) : (replaceReturns text).length ≤ text.length := by
  fun_induction replaceReturns text <;> grind

/-- `canonicalText`.  It throws where a half of a pair stands alone. -/
def canonicalText (tables : UnicodeTables) (value : CodeUnits) : Option CodeUnits :=
  if isWellFormed value then some (replaceReturns (tables.normalizeNfc value)) else none

/-- A control character or a colon. -/
def isForbidden (u : UInt16) : Bool := u < 0x20 || (0x7f ≤ u && u < 0xa0) || u = 0x3a

/-- The lower case letter of the basic ones, everything else itself. -/
def lowerLetter (u : UInt16) : UInt16 := if 0x41 ≤ u ∧ u ≤ 0x5a then u + 0x20 else u

/-- The names a host keeps for its devices. -/
def isDeviceName (name : CodeUnits) : Bool :=
  ([utf16 "con", utf16 "prn", utf16 "aux", utf16 "nul"].contains name)
    || (List.range 9).any fun i =>
      let digit : CodeUnits := [(0x31 + i).toUInt16]
      name == utf16 "com" ++ digit || name == utf16 "lpt" ++ digit

/-- A part no portable path has. -/
def isBadPart (part : CodeUnits) : Bool :=
  part == [] || part == [0x2e] || part == [0x2e, 0x2e]
    || part.getLast? == some 0x2e || part.getLast? == some 0x20
    || isDeviceName ((part.takeWhile (· ≠ 0x2e)).map lowerLetter)

/-- `path.replace(/^\.\//u, "")` -/
def dropDotSlash : CodeUnits → CodeUnits
  | 0x2e :: 0x2f :: rest => rest
  | text => text

/-- `packageRelativePath`: outside `none` is what it throws, inside `null`. -/
def packageRelativePath (tables : UnicodeTables) (value : CodeUnits) : Option (Option CodeUnits) :=
  (canonicalText tables value).map fun text =>
    let normalized := dropDotSlash (text.map fun u => if u = 0x5c then 0x2f else u)
    if normalized = [] ∨ 1024 < normalized.length ∨ normalized.any isForbidden then none
    else if (normalized.splitOn 0x2f).any isBadPart then none
    else some normalized

/-- A path that `packageRelativePath` leaves as it is. -/
def Portable (tables : UnicodeTables) (path : CodeUnits) : Prop :=
  packageRelativePath tables path = some (some path)

/-! ## What the two mappings do around a solidus -/

variable {f : CodeUnits → CodeUnits}

/-- A mapping that works on the parts of a text alone, joined to what stands before a solidus. -/
theorem map_append_slash
    (hf : ∀ text, (f text).splitOn 0x2f = (text.splitOn 0x2f).map f) (before rest : CodeUnits) :
    f (before ++ 0x2f :: rest) = f before ++ 0x2f :: f rest := by
  have hparts : (f (before ++ 0x2f :: rest)).splitOn 0x2f = (f before ++ 0x2f :: f rest).splitOn 0x2f := by
    rw [hf, List.splitOn_append_cons_self, List.splitOn_append_cons_self, List.map_append, hf, hf]
  calc f (before ++ 0x2f :: rest) = [0x2f].intercalate ((f (before ++ 0x2f :: rest)).splitOn 0x2f) :=
        (List.intercalate_splitOn 0x2f).symm
    _ = f before ++ 0x2f :: f rest := by rw [hparts, List.intercalate_splitOn]

theorem UnicodeTables.lower_append_slash (tables : UnicodeTables) (before rest : CodeUnits) :
    tables.toLowerCase (before ++ 0x2f :: rest)
      = tables.toLowerCase before ++ 0x2f :: tables.toLowerCase rest :=
  map_append_slash tables.lower_parts before rest

/-- A mapping that works on the parts of a text alone keeps how many there are. -/
theorem length_parts
    (hf : ∀ text, (f text).splitOn 0x2f = (text.splitOn 0x2f).map f) (text : CodeUnits) :
    ((f text).splitOn 0x2f).length = (text.splitOn 0x2f).length := by
  rw [hf, List.length_map]

theorem length_parts_lt (part rest : CodeUnits) :
    (rest.splitOn 0x2f).length < ((part ++ 0x2f :: rest).splitOn 0x2f).length := by
  have hne := List.length_pos_of_ne_nil (List.splitOn_ne_nil 0x2f part)
  rw [List.splitOn_append_cons_self, List.length_append]
  omega

/-! ## When a path is portable -/

variable {text : CodeUnits}

theorem replaceReturns_eq (h : (0xd : UInt16) ∉ text) : replaceReturns text = text := by
  induction text using replaceReturns.induct with
  | case1 => rfl
  | case2 rest => exact absurd List.mem_cons_self h
  | case3 u rest hpair ih =>
    have hu : u ≠ 0xd := fun hu => h (hu ▸ List.mem_cons_self)
    rw [replaceReturns, if_neg hu, ih fun hmem => h (List.mem_cons_of_mem _ hmem)]
    exact hpair

theorem mem_replaceReturns (h : (0xd : UInt16) ∈ text) : (0xa : UInt16) ∈ replaceReturns text := by
  induction text using replaceReturns.induct with
  | case1 => exact absurd h List.not_mem_nil
  | case2 rest => exact List.mem_cons_self
  | case3 _ rest hpair ih =>
    rw [replaceReturns]
    · rcases List.mem_cons.1 h with rfl | h
      · exact List.mem_cons_self
      · exact List.mem_cons_of_mem _ (ih h)
    · exact hpair

theorem not_mem_replaceReturns {u : UInt16} (hu : u ≠ 0xa) (h : u ∉ text) :
    u ∉ replaceReturns text := by
  induction text using replaceReturns.induct with
  | case1 => exact h
  | case2 rest ih =>
    rw [replaceReturns, List.mem_cons]
    exact not_or_intro hu (ih fun hmem => h (List.mem_cons_of_mem _ (List.mem_cons_of_mem _ hmem)))
  | case3 _ rest hpair ih =>
    rw [replaceReturns]
    · refine List.not_mem_cons_of_ne_of_not_mem ?_ (ih fun hmem => h (List.mem_cons_of_mem _ hmem))
      split_ifs with hv
      · exact hu
      · exact fun heq => h (heq ▸ List.mem_cons_self)
    · exact hpair

theorem map_backslash (h : (0x5c : UInt16) ∉ text) :
    text.map (fun u => if u = 0x5c then 0x2f else u) = text := by
  have hself : ∀ u ∈ text, (if u = 0x5c then 0x2f else u) = u := by
    intro u hu
    have hne : u ≠ 0x5c := fun hback => h (hback ▸ hu)
    exact if_neg hne
  exact (List.map_congr_left hself).trans (List.map_id' text)

theorem dropDotSlash_cases (text : CodeUnits) :
    dropDotSlash text = text ∨ text = 0x2e :: 0x2f :: dropDotSlash text := by
  unfold dropDotSlash
  split
  · exact Or.inr rfl
  · exact Or.inl rfl

variable {path : CodeUnits}

theorem not_isForbidden_return (h : path.any isForbidden = false) :
    (0xd : UInt16) ∉ path ∧ (0xa : UInt16) ∉ path := by
  rw [List.any_eq_false] at h
  exact ⟨fun hmem => h _ hmem (by decide), fun hmem => h _ hmem (by decide)⟩

variable {tables : UnicodeTables}

/-- What the mapping of texts leaves as it is when it makes the path the path. -/
theorem normalizeNfc_of_dropDotSlash (hforbidden : path.any isForbidden = false)
    (h : dropDotSlash (replaceReturns (tables.normalizeNfc path)) = path) :
    tables.normalizeNfc path = path := by
  have hreturn : (0xd : UInt16) ∉ tables.normalizeNfc path := by
    intro hmem
    have hline := mem_replaceReturns hmem
    rcases dropDotSlash_cases (replaceReturns (tables.normalizeNfc path)) with hdrop | hdrop
    · exact (not_isForbidden_return hforbidden).2 (h ▸ hdrop.symm ▸ hline)
    · rw [hdrop, h, List.mem_cons, List.mem_cons] at hline
      exact (not_isForbidden_return hforbidden).2 ((hline.resolve_left (by decide)).resolve_left (by decide))
  rw [replaceReturns_eq hreturn] at h
  rcases dropDotSlash_cases (tables.normalizeNfc path) with hdrop | hdrop
  · exact hdrop.symm.trans h
  · -- a part too many: the mapping keeps the number of parts
    have hlength := length_parts tables.nfc_parts path
    have hlt := length_parts_lt [0x2e] path
    rw [hdrop, h] at hlength
    rw [List.singleton_append, hlength] at hlt
    exact absurd hlt (lt_irrefl _)

/-- **When a path without a backslash is portable.** -/
theorem portable_iff (hback : (0x5c : UInt16) ∉ path) :
    Portable tables path ↔ isWellFormed path = true ∧ tables.normalizeNfc path = path ∧ path ≠ []
      ∧ path.length ≤ 1024 ∧ path.any isForbidden = false
      ∧ (path.splitOn 0x2f).any isBadPart = false := by
  unfold Portable packageRelativePath canonicalText
  have hbacks : (0x5c : UInt16) ∉ replaceReturns (tables.normalizeNfc path) :=
    not_mem_replaceReturns (by decide) (tables.nfc_backslash path hback)
  constructor
  · intro h
    split_ifs at h with hwell
    · simp only [Option.map_some, Option.some.injEq, map_backslash hbacks] at h
      split_ifs at h with hbad hparts
      obtain ⟨hne, hlength, hforbidden⟩ := not_or.1 hbad |>.imp_right not_or.1
      have hpath := Option.some.inj h
      rw [hpath] at hne hlength hforbidden hparts
      rw [Bool.not_eq_true] at hforbidden hparts
      exact ⟨hwell, normalizeNfc_of_dropDotSlash hforbidden hpath, hne, not_lt.1 hlength,
        hforbidden, hparts⟩
    · cases h
  · rintro ⟨hwell, hnfc, hne, hlength, hforbidden, hparts⟩
    have hdot : dropDotSlash path = path := by
      rcases dropDotSlash_cases path with hdrop | hdrop
      · exact hdrop
      · rw [hdrop, ← List.singleton_append, List.singleton_append,
          show (0x2e :: 0x2f :: dropDotSlash path : CodeUnits) = [0x2e] ++ 0x2f :: dropDotSlash path from rfl,
          List.splitOn_append_cons_self, List.any_append, Bool.or_eq_false_iff] at hparts
        exact absurd hparts.1 (by decide +kernel)
    rw [if_pos hwell, hnfc, replaceReturns_eq (not_isForbidden_return hforbidden).1, Option.map_some,
      map_backslash hback, hdot]
    simp only [hne, not_lt.2 hlength, hforbidden, hparts, Bool.false_eq_true, or_self, if_false]

theorem Portable.not_mem_backslash (h : Portable tables path) : (0x5c : UInt16) ∉ path := by
  unfold Portable packageRelativePath at h
  rw [Option.map_eq_some_iff] at h
  obtain ⟨text, -, h⟩ := h
  dsimp only at h
  split_ifs at h
  have hmap : (0x5c : UInt16) ∉ text.map fun u => if u = 0x5c then 0x2f else u := by
    rw [List.mem_map]
    rintro ⟨u, -, hu⟩
    split_ifs at hu with hback
    · exact absurd hu (by decide)
    · exact hback hu
  rw [← Option.some.inj h]
  intro hmem
  refine hmap ?_
  rcases dropDotSlash_cases (text.map fun u => if u = 0x5c then 0x2f else u) with hdrop | hdrop
  · rwa [hdrop] at hmem
  · rw [hdrop]
    exact List.mem_cons_of_mem _ (List.mem_cons_of_mem _ hmem)

/-- Every part of a portable path is a good one. -/
theorem Portable.parts (h : Portable tables path) : (path.splitOn 0x2f).any isBadPart = false :=
  ((portable_iff h.not_mem_backslash).1 h).2.2.2.2.2

theorem Portable.ne_nil (h : Portable tables path) : path ≠ [] :=
  ((portable_iff h.not_mem_backslash).1 h).2.2.1

/-- No empty part stands before a solidus, between two or after one. -/
theorem Portable.slash (before rest : CodeUnits)
    (h : Portable tables (before ++ 0x2f :: rest)) : before ≠ [] ∧ rest ≠ [] ∧ before ≠ [0x2e] := by
  have hparts := h.parts
  rw [List.splitOn_append_cons_self, List.any_append, Bool.or_eq_false_iff] at hparts
  refine ⟨?_, ?_, ?_⟩
  · rintro rfl
    exact absurd hparts.1 (by decide +kernel)
  · rintro rfl
    exact absurd hparts.2 (by decide +kernel)
  · rintro rfl
    exact absurd hparts.1 (by decide +kernel)

/-- **What follows a solidus in a portable path is portable.** -/
theorem Portable.rest {top rest : CodeUnits}
    (h : Portable tables (top ++ 0x2f :: rest)) : Portable tables rest := by
  have hback := h.not_mem_backslash
  have hrest : (0x5c : UInt16) ∉ rest :=
    fun hmem => hback (List.mem_append_right _ (List.mem_cons_of_mem _ hmem))
  rw [portable_iff hback] at h
  rw [portable_iff hrest]
  obtain ⟨hwell, hnfc, -, hlength, hforbidden, hparts⟩ := h
  rw [isWellFormed_append_cons (by decide), Bool.and_eq_true] at hwell
  rw [List.any_append, List.any_cons, Bool.or_eq_false_iff, Bool.or_eq_false_iff] at hforbidden
  rw [List.splitOn_append_cons_self, List.any_append, Bool.or_eq_false_iff] at hparts
  refine ⟨hwell.2, ?_, ?_, ?_, hforbidden.2.2, hparts.2⟩
  · have hmapped := tables.nfc_parts (top ++ 0x2f :: rest)
    rw [hnfc, List.splitOn_append_cons_self, List.map_append] at hmapped
    have hright := (List.append_inj hmapped (by rw [List.length_map])).2
    calc tables.normalizeNfc rest = [0x2f].intercalate ((tables.normalizeNfc rest).splitOn 0x2f) :=
          (List.intercalate_splitOn 0x2f).symm
      _ = rest := by rw [tables.nfc_parts, ← hright, List.intercalate_splitOn]
  · rintro rfl
    exact absurd hparts.2 (by decide +kernel)
  · rw [List.length_append, List.length_cons] at hlength
    omega

end Falryn.Extensions
