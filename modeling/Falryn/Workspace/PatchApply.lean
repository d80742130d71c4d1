import Falryn.Workspace.PatchParse

/-!
# What an applied patch is

`applyPatchHunks` is taken apart into a condition on each hunk by itself (`HunkFits`), the
disjointness of the edits the hunks stand for, and the numbers and lines it computes
(`applyPatchHunks_eq_ok_iff`).  Nothing here supposes that the hunks come in any particular order.
-/

namespace Falryn.Workspace

open Substitution (Edit splice)

/-! ## Where a hunk stands -/

/-- The 1-based line a hunk is about: the one it names, or else the first occurrence of its
expected lines. -/
def hunkLine (lines : List String) (h : ParsedPatchHunk) : ℕ :=
  h.oldStart.getD ((matchesOf lines h.oldLines).headD 1)

/-- The edit of the original lines a hunk stands for. -/
def hunkEdit (lines : List String) (h : ParsedPatchHunk) : Edit String :=
  ⟨hunkLine lines h - 1, h.oldLines.length, h.newLines⟩

@[simp] theorem hunkLine_unlisted (lines : List String) (h : ParsedPatchHunk) :
    hunkLine lines h.unlisted = hunkLine lines h := rfl

@[simp] theorem hunkEdit_unlisted (lines : List String) (h : ParsedPatchHunk) :
    hunkEdit lines h.unlisted = hunkEdit lines h := rfl

theorem map_hunkEdit_unlisted (lines : List String) (hs : List ParsedPatchHunk) :
    (hs.map ParsedPatchHunk.unlisted).map (hunkEdit lines) = hs.map (hunkEdit lines) := by
  rw [List.map_map]
  rfl

/-- A hunk with its line filled in. -/
def located (lines : List String) (h : ParsedPatchHunk) : ParsedPatchHunk :=
  { h with oldStart := some (hunkLine lines h) }

variable (sha256 : String → String)

/-- Whether the address of one hunk resolves. -/
def Resolves (lines : List String) (h : ParsedPatchHunk) : Prop :=
  addressMatches sha256 h h.oldLines = true
    ∧ (∀ s, h.oldStart = some s → h.addressDigest.isSome → 0 < h.oldLines.length →
        s ≠ 0 ∧ s - 1 + h.oldLines.length ≤ lines.length
          ∧ addressMatches sha256 h (sliceLines lines (s - 1) h.oldLines.length) = true)
    ∧ (h.oldStart = none → ∃ s, matchesOf lines h.oldLines = [s])

/-- Whether one hunk, by itself, can be applied: its address resolves and its expected lines stand
there. -/
def HunkFits (lines : List String) (h : ParsedPatchHunk) : Prop :=
  Resolves sha256 lines h ∧ hunkApplies lines (hunkLine lines h) h.oldLines = true

variable {lines : List String} {h : ParsedPatchHunk}

theorem hunkFits_unlisted : HunkFits sha256 lines h.unlisted ↔ HunkFits sha256 lines h := Iff.rfl

variable {sha256}

theorem HunkFits.line_pos (hf : HunkFits sha256 lines h) : 1 ≤ hunkLine lines h := by
  have happ := hf.2
  rw [hunkApplies] at happ
  split at happ <;> simp at happ <;> omega

/-- A hunk that fits names a range of the file. -/
theorem HunkFits.stop_le
    (hf : HunkFits sha256 lines h) : (hunkEdit lines h).stop ≤ lines.length := by
  have happ := hf.2
  rw [hunkApplies] at happ
  rw [Edit.stop, hunkEdit]
  split at happ <;> simp at happ <;> simp only <;> omega

/-- A hunk that fits finds the lines it expects. -/
theorem HunkFits.lines_eq (hf : HunkFits sha256 lines h) :
    sliceLines lines (hunkLine lines h - 1) h.oldLines.length = h.oldLines := by
  have happ := hf.2
  rw [hunkApplies] at happ
  split at happ
  · rename_i h0
    rw [h0, sliceLines, List.take_zero, eq_comm, ← List.length_eq_zero_iff]
    exact h0
  · simp only [Bool.and_eq_true, decide_eq_true_eq] at happ
    exact happ.2

/-! ## The resolving pass -/

theorem resolveHunk_ok {h' : ParsedPatchHunk} :
    resolveHunk sha256 lines h = .ok h' ↔ h' = located lines h ∧ Resolves sha256 lines h := by
  rw [Resolves]
  rw [resolveHunk]
  simp only [except_bind_ok, refuseIf_ok, exists_const, Bool.not_eq_false]
  cases hs : h.oldStart with
  | some s =>
    have hloc : located lines h = h := by
      rw [located, hunkLine, hs, Option.getD_some]
      cases h
      cases hs
      rfl
    by_cases hc : h.addressDigest.isSome ∧ h.oldLines.length > 0
    · simp only [hc, and_self, if_true, except_bind_ok, refuseIf_ok, exists_const,
        Bool.not_eq_false, except_pure_ok, hloc]
      simp only [Option.some.injEq, forall_eq', forall_true_left, reduceCtorEq, false_implies,
        and_true, not_or, not_lt]
      tauto
    · simp only [hc, if_false, except_pure_ok, hloc]
      constructor
      · rintro ⟨h1, h2⟩
        refine ⟨h2, h1, fun s' hs' hd hl => absurd ⟨hd, hl⟩ hc, by simp⟩
      · rintro ⟨h1, h2, -⟩
        exact ⟨h2, h1⟩
  | none =>
    simp only [reduceCtorEq, false_implies, implies_true, true_and, forall_true_left]
    have hloc : ∀ s, matchesOf lines h.oldLines = [s] →
        located lines h = { h with oldStart := some s } := by
      intro s hm
      rw [located, hunkLine, hs, Option.getD_none, hm, List.headD_cons]
    constructor
    · rintro ⟨h1, h2⟩
      split at h2
      · rename_i s hm
        cases h2
        exact ⟨(hloc s hm).symm, h1, s, hm⟩
      · cases h2
    · rintro ⟨rfl, h1, s, hm⟩
      refine ⟨h1, ?_⟩
      rw [hm]
      simp only
      rw [hloc s hm]
      rfl

/-! ## The overlap check -/

variable {a b : ParsedPatchHunk}

/-- On hunks in ascending order, no overlap means that the first ends before the second starts. -/
theorem hunksOverlap_eq_false_iff {s s' : ℕ} (ha : a.oldStart = some s)
    (hb : b.oldStart = some s') (hle : s ≤ s') :
    hunksOverlap a b = false ↔ s < s' ∧ s + a.oldLines.length ≤ s' := by
  simp only [hunksOverlap, ha, hb]
  rcases Nat.eq_zero_or_pos a.oldLines.length with h0 | h0 <;>
    rcases Nat.eq_zero_or_pos b.oldLines.length with h1 | h1
  · simp [h0, h1]; omega
  · have h1' : b.oldLines.length ≠ 0 := by omega
    simp [h0, h1']; omega
  · have h0' : a.oldLines.length ≠ 0 := by omega
    simp [h0', h1]; omega
  · have h0' : a.oldLines.length ≠ 0 := by omega
    have h1' : b.oldLines.length ≠ 0 := by omega
    simp [h0', h1']; omega

/-- The order the overlap check sorts by. -/
def lineLE (a b : ParsedPatchHunk) : Bool :=
  decide (a.oldStart.getD (2 ^ 53 - 1) ≤ b.oldStart.getD (2 ^ 53 - 1))

theorem pairwise_mergeSort_lineLE (hs : List ParsedPatchHunk) :
    (hs.mergeSort lineLE).Pairwise
      fun a b => a.oldStart.getD (2 ^ 53 - 1) ≤ b.oldStart.getD (2 ^ 53 - 1) := by
  have h := @List.pairwise_mergeSort _ lineLE
    (fun a b c hab hbc => by
      simp only [lineLE, decide_eq_true_eq] at *
      omega)
    (fun a b => by
      simp only [lineLE, Bool.or_eq_true, decide_eq_true_eq]
      omega) hs
  exact h.imp fun h => by simpa only [lineLE, decide_eq_true_eq] using h

/-- One hunk wholly before another, both with a known line. -/
def Precedes (a b : ParsedPatchHunk) : Prop :=
  ∃ s s', a.oldStart = some s ∧ b.oldStart = some s' ∧ s < s' ∧ s + a.oldLines.length ≤ s'

variable {hs : List ParsedPatchHunk} {resolved : List ParsedPatchHunk}

theorem adjacentOverlap_cons_cons : adjacentOverlap (a :: b :: hs) = false ↔
      ((a.oldStart.isSome = true → b.oldStart.isSome = true → hunksOverlap a b = false)
        ∧ adjacentOverlap (b :: hs) = false) := by
  rw [adjacentOverlap]
  cases a.oldStart.isSome <;> cases b.oldStart.isSome <;> simp

/-- **Checking neighbours is enough.**  In ascending order, hunks none of which overlaps its
successor are pairwise disjoint. -/
theorem pairwise_precedes_of_adjacent : ∀ {hs : List ParsedPatchHunk},
    (∀ h ∈ hs, h.oldStart.isSome = true) →
    hs.Pairwise (fun a b => a.oldStart.getD (2 ^ 53 - 1) ≤ b.oldStart.getD (2 ^ 53 - 1)) →
    adjacentOverlap hs = false → hs.Pairwise Precedes := by
  intro hs
  induction hs with
  | nil => intro _ _ _; exact .nil
  | cons a hs ih =>
    intro hsome hsorted hover
    cases hs with
    | nil => exact List.pairwise_singleton _ _
    | cons b rest =>
      obtain ⟨hab, hover'⟩ := adjacentOverlap_cons_cons.1 hover
      have hrest := ih (fun h hh => hsome h (List.mem_cons_of_mem _ hh))
        (List.Pairwise.of_cons hsorted) hover'
      obtain ⟨s, hs⟩ := Option.isSome_iff_exists.1 (hsome a (by simp))
      obtain ⟨s', hs'⟩ := Option.isSome_iff_exists.1 (hsome b (by simp))
      have hle : s ≤ s' := by
        have := (List.pairwise_cons.1 hsorted).1 b (by simp)
        rwa [hs, hs', Option.getD_some, Option.getD_some] at this
      have hlt := (hunksOverlap_eq_false_iff hs hs' hle).1 (hab (by simp [hs]) (by simp [hs']))
      refine List.pairwise_cons.2 ⟨fun c hc => ?_, hrest⟩
      rcases List.mem_cons.1 hc with rfl | hc
      · exact ⟨s, s', hs, hs', hlt⟩
      · -- everything after `b` starts no earlier than `b` does
        obtain ⟨t, hct⟩ := Option.isSome_iff_exists.1 (hsome c (by simp [hc]))
        have hbc := (List.pairwise_cons.1 (List.Pairwise.of_cons hsorted)).1 c hc
        rw [hs', hct, Option.getD_some, Option.getD_some] at hbc
        exact ⟨s, t, hs, hct, by omega, by omega⟩

theorem Precedes.disjoint (h : Precedes a b)
    (ha : 1 ≤ hunkLine lines a) : (hunkEdit lines a).Disjoint (hunkEdit lines b) := by
  obtain ⟨s, s', hs, hs', h1, h2⟩ := h
  rw [hunkLine, hs, Option.getD_some] at ha
  refine Or.inl ⟨?_, ?_⟩ <;> simp only [Edit.stop, hunkEdit, hunkLine, hs, hs', Option.getD_some] <;>
    omega

/-- Disjoint hunks pass every overlap check, in whatever order they are compared. -/
theorem hunksOverlap_of_disjoint
    (h : (hunkEdit lines a).Disjoint (hunkEdit lines b)) : hunksOverlap a b = false := by
  cases hs : a.oldStart with
  | none => simp [hunksOverlap, hs]
  | some s =>
    cases hs' : b.oldStart with
    | none => simp [hunksOverlap, hs, hs']
    | some s' =>
      have h' := h
      simp only [Edit.Disjoint, Edit.stop, hunkEdit, hunkLine, hs, hs', Option.getD_some] at h'
      simp only [hunksOverlap, hs, hs']
      split_ifs <;> simp <;> omega

theorem adjacentOverlap_of_disjoint : ∀ {hs : List ParsedPatchHunk},
    (hs.map (hunkEdit lines)).Pairwise Edit.Disjoint → adjacentOverlap hs = false := by
  intro hs
  induction hs with
  | nil => intro _; rfl
  | cons a hs ih =>
    intro hd
    rw [List.map_cons, List.pairwise_cons] at hd
    cases hs with
    | nil => rfl
    | cons b rest =>
      exact adjacentOverlap_cons_cons.2
        ⟨fun _ _ => hunksOverlap_of_disjoint (hd.1 _ (by simp)), ih hd.2⟩

theorem disjoint_perm {es es' : List (Edit String)} (h : es.Perm es')
    (hd : es.Pairwise Edit.Disjoint) : es'.Pairwise Edit.Disjoint :=
  (h.pairwise_iff Edit.Disjoint.symm).1 hd

theorem resolvePatchHunkAddresses_ok : resolvePatchHunkAddresses sha256 lines hs = .ok resolved ↔
      hs.mapM (resolveHunk sha256 lines) = .ok resolved
        ∧ adjacentOverlap (resolved.mergeSort lineLE) = false := by
  rw [resolvePatchHunkAddresses]
  simp only [except_bind_ok, refuseIf_ok, exists_const, Bool.not_eq_true, except_pure_ok]
  constructor
  · rintro ⟨r, h1, h2, rfl⟩
    exact ⟨h1, h2⟩
  · rintro ⟨h1, h2⟩
    exact ⟨resolved, h1, h2, rfl⟩

/-- **The resolving pass** fills in the lines and keeps the order. -/
theorem mapM_resolveHunk_ok : hs.mapM (resolveHunk sha256 lines) = .ok resolved ↔
      resolved = hs.map (located lines) ∧ ∀ h ∈ hs, Resolves sha256 lines h := by
  rw [mapM_ok_iff]
  simp only [resolveHunk_ok]
  induction hs generalizing resolved with
  | nil => simp
  | cons h hs ih =>
    constructor
    · intro hf
      cases hf with
      | cons hx hrest =>
        obtain ⟨rfl, hall⟩ := ih.1 hrest
        exact ⟨by rw [hx.1, List.map_cons], List.forall_mem_cons.2 ⟨hx.2, hall⟩⟩
    · rintro ⟨rfl, hall⟩
      obtain ⟨hx, hall⟩ := List.forall_mem_cons.1 hall
      exact .cons ⟨rfl, hx⟩ (ih.2 ⟨rfl, hall⟩)

instance (lines : List String) (h : ParsedPatchHunk) : Decidable (HunkFits sha256 lines h) :=
  decidable_of_iff (resolveHunk sha256 lines h = .ok (located lines h)
      ∧ hunkApplies lines (hunkLine lines h) h.oldLines = true) <| by
    rw [resolveHunk_ok, HunkFits, eq_self, true_and]

theorem map_hunkEdit_located (lines : List String) (hs : List ParsedPatchHunk) :
    (hs.map (located lines)).map (hunkEdit lines) = hs.map (hunkEdit lines) := by
  rw [List.map_map]
  rfl

/-- The overlap check on the sorted copy is a check of disjointness. -/
theorem adjacentOverlap_sorted_iff (hpos : ∀ h ∈ hs, 1 ≤ hunkLine lines h) :
    adjacentOverlap ((hs.map (located lines)).mergeSort lineLE) = false ↔
      (hs.map (hunkEdit lines)).Pairwise Edit.Disjoint := by
  have hperm := List.mergeSort_perm (hs.map (located lines)) lineLE
  rw [← map_hunkEdit_located]
  constructor
  · intro hover
    have hmem : ∀ h ∈ (hs.map (located lines)).mergeSort lineLE, ∃ x ∈ hs, located lines x = h :=
      fun h hh => List.mem_map.1 (hperm.mem_iff.1 hh)
    have hp := pairwise_precedes_of_adjacent (fun h hh => by
      obtain ⟨x, -, rfl⟩ := hmem h hh
      rfl) (pairwise_mergeSort_lineLE _) hover
    refine disjoint_perm (hperm.map _) (List.pairwise_map.2 (hp.imp_of_mem ?_))
    intro a b ha _ hab
    obtain ⟨x, hx, rfl⟩ := hmem a ha
    exact hab.disjoint (hpos x hx)
  · intro hd
    exact adjacentOverlap_of_disjoint (disjoint_perm (hperm.map _).symm hd)

/-! ## The numbering pass -/

/-- The preview of one hunk under a running delta. -/
def previewOf (lines : List String) (h : ParsedPatchHunk) (delta : ℤ) : PatchHunkPreview :=
  { index := h.index
    status := "ready"
    header := hunkHeader (hunkLine lines h) h.oldLines.length (hunkLine lines h + delta)
      h.newLines.length
    oldStart := hunkLine lines h
    oldCount := h.oldLines.length
    newStart := hunkLine lines h + delta
    newCount := h.newLines.length }

/-- The region of a preview. -/
def regionOf (p : PatchHunkPreview) : LineRange := ⟨p.newStart, p.newStart + p.newCount⟩

/-- By how many lines a hunk lengthens the file. -/
def lineDelta (h : ParsedPatchHunk) : ℤ := (h.newLines.length : ℤ) - h.oldLines.length

/-- The previews of the numbering pass, from a running delta on. -/
def previewsFrom (lines : List String) : List ParsedPatchHunk → ℤ → List PatchHunkPreview
  | [], _ => []
  | h :: hs, delta => previewOf lines h delta :: previewsFrom lines hs (delta + lineDelta h)

theorem previewHunks_cons_located (lines : List String) (h : ParsedPatchHunk)
    (rest : List ParsedPatchHunk) (delta : ℤ) :
    previewHunks lines (located lines h :: rest) delta
      = if hunkApplies lines (hunkLine lines h) h.oldLines = true then do
          let res ← previewHunks lines rest (delta + lineDelta h)
          return (previewOf lines h delta :: res.1, regionOf (previewOf lines h delta) :: res.2)
        else .error (conflictAt lines h.index (hunkLine lines h) h.oldLines.length) := rfl

theorem previewHunks_located_ok : ∀ {delta : ℤ} {res : List PatchHunkPreview × List LineRange},
    previewHunks lines (hs.map (located lines)) delta = .ok res ↔
      (∀ h ∈ hs, hunkApplies lines (hunkLine lines h) h.oldLines = true)
        ∧ res = (previewsFrom lines hs delta, (previewsFrom lines hs delta).map regionOf) := by
  induction hs with
  | nil =>
    intro delta res
    rw [List.map_nil, previewHunks, previewsFrom, List.map_nil, Except.ok.injEq, eq_comm]
    simp
  | cons h hs ih =>
    intro delta res
    rw [List.map_cons, previewHunks_cons_located]
    by_cases happ : hunkApplies lines (hunkLine lines h) h.oldLines = true
    · rw [if_pos happ, except_bind_ok]
      simp only [except_pure_ok]
      constructor
      · rintro ⟨ps, hrest, rfl⟩
        obtain ⟨hall, rfl⟩ := ih.1 hrest
        exact ⟨List.forall_mem_cons.2 ⟨happ, hall⟩, rfl⟩
      · rintro ⟨hall, rfl⟩
        exact ⟨_, ih.2 ⟨(List.forall_mem_cons.1 hall).2, rfl⟩, rfl⟩
    · rw [if_neg happ]
      constructor
      · intro h; cases h
      · rintro ⟨hall, -⟩
        exact absurd (hall h List.mem_cons_self) happ

theorem length_previewsFrom (lines : List String) (hs : List ParsedPatchHunk) :
    ∀ delta, (previewsFrom lines hs delta).length = hs.length := by
  induction hs with
  | nil => intro _; rfl
  | cons h hs ih => intro delta; rw [previewsFrom, List.length_cons, ih, List.length_cons]

/-- The running delta at a hunk is the sum of the length changes of the hunks before it. -/
theorem previewsFrom_getElem? (lines : List String) (h : ParsedPatchHunk)
    (b : List ParsedPatchHunk) : ∀ (a : List ParsedPatchHunk) (delta : ℤ),
    (previewsFrom lines (a ++ h :: b) delta)[a.length]?
      = some (previewOf lines h (delta + (a.map lineDelta).sum)) := by
  intro a
  induction a with
  | nil => intro delta; simp [previewsFrom]
  | cons x a ih =>
    intro delta
    rw [List.cons_append, previewsFrom, List.length_cons, List.getElem?_cons_succ, ih,
      List.map_cons, List.sum_cons, add_assoc]

/-! ## The splicing pass -/

theorem spliceHunks_located (lines : List String) (hs : List ParsedPatchHunk) : ∀ next,
    spliceHunks (hs.map (located lines)) next
      = .ok ((hs.map (hunkEdit lines)).foldl
          (fun acc e => splice acc e.start e.count e.text) next) := by
  induction hs with
  | nil => intro next; rfl
  | cons h hs ih =>
    intro next
    rw [List.map_cons, spliceHunks]
    simp only [located]
    exact ih _

/-- **What `applyPatchHunks` computes, and when it succeeds.** -/
theorem applyPatchHunks_eq_ok_iff {lines : List String} {hs : List ParsedPatchHunk}
    {r : PatchHunkApplyResult} :
    applyPatchHunks sha256 lines hs = .ok r ↔
      (∀ h ∈ hs, HunkFits sha256 lines h) ∧ (hs.map (hunkEdit lines)).Pairwise Edit.Disjoint
        ∧ r = { lines := (hs.map (hunkEdit lines)).foldr
                  (fun e acc => splice acc e.start e.count e.text) lines
                regions := (previewsFrom lines hs 0).map regionOf
                hunks := previewsFrom lines hs 0 } := by
  rw [applyPatchHunks]
  simp only [except_bind_ok, resolvePatchHunkAddresses_ok, mapM_resolveHunk_ok, except_pure_ok]
  have hsplice : spliceHunks (hs.map (located lines)).reverse lines
      = .ok ((hs.map (hunkEdit lines)).foldr
          (fun e acc => splice acc e.start e.count e.text) lines) := by
    rw [← List.map_reverse, spliceHunks_located, List.map_reverse, List.foldl_reverse]
  constructor
  · rintro ⟨_, ⟨⟨rfl, hres⟩, hover⟩, res, hprev, next, hnext, rfl⟩
    obtain ⟨happ, rfl⟩ := previewHunks_located_ok.1 hprev
    rw [hsplice] at hnext
    cases hnext
    have hfit : ∀ h ∈ hs, HunkFits sha256 lines h := fun h hh => ⟨hres h hh, happ h hh⟩
    exact ⟨hfit, (adjacentOverlap_sorted_iff fun h hh => (hfit h hh).line_pos).1 hover, rfl⟩
  · rintro ⟨hfit, hd, rfl⟩
    exact ⟨_, ⟨⟨rfl, fun h hh => (hfit h hh).1⟩,
      (adjacentOverlap_sorted_iff fun h hh => (hfit h hh).line_pos).2 hd⟩,
      _, previewHunks_located_ok.2 ⟨fun h hh => (hfit h hh).2, rfl⟩, _, hsplice, rfl⟩

end Falryn.Workspace
