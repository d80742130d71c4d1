import Falryn.Workspace.Patch

/-!
# What an accepted patch target is

`parseTarget` leaves its hunks sorted: those with an explicit line first, ascending, then those that
only have a digest, in the order they were listed in.  This file extracts from an accepted target
what the application of its hunks relies on, and says in which sense the order of the listing is
forgotten: up to the recorded `index`, two targets that list the same hunks differently are parsed to
permutations of one another (`parseTarget_perm`).
-/

namespace Falryn.Workspace

/-! ## One hunk -/

/-- A hunk as if it were the first of its listing. -/
def ParsedPatchHunk.unlisted (h : ParsedPatchHunk) : ParsedPatchHunk := { h with index := 0 }

/-- What `parseHunk` guarantees of a hunk. -/
structure ParsedPatchHunk.WellFormed (h : ParsedPatchHunk) : Prop where
  start_pos : ∀ s, h.oldStart = some s → 1 ≤ s
  digest_only : h.oldStart = none → h.oldLines ≠ []

variable {value : JsValue}

theorem parseOldStart_pos {o : Option ℕ} (h : parseOldStart value = .ok o) :
    ∀ s, o = some s → 1 ≤ s := by
  intro s hs
  subst hs
  rw [parseOldStart] at h
  split at h
  · cases h
  · split at h
    · split at h
      · cases h
      · cases h
        omega
    · cases h

variable {index maxHunkLines : ℕ} {h : ParsedPatchHunk}

theorem parseHunk_ok (hp : parseHunk value index maxHunkLines = .ok h) :
    h.index = index ∧ h.WellFormed ∧ parseHunk value 0 maxHunkLines = .ok h.unlisted := by
  simp only [parseHunk, except_bind_ok, refuseIf_ok, except_pure_ok, exists_const] at hp ⊢
  obtain ⟨hrec, oldLines, hold, newLines, hnew, hempty, hlimit, hunkId, hid, digest, hdig, start,
    hstart, hnone, hins, heq⟩ := hp
  cases heq
  refine ⟨rfl, ⟨parseOldStart_pos hstart, fun hs hl => hins ⟨hs, by simpa using hl⟩⟩, hrec, oldLines,
    hold, newLines, hnew, hempty, hlimit, hunkId, hid, digest, hdig, start, hstart, hnone, hins, rfl⟩

/-- The index is only recorded: whatever it is, the hunk is accepted or not. -/
theorem parseHunk_reindex (hp : parseHunk value index maxHunkLines = .ok h) (index' : ℕ) :
    parseHunk value index' maxHunkLines = .ok { h with index := index' } := by
  simp only [parseHunk, except_bind_ok, refuseIf_ok, except_pure_ok, exists_const] at hp ⊢
  obtain ⟨hrec, oldLines, hold, newLines, hnew, hempty, hlimit, hunkId, hid, digest, hdig, start,
    hstart, hnone, hins, heq⟩ := hp
  cases heq
  exact ⟨hrec, oldLines, hold, newLines, hnew, hempty, hlimit, hunkId, hid, digest, hdig, start,
    hstart, hnone, hins, rfl⟩

/-! ## The list of hunks -/

variable {values : List JsValue}

theorem parseHunks_cons_ok {hs : List ParsedPatchHunk} :
    parseHunks maxHunkLines index (value :: values) = .ok hs ↔
      ∃ h hs', hs = h :: hs' ∧ parseHunk value index maxHunkLines = .ok h
        ∧ parseHunks maxHunkLines (index + 1) values = .ok hs' := by
  rw [parseHunks, except_bind_ok]
  constructor
  · rintro ⟨h, hh, hr⟩
    obtain ⟨hs', hhs', heq⟩ := except_bind_ok.1 hr
    cases heq
    exact ⟨h, hs', rfl, hh, hhs'⟩
  · rintro ⟨h, hs', rfl, hh, hhs'⟩
    exact ⟨h, hh, except_bind_ok.2 ⟨hs', hhs', rfl⟩⟩

theorem parseHunks_unlisted : ∀ {index : ℕ}
    {hs : List ParsedPatchHunk}, parseHunks maxHunkLines index values = .ok hs →
    hs.map ParsedPatchHunk.unlisted
      = values.filterMap fun v => (parseHunk v 0 maxHunkLines).toOption := by
  induction values with
  | nil => intro index hs h; cases h; rfl
  | cons v vs ih =>
    intro index hs h
    obtain ⟨x, xs, rfl, hx, hxs⟩ := parseHunks_cons_ok.1 h
    rw [List.map_cons, List.filterMap_cons, (parseHunk_ok hx).2.2, ih hxs]
    rfl

theorem parseHunks_wellFormed : ∀ {index : ℕ}
    {hs : List ParsedPatchHunk}, parseHunks maxHunkLines index values = .ok hs →
    ∀ h ∈ hs, h.WellFormed := by
  induction values with
  | nil => intro index hs h x hx; cases h; cases hx
  | cons v vs ih =>
    intro index hs h y hy
    obtain ⟨x, xs, rfl, hx, hxs⟩ := parseHunks_cons_ok.1 h
    rcases List.mem_cons.1 hy with rfl | hy
    · exact (parseHunk_ok hx).2.1
    · exact ih hxs y hy

/-- Listing order is remembered by the index, and by nothing else. -/
theorem parseHunks_index_sorted : ∀ {index : ℕ}
    {hs : List ParsedPatchHunk}, parseHunks maxHunkLines index values = .ok hs →
    hs.Pairwise (fun a b => a.index < b.index) ∧ ∀ h ∈ hs, index ≤ h.index := by
  induction values with
  | nil => intro index hs h; cases h; simp
  | cons v vs ih =>
    intro index hs h
    obtain ⟨x, xs, rfl, hx, hxs⟩ := parseHunks_cons_ok.1 h
    obtain ⟨hsorted, hlow⟩ := ih hxs
    have hxi := (parseHunk_ok hx).1
    refine ⟨List.pairwise_cons.2 ⟨fun y hy => ?_, hsorted⟩, fun y hy => ?_⟩
    · have := hlow y hy
      omega
    · rcases List.mem_cons.1 hy with rfl | hy
      · omega
      · have := hlow y hy
        omega

theorem parseHunks_of_forall (h : ∀ v ∈ values, ∃ x, parseHunk v 0 maxHunkLines = .ok x) :
    ∀ index, ∃ hs, parseHunks maxHunkLines index values = .ok hs := by
  induction values with
  | nil => intro index; exact ⟨[], rfl⟩
  | cons v vs ih =>
    intro index
    obtain ⟨x, hx⟩ := h v List.mem_cons_self
    obtain ⟨hs, hhs⟩ := ih (fun w hw => h w (List.mem_cons_of_mem _ hw)) (index + 1)
    exact ⟨_, parseHunks_cons_ok.2 ⟨_, hs, rfl, parseHunk_reindex hx index, hhs⟩⟩

theorem parseHunks_forall : ∀ {index : ℕ}
    {hs : List ParsedPatchHunk}, parseHunks maxHunkLines index values = .ok hs →
    ∀ v ∈ values, ∃ x, parseHunk v 0 maxHunkLines = .ok x := by
  induction values with
  | nil => intro index hs _ v hv; cases hv
  | cons w vs ih =>
    intro index hs h v hv
    obtain ⟨x, xs, rfl, hx, hxs⟩ := parseHunks_cons_ok.1 h
    rcases List.mem_cons.1 hv with rfl | hv
    · exact ⟨_, (parseHunk_ok hx).2.2⟩
    · exact ih hxs v hv

/-! ## The sort -/

theorem compareParsed_trans (a b c : ParsedPatchHunk) (hab : compareParsed a b ≤ 0)
    (hbc : compareParsed b c ≤ 0) : compareParsed a c ≤ 0 := by
  cases ha : a.oldStart <;> cases hb : b.oldStart <;> cases hc : c.oldStart <;>
    simp only [compareParsed, ha, hb, hc] at * <;> omega

theorem compareParsed_total (a b : ParsedPatchHunk) :
    compareParsed a b ≤ 0 ∨ compareParsed b a ≤ 0 := by
  cases ha : a.oldStart <;> cases hb : b.oldStart <;> simp only [compareParsed, ha, hb] <;> omega

/-- The order hunks are applied in. -/
def AppliedOrder (hs : List ParsedPatchHunk) : Prop :=
  hs.Pairwise fun a b => compareParsed a b ≤ 0

theorem appliedOrder_mergeSort (hs : List ParsedPatchHunk) :
    AppliedOrder (hs.mergeSort fun left right => compareParsed left right ≤ 0) := by
  have h := @List.pairwise_mergeSort _ (fun left right => compareParsed left right ≤ 0)
    (fun a b c hab hbc => by simpa using compareParsed_trans a b c (by simpa using hab) (by simpa using hbc))
    (fun a b => by simpa using compareParsed_total a b) hs
  exact h.imp fun h => by simpa using h

/-! ## The target -/

variable {items : List JsValue}

theorem hunkItems_ok : hunkItems value = .ok items ↔ value = .array items ∧ items ≠ [] := by
  cases value with
  | array l => cases l <;> simp [hunkItems, eq_comm]; rintro rfl; simp
  | _ => simp [hunkItems]

variable {limits : WorkspacePatchLimits} {t : ParsedPatchTarget} {items' : List JsValue}
  {hunks' : List ParsedPatchHunk}

/-- **What acceptance of a target means** for its hunks. -/
theorem parseTarget_ok (h : parseTarget value index limits = .ok t) :
    ∃ items hunks, value.field "hunks" = .array items
      ∧ parseHunks limits.maxHunkLines 0 items = .ok hunks
      ∧ t.hunks = hunks.mergeSort (fun left right => compareParsed left right ≤ 0)
      ∧ adjacentOverlap t.hunks = false := by
  simp only [parseTarget, except_bind_ok, refuseIf_ok, except_pure_ok, exists_const] at h
  obtain ⟨-, path, -, items, hitems, -, hunks, hhunks, hover, -, -, -, -, rfl⟩ := h
  exact ⟨items, hunks, hunkItems_ok.1 hitems |>.1, hhunks, rfl, by simpa using hover⟩

/-- The same target with its hunks listed in another order is accepted as well, once the hunks
still do not overlap in the order they are sorted into. -/
theorem parseTarget_relist (h : parseTarget value index limits = .ok t) (hitems : value.field "hunks" = .array items)
    (hp : items.Perm items')
    (hparse : parseHunks limits.maxHunkLines 0 items' = .ok hunks')
    (hover : adjacentOverlap
      (hunks'.mergeSort fun left right => compareParsed left right ≤ 0) = false) :
    ∃ value' t', value'.field "hunks" = .array items' ∧ parseTarget value' index limits = .ok t'
      ∧ t'.hunks = hunks'.mergeSort fun left right => compareParsed left right ≤ 0 := by
  simp only [parseTarget, except_bind_ok, refuseIf_ok, except_pure_ok, exists_const] at h ⊢
  obtain ⟨-, path, hpath, items₁, hitems₁, hmax, -, -, -, digest, hdig, revision, hrev, -⟩ := h
  obtain ⟨hitems₂, hne⟩ := hunkItems_ok.1 hitems₁
  rw [hitems] at hitems₂
  cases hitems₂
  have hne' : items' ≠ [] := fun h => hne (List.Perm.eq_nil (h ▸ hp))
  refine ⟨.object [("path", value.field "path"), ("hunks", .array items'),
      ("expectedDigest", value.field "expectedDigest"),
      ("expectedRevision", value.field "expectedRevision")],
    { index, path, expectedDigest := digest, expectedRevision := revision,
      hunks := hunks'.mergeSort fun left right => compareParsed left right ≤ 0 }, rfl, ?_, rfl⟩
  exact ⟨by simp [JsValue.isRecord], path, hpath, items', hunkItems_ok.2 ⟨rfl, hne'⟩,
    by rwa [← hp.length_eq], hunks', hparse, by simp [hover], digest, hdig, revision, hrev, rfl⟩

/-- Two listings of the same hunks. -/
def Relisted (value value' : JsValue) : Prop :=
  ∃ items items', value.field "hunks" = .array items ∧ value'.field "hunks" = .array items'
    ∧ items.Perm items'

theorem unlisted_perm {hunks : List ParsedPatchHunk} (hp : items.Perm items')
    (h : parseHunks maxHunkLines 0 items = .ok hunks)
    (h' : parseHunks maxHunkLines 0 items' = .ok hunks') :
    (hunks.map ParsedPatchHunk.unlisted).Perm (hunks'.map ParsedPatchHunk.unlisted) := by
  rw [parseHunks_unlisted h, parseHunks_unlisted h']
  exact hp.filterMap _

/-- **Relisting permutes.**  Two accepted listings of the same hunks are parsed to permutations of
one another, up to the recorded index. -/
theorem parseTarget_perm {value' : JsValue} {t' : ParsedPatchTarget} (hr : Relisted value value')
    (h : parseTarget value index limits = .ok t) (h' : parseTarget value' index limits = .ok t') :
    (t.hunks.map ParsedPatchHunk.unlisted).Perm (t'.hunks.map ParsedPatchHunk.unlisted) := by
  obtain ⟨items, items', hi, hi', hp⟩ := hr
  obtain ⟨items₁, hunks, hi₁, hh, ht, -⟩ := parseTarget_ok h
  obtain ⟨items₂, hunks', hi₂, hh', ht', -⟩ := parseTarget_ok h'
  rw [hi] at hi₁
  rw [hi'] at hi₂
  cases hi₁
  cases hi₂
  rw [ht, ht']
  exact ((List.mergeSort_perm _ _).map _).trans
    ((unlisted_perm hp hh hh').trans ((List.mergeSort_perm _ _).map _).symm)

theorem parseTarget_appliedOrder (h : parseTarget value index limits = .ok t) :
    AppliedOrder t.hunks ∧ ∀ x ∈ t.hunks, x.WellFormed := by
  obtain ⟨items, hunks, -, hh, ht, -⟩ := parseTarget_ok h
  rw [ht]
  exact ⟨appliedOrder_mergeSort hunks,
    fun x hx => parseHunks_wellFormed hh x ((List.mergeSort_perm _ _).mem_iff.1 hx)⟩

end Falryn.Workspace
