import Falryn.Workspace.PatchApply

/-!
# When patching is simultaneous substitution

A patch is meant to be one simultaneous substitution: every hunk is addressed in the original file,
and the outcome does not depend on how the hunks were listed.  `SimultaneousSubstitution` says so,
with every preview pointing at its own hunk's new lines.

The code gets there only if the order it numbers and splices in is the order of the lines.  Hunks
with an explicit line are sorted, but a hunk addressed by digest alone keeps its place at the end of
the list even when it resolves above an explicit one: the overlap check sorts a copy and the
unsorted list is what is returned.  `OrderSafe` is exactly what is left (`patching_is_substitution`):
the misplaced hunks must not change the number of lines where it would be noticed.
-/

namespace Falryn.Workspace

open Substitution (Edit substitute substituteBelow segment shift splice)

/-! ## What is promised -/

/-- A preview and its region point at the new lines of its own hunk: what the result holds before
them is the patched text of what stood before the hunk. -/
def Addresses (lines : List String) (hunks : List ParsedPatchHunk) (r : PatchHunkApplyResult)
    (h : ParsedPatchHunk) (p : PatchHunkPreview) (region : LineRange) : Prop :=
  p.index = h.index ∧ p.oldStart = hunkLine lines h ∧ p.oldCount = h.oldLines.length
    ∧ p.newCount = h.newLines.length ∧ region = ⟨p.newStart, p.newStart + p.newCount⟩
    ∧ ∃ after,
        let before := substituteBelow lines (hunks.map (hunkEdit lines)) (hunkLine lines h - 1)
        r.lines = before ++ h.newLines ++ after ∧ p.newStart = before.length + 1

/-- The outcome of a patch whose hunks are carried out at once. -/
structure SimultaneousSubstitution (lines : List String) (hunks : List ParsedPatchHunk)
    (r : PatchHunkApplyResult) : Prop where
  /-- Every hunk's range holds the lines it expects. -/
  found : ∀ h ∈ hunks, sliceLines lines (hunkLine lines h - 1) h.oldLines.length = h.oldLines
  /-- No two hunks share a line or an insertion point. -/
  disjoint : (hunks.map (hunkEdit lines)).Pairwise Edit.Disjoint
  /-- The ranges are replaced, and nothing else is. -/
  lines_eq : r.lines = substitute lines (hunks.map (hunkEdit lines))
  /-- One preview and one region for each hunk, in the same order. -/
  counts : r.hunks.length = hunks.length ∧ r.regions.length = hunks.length
  /-- And each of them points at its own hunk's new lines. -/
  addressed : ∀ a h b, hunks = a ++ h :: b → ∃ p region, r.hunks[a.length]? = some p
    ∧ r.regions[a.length]? = some region ∧ Addresses lines hunks r h p region

/-! ## Sums of length changes -/

/-- The length changes of the hunks satisfying `q`, summed. -/
def sumIf (hs : List ParsedPatchHunk) (q : ParsedPatchHunk → Bool) : ℤ :=
  (hs.map fun h => if q h then lineDelta h else 0).sum

@[simp] theorem sumIf_nil (q : ParsedPatchHunk → Bool) : sumIf [] q = 0 := rfl

@[simp] theorem sumIf_cons (h : ParsedPatchHunk) (hs : List ParsedPatchHunk)
    (q : ParsedPatchHunk → Bool) :
    sumIf (h :: hs) q = (if q h then lineDelta h else 0) + sumIf hs q := rfl

@[simp] theorem sumIf_append (hs hs' : List ParsedPatchHunk) (q : ParsedPatchHunk → Bool) :
    sumIf (hs ++ hs') q = sumIf hs q + sumIf hs' q := by
  rw [sumIf, List.map_append, List.sum_append]
  rfl

variable {hs : List ParsedPatchHunk} {q : ParsedPatchHunk → Bool} {hs' : List ParsedPatchHunk}
  {lines : List String}

theorem sumIf_congr {q' : ParsedPatchHunk → Bool}
    (h : ∀ x ∈ hs, (if q x then lineDelta x else 0) = if q' x then lineDelta x else 0) :
    sumIf hs q = sumIf hs q' := by
  rw [sumIf, sumIf, List.map_congr_left h]

theorem sumIf_eq_zero (h : ∀ x ∈ hs, q x = true → lineDelta x = 0) : sumIf hs q = 0 := by
  induction hs with
  | nil => rfl
  | cons x hs ih =>
    have hx := h x List.mem_cons_self
    rw [sumIf_cons, ih fun y hy => h y (List.mem_cons_of_mem _ hy), add_zero]
    split
    · exact hx ‹_›
    · rfl

theorem sumIf_perm (h : hs.Perm hs')
    (q : ParsedPatchHunk → Bool) : sumIf hs q = sumIf hs' q := (h.map _).sum_eq

theorem sumIf_unlisted (hs : List ParsedPatchHunk)
    (hq : ∀ h : ParsedPatchHunk, q h.unlisted = q h) :
    sumIf (hs.map ParsedPatchHunk.unlisted) q = sumIf hs q := by
  rw [sumIf, sumIf, List.map_map]
  congr 1
  refine List.map_congr_left fun h _ => ?_
  rw [Function.comp_apply, hq]
  rfl

theorem sum_lineDelta (hs : List ParsedPatchHunk) :
    (hs.map lineDelta).sum = sumIf hs fun _ => true := rfl

theorem shift_eq_sumIf (lines : List String) (hs : List ParsedPatchHunk) (p : ℕ) :
    shift (hs.map (hunkEdit lines)) p
      = sumIf hs fun h => decide ((hunkEdit lines h).start < p) := by
  induction hs with
  | nil => rfl
  | cons h hs ih =>
    rw [List.map_cons, Substitution.shift_cons, sumIf_cons, ih]
    by_cases hlt : (hunkEdit lines h).start < p
    · rw [if_pos hlt, if_pos (decide_eq_true hlt)]
      rfl
    · rw [if_neg hlt, if_neg (by simpa using hlt)]

/-! ## The condition -/

/-- **When the listing order cannot be noticed.**  Below a hunk addressed by digest alone the
explicit hunks change the number of lines by nothing in sum, and either no such hunk changes the
number of lines itself, or there is just one and it stands below every explicit hunk. -/
def OrderSafe (lines : List String) (hunks : List ParsedPatchHunk) : Prop :=
  (∀ d ∈ hunks, d.oldStart = none →
    sumIf hunks (fun e => e.oldStart.isSome && decide (hunkLine lines d < hunkLine lines e)) = 0)
  ∧ ((∀ d ∈ hunks, d.oldStart = none → lineDelta d = 0)
    ∨ (hunks.countP (fun d => d.oldStart.isNone) = 1
      ∧ ∀ d ∈ hunks, d.oldStart = none →
          ∀ e ∈ hunks, e.oldStart ≠ none → hunkLine lines e < hunkLine lines d))

instance (lines : List String) (hunks : List ParsedPatchHunk) : Decidable (OrderSafe lines hunks) :=
  inferInstanceAs (Decidable (_ ∧ _))

theorem orderSafe_perm (h : hs.Perm hs') (ho : OrderSafe lines hs) : OrderSafe lines hs' := by
  refine ⟨fun d hd hn => ?_, ho.2.imp (fun h0 d hd => h0 d (h.mem_iff.2 hd)) fun h1 => ⟨?_, ?_⟩⟩
  · rw [← sumIf_perm h]
    exact ho.1 d (h.mem_iff.2 hd) hn
  · rw [← h.countP_eq]
    exact h1.1
  · exact fun d hd hn e he hs => h1.2 d (h.mem_iff.2 hd) hn e (h.mem_iff.2 he) hs

theorem orderSafe_unlisted :
    OrderSafe lines (hs.map ParsedPatchHunk.unlisted) ↔ OrderSafe lines hs := by
  have hsum : ∀ l, sumIf (hs.map ParsedPatchHunk.unlisted)
      (fun e => e.oldStart.isSome && decide (l < hunkLine lines e))
        = sumIf hs fun e => e.oldStart.isSome && decide (l < hunkLine lines e) :=
    fun l => sumIf_unlisted hs fun _ => rfl
  simp only [OrderSafe, List.forall_mem_map, hsum, hunkLine_unlisted, List.countP_map]
  rfl

/-! ## Hunks in the order they are applied in -/

section Order

variable {sha256 : String → String} {lines : List String} {hs : List ParsedPatchHunk}

variable {a b : List ParsedPatchHunk} {h : ParsedPatchHunk} {r : PatchHunkApplyResult}

theorem AppliedOrder.around (ho : AppliedOrder (a ++ h :: b)) :
    (∀ x ∈ a, compareParsed x h ≤ 0) ∧ ∀ x ∈ b, compareParsed h x ≤ 0 := by
  rw [AppliedOrder, List.pairwise_append] at ho
  exact ⟨fun x hx => ho.2.2 x hx h List.mem_cons_self, (List.pairwise_cons.1 ho.2.1).1⟩

theorem disjoint_around (hd : ((a ++ h :: b).map (hunkEdit lines)).Pairwise Edit.Disjoint) :
    (∀ x ∈ a, (hunkEdit lines x).Disjoint (hunkEdit lines h))
      ∧ ∀ x ∈ b, (hunkEdit lines h).Disjoint (hunkEdit lines x) := by
  rw [List.pairwise_map, List.pairwise_append] at hd
  exact ⟨fun x hx => hd.2.2 x hx h List.mem_cons_self, (List.pairwise_cons.1 hd.2.1).1⟩

/-- Before an explicit hunk stand explicit hunks of smaller lines; after it, no explicit hunk of a
smaller line. -/
theorem AppliedOrder.around_some (ho : AppliedOrder (a ++ h :: b))
    (hd : ((a ++ h :: b).map (hunkEdit lines)).Pairwise Edit.Disjoint)
    (hs : h.oldStart ≠ none) :
    (∀ x ∈ a, x.oldStart ≠ none ∧ (hunkEdit lines x).start < (hunkEdit lines h).start)
      ∧ ∀ x ∈ b, x.oldStart ≠ none → (hunkEdit lines h).start < (hunkEdit lines x).start := by
  obtain ⟨s, hs'⟩ := Option.ne_none_iff_exists'.1 hs
  obtain ⟨ha, hb⟩ := ho.around
  obtain ⟨hda, hdb⟩ := disjoint_around hd
  refine ⟨fun x hx => ?_, fun x hx hxs => ?_⟩
  · have hc := ha x hx
    cases hxs : x.oldStart with
    | none => simp [compareParsed, hxs, hs'] at hc
    | some t =>
      simp only [compareParsed, hxs, hs'] at hc
      have hne := (hda x hx).start_ne
      simp only [hunkEdit, hunkLine, hxs, hs', Option.getD_some] at hne ⊢
      exact ⟨by simp, by omega⟩
  · obtain ⟨t, hxt⟩ := Option.ne_none_iff_exists'.1 hxs
    have hc := hb x hx
    simp only [compareParsed, hxt, hs'] at hc
    have hne := (hdb x hx).start_ne
    simp only [hunkEdit, hunkLine, hxt, hs', Option.getD_some] at hne ⊢
    omega

/-- After a hunk addressed by digest alone stand hunks of its kind, listed no earlier. -/
theorem AppliedOrder.around_none (ho : AppliedOrder (a ++ h :: b)) (hs : h.oldStart = none) :
    (∀ x ∈ a, x.oldStart = none → x.index ≤ h.index)
      ∧ ∀ x ∈ b, x.oldStart = none ∧ h.index ≤ x.index := by
  obtain ⟨ha, hb⟩ := ho.around
  refine ⟨fun x hx hxs => ?_, fun x hx => ?_⟩
  · have hc := ha x hx
    simp only [compareParsed, hxs, hs] at hc
    omega
  · have hc := hb x hx
    cases hxs : x.oldStart with
    | none =>
      simp only [compareParsed, hxs, hs] at hc
      exact ⟨rfl, by omega⟩
    | some t => simp [compareParsed, hxs, hs] at hc

/-! ## The condition is enough -/

/-- **No hunk is moved by the hunks spliced before it.** -/
theorem OrderSafe.shift_after (hsafe : OrderSafe lines hs) (ho : AppliedOrder hs)
    (hd : (hs.map (hunkEdit lines)).Pairwise Edit.Disjoint)
    (hpos : ∀ h ∈ hs, 1 ≤ hunkLine lines h)
    (heq : hs = a ++ h :: b) :
    shift (b.map (hunkEdit lines)) (hunkEdit lines h).start = 0 := by
  subst heq
  rw [shift_eq_sumIf]
  refine sumIf_eq_zero fun x hx hlt => ?_
  rw [decide_eq_true_eq] at hlt
  have hxmem : x ∈ a ++ h :: b := by simp [hx]
  have hhmem : h ∈ a ++ h :: b := by simp
  by_cases hh : h.oldStart = none
  · have hxn := (ho.around_none hh).2 x hx
    rcases hsafe.2 with h0 | ⟨h1, -⟩
    · exact h0 x hxmem hxn.1
    · -- two hunks with only a digest, where there is one
      rw [List.countP_append, List.countP_cons_of_pos (by simp [hh])] at h1
      have hx0 : 0 < b.countP fun d => d.oldStart.isNone :=
        List.countP_pos_iff.2 ⟨x, hx, by simp [hxn.1]⟩
      omega
  · by_cases hxn : x.oldStart = none
    · rcases hsafe.2 with h0 | ⟨-, h1⟩
      · exact h0 x hxmem hxn
      · have hline := h1 x hxmem hxn h hhmem hh
        simp only [hunkEdit] at hlt
        have := hpos x hxmem
        omega
    · have := (ho.around_some hd hh).2 x hx hxn
      omega

/-- **The running delta is right at every hunk.** -/
theorem OrderSafe.delta_before (hsafe : OrderSafe lines hs) (ho : AppliedOrder hs)
    (hd : (hs.map (hunkEdit lines)).Pairwise Edit.Disjoint)
    (hpos : ∀ h ∈ hs, 1 ≤ hunkLine lines h)
    (heq : hs = a ++ h :: b) :
    (a.map lineDelta).sum = shift (hs.map (hunkEdit lines)) (hunkEdit lines h).start := by
  have hafter := hsafe.shift_after ho hd hpos heq
  subst heq
  rw [List.map_append, List.map_cons, Substitution.shift_append, Substitution.shift_cons, hafter,
    if_neg (lt_irrefl _), add_zero, add_zero, shift_eq_sumIf, sum_lineDelta]
  by_cases hh : h.oldStart = none
  · -- the explicit hunks are all before `h`, and those below it sum to nothing
    have hsum := hsafe.1 h (by simp) hh
    have hb : sumIf (h :: b) (fun e => e.oldStart.isSome
        && decide (hunkLine lines h < hunkLine lines e)) = 0 := by
      refine sumIf_eq_zero fun x hx hlt => ?_
      have hxn : x.oldStart = none := by
        rcases List.mem_cons.1 hx with rfl | hx
        · exact hh
        · exact ((ho.around_none hh).2 x hx).1
      simp [hxn] at hlt
    rw [sumIf_append, hb, add_zero] at hsum
    have hsplit : ∀ l : List ParsedPatchHunk, l ⊆ a →
        sumIf l (fun _ => true)
          = sumIf l (fun x => decide ((hunkEdit lines x).start < (hunkEdit lines h).start))
            + sumIf l (fun e => e.oldStart.isSome
                && decide (hunkLine lines h < hunkLine lines e)) := by
      intro l
      induction l with
      | nil => intro _; rfl
      | cons x l ih =>
        intro hl
        obtain ⟨hxa, hl⟩ := List.cons_subset.1 hl
        simp only [sumIf_cons, ih hl]
        have hne := ((disjoint_around hd).1 x hxa).start_ne
        have hpx := hpos x (by simp [hxa])
        have hph := hpos h (by simp)
        simp only [hunkEdit] at hne ⊢
        have hdelta : x.oldStart = none → ¬ (hunkLine lines x - 1 < hunkLine lines h - 1) →
            lineDelta x = 0 := by
          intro hxn _
          rcases hsafe.2 with h0 | ⟨h1, -⟩
          · exact h0 x (by simp [hxa]) hxn
          · rw [List.countP_append, List.countP_cons_of_pos (by simp [hh])] at h1
            have hx0 : 0 < a.countP fun d => d.oldStart.isNone :=
              List.countP_pos_iff.2 ⟨x, hxa, by simp [hxn]⟩
            omega
        cases hxs : x.oldStart with
        | none =>
          by_cases hlt : hunkLine lines x - 1 < hunkLine lines h - 1
          · simp [hlt]
            ring
          · simp [hlt, hdelta hxs hlt]
        | some t =>
          by_cases hlt : hunkLine lines x - 1 < hunkLine lines h - 1
          · have hnot : ¬ hunkLine lines h < hunkLine lines x := by omega
            simp [hlt, hnot]
            ring
          · have hyes : hunkLine lines h < hunkLine lines x := by omega
            simp [hlt, hyes]
            ring
    rw [hsplit a (List.Subset.refl a), hsum, add_zero]
  · refine sumIf_congr fun x hx => ?_
    simp [((ho.around_some hd hh).1 x hx).2]

/-! ## The previews are the running delta -/

/-- The running delta at every hunk is how far the hunks above it move it. -/
def DeltasRight (lines : List String) (hs : List ParsedPatchHunk) : Prop :=
  ∀ a h b, hs = a ++ h :: b →
    (a.map lineDelta).sum = shift (hs.map (hunkEdit lines)) (hunkEdit lines h).start

theorem perm_cons_around (lines : List String) (a : List ParsedPatchHunk) (h : ParsedPatchHunk)
    (b : List ParsedPatchHunk) :
    ((a ++ h :: b).map (hunkEdit lines)).Perm
      (hunkEdit lines h :: (a ++ b).map (hunkEdit lines)) := by
  rw [← List.map_cons]
  exact List.perm_middle.map _

/-- What precedes a hunk in the result has the length the running delta should say. -/
theorem length_before (hfit : ∀ h ∈ hs, HunkFits sha256 lines h)
    (hd : (hs.map (hunkEdit lines)).Pairwise Edit.Disjoint) (hh : h ∈ hs) :
    ((substituteBelow lines (hs.map (hunkEdit lines)) (hunkLine lines h - 1)).length : ℤ)
      = (hunkLine lines h - 1 : ℕ)
        + shift (hs.map (hunkEdit lines)) (hunkEdit lines h).start := by
  have hstop := (hfit h hh).stop_le
  rw [Edit.stop] at hstop
  refine Substitution.length_substituteBelow hd ?_ ?_ (le_trans (Nat.le_add_right _ _) hstop)
  · intro e he
    obtain ⟨x, hx, rfl⟩ := List.mem_map.1 he
    exact (hfit x hx).stop_le
  · -- the hunk's own edit does not start before itself, and the others are disjoint from it
    obtain ⟨a, b, rfl⟩ := List.append_of_mem hh
    have hd' := disjoint_perm (perm_cons_around _ a h b) hd
    intro e he hlt
    rcases List.mem_cons.1 ((perm_cons_around _ a h b).mem_iff.1 he) with rfl | he
    · exact absurd hlt (lt_irrefl _)
    · exact Substitution.border_of_disjoint (List.pairwise_cons.1 hd').1 e he hlt

/-- Every preview points at its hunk's lines if and only if every running delta is right. -/
theorem SimultaneousSubstitution.deltasRight (hfit : ∀ h ∈ hs, HunkFits sha256 lines h)
    (hd : (hs.map (hunkEdit lines)).Pairwise Edit.Disjoint)
    (hr : r.hunks = previewsFrom lines hs 0) (hsub : SimultaneousSubstitution lines hs r) :
    DeltasRight lines hs := by
  intro a h b heq
  obtain ⟨p, region, hp, -, -, -, -, -, -, after, -, hnew⟩ := hsub.addressed a h b heq
  rw [hr, heq, previewsFrom_getElem?] at hp
  cases hp
  have hh : h ∈ hs := by simp [heq]
  have hlen := length_before hfit hd hh
  have hpos := (hfit h hh).line_pos
  simp only [previewOf] at hnew
  rw [hlen] at hnew
  omega

/-- **The condition is enough**: the hunks are carried out at once. -/
theorem OrderSafe.substitution (hsafe : OrderSafe lines hs) (ho : AppliedOrder hs) (happ : applyPatchHunks sha256 lines hs = .ok r) :
    SimultaneousSubstitution lines hs r := by
  obtain ⟨hfit, hd, rfl⟩ := applyPatchHunks_eq_ok_iff.1 happ
  have hpos : ∀ h ∈ hs, 1 ≤ hunkLine lines h := fun h hh => (hfit h hh).line_pos
  have hstop : ∀ e ∈ hs.map (hunkEdit lines), e.stop ≤ lines.length := by
    intro e he
    obtain ⟨x, hx, rfl⟩ := List.mem_map.1 he
    exact (hfit x hx).stop_le
  have hlines : (hs.map (hunkEdit lines)).foldr
      (fun e acc => splice acc e.start e.count e.text) lines
        = substitute lines (hs.map (hunkEdit lines)) := by
    refine Substitution.foldr_splice_eq_substitute hd hstop fun a e b heq => ?_
    obtain ⟨a', l, hs', ha, hl⟩ := List.map_eq_append_iff.1 heq
    obtain ⟨h, b', rfl, rfl, rfl⟩ := List.map_eq_cons_iff.1 hl
    exact hsafe.shift_after ho hd hpos hs'
  refine ⟨fun h hh => (hfit h hh).lines_eq, hd, hlines, ?_, fun a h b heq => ?_⟩
  · rw [List.length_map, length_previewsFrom]
    exact ⟨rfl, rfl⟩
  have hh : h ∈ hs := by simp [heq]
  have hget : (previewsFrom lines hs 0)[a.length]?
      = some (previewOf lines h (a.map lineDelta).sum) := by
    rw [heq, previewsFrom_getElem?, zero_add]
  refine ⟨_, _, hget, ?_, rfl, rfl, rfl, rfl, rfl, ?_⟩
  · rw [List.getElem?_map, hget]
    rfl
  · have hperm := perm_cons_around lines a h b
    have hdc := disjoint_perm hperm (heq ▸ hd)
    rw [hlines]
    refine ⟨segment lines ((a ++ b).map (hunkEdit lines)) (hunkEdit lines h).stop
      (lines.length + 1), ?_, ?_⟩
    · rw [heq, Substitution.substitute_perm hperm (heq ▸ hd),
        Substitution.substitute_around (List.pairwise_cons.1 hdc).1 (hfit h hh).stop_le,
        Substitution.substituteBelow_congr fun i _ => Substitution.piece_perm hperm.symm hdc i]
      rfl
    · rw [length_before hfit hd hh, previewOf, hsafe.delta_before ho hd hpos heq]
      have := hpos h hh
      push_cast [this]
      ring

end Order

end Falryn.Workspace
