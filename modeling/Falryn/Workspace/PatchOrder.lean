import Falryn.Workspace.PatchSubstitution

/-!
# What the listing order of a patch can change

`OrderSafe` is enough for a patch to be a simultaneous substitution.  Here it is shown to be
necessary as well, by listing the hunks in other orders: hunks addressed by digest alone are numbered
in the order they were listed in, so a second such hunk can be put last, or last but one, at will, and
the previews of both listings cannot be right unless the hunk it swaps with keeps the number of lines.

`patching_is_substitution` puts the two directions together, for every target that is accepted and
whose patch applies.
-/

namespace Falryn.Workspace

open Substitution (Edit shift substitute)

variable {sha256 : String → String} {lines : List String}

/-! ## Other listings -/

variable {maxHunkLines : ℕ} {items : List JsValue}

theorem forall₂_parseHunk {values : List JsValue} : ∀ {index : ℕ}
    {hs : List ParsedPatchHunk}, parseHunks maxHunkLines index values = .ok hs →
    List.Forall₂ (fun v h => parseHunk v 0 maxHunkLines = .ok h.unlisted) values hs := by
  induction values with
  | nil => intro index hs h; cases h; exact .nil
  | cons v vs ih =>
    intro index hs h
    obtain ⟨x, xs, rfl, hx, hxs⟩ := parseHunks_cons_ok.1 h
    exact .cons (parseHunk_ok hx).2.2 (ih hxs)

/-- Any order of the parsed hunks is the order of some listing of the values they come from. -/
theorem exists_listing {hunks target : List ParsedPatchHunk}
    (hparse : parseHunks maxHunkLines 0 items = .ok hunks) (hp : hunks.Perm target) :
    ∃ items' hunks', items.Perm items' ∧ parseHunks maxHunkLines 0 items' = .ok hunks'
      ∧ hunks'.map ParsedPatchHunk.unlisted = target.map ParsedPatchHunk.unlisted := by
  have hf := (forall₂_parseHunk hparse).flip
  obtain ⟨items', hf', hp'⟩ := List.perm_comp_forall₂ hp.symm hf
  have hall : ∀ v ∈ items', ∃ x, parseHunk v 0 maxHunkLines = .ok x :=
    fun v hv => parseHunks_forall hparse v (hp'.mem_iff.1 hv)
  obtain ⟨hunks', hparse'⟩ := parseHunks_of_forall hall 0
  refine ⟨items', hunks', hp'.symm, hparse', ?_⟩
  rw [parseHunks_unlisted hparse']
  clear hp hp' hall hparse'
  induction hf' with
  | nil => rfl
  | cons hx _ ih =>
    rw [List.filterMap_cons, hx, List.map_cons, ← ih]
    rfl

variable {hs hs' : List ParsedPatchHunk}

theorem map_hunkEdit_perm
    (hp : (hs.map ParsedPatchHunk.unlisted).Perm (hs'.map ParsedPatchHunk.unlisted)) :
    (hs.map (hunkEdit lines)).Perm (hs'.map (hunkEdit lines)) := by
  have h := hp.map (hunkEdit lines)
  rwa [map_hunkEdit_unlisted, map_hunkEdit_unlisted] at h

theorem hunkFits_perm
    (hp : (hs.map ParsedPatchHunk.unlisted).Perm (hs'.map ParsedPatchHunk.unlisted))
    (hfit : ∀ h ∈ hs, HunkFits sha256 lines h) : ∀ h ∈ hs', HunkFits sha256 lines h := by
  intro h hh
  obtain ⟨x, hx, heq⟩ := List.mem_map.1 (hp.mem_iff.2 (List.mem_map_of_mem hh))
  have hx' := hfit x hx
  rw [← hunkFits_unlisted, heq] at hx'
  exact (hunkFits_unlisted sha256).1 hx'

/-- **Whether a patch applies does not depend on the listing.** -/
theorem applyPatchHunks_perm {r : PatchHunkApplyResult}
    (hp : (hs.map ParsedPatchHunk.unlisted).Perm (hs'.map ParsedPatchHunk.unlisted))
    (happ : applyPatchHunks sha256 lines hs = .ok r) :
    ∃ r', applyPatchHunks sha256 lines hs' = .ok r' := by
  obtain ⟨hfit, hd, -⟩ := applyPatchHunks_eq_ok_iff.1 happ
  exact ⟨_, applyPatchHunks_eq_ok_iff.2
    ⟨hunkFits_perm hp hfit, disjoint_perm (map_hunkEdit_perm hp) hd, rfl⟩⟩

theorem sumIf_unlisted_perm
    (hp : (hs.map ParsedPatchHunk.unlisted).Perm (hs'.map ParsedPatchHunk.unlisted))
    {q : ParsedPatchHunk → Bool} (hq : ∀ h : ParsedPatchHunk, q h.unlisted = q h) :
    sumIf hs q = sumIf hs' q := by
  rw [← sumIf_unlisted hs hq, sumIf_perm hp, sumIf_unlisted hs' hq]

/-! ## The running delta at a hunk -/

/-- The hunks of the listing that are numbered before a hunk addressed by digest alone are the
explicit ones and those of its kind listed before it. -/
theorem delta_at_digest {pre post : List ParsedPatchHunk} {d : ParsedPatchHunk}
    (hparse : parseHunks maxHunkLines 0 items = .ok (pre ++ d :: post))
    (hperm : hs.Perm (pre ++ d :: post)) (ho : AppliedOrder hs) (hdelta : DeltasRight lines hs)
    (hd : d.oldStart = none) :
    sumIf (pre ++ d :: post) (fun x => x.oldStart.isSome) + sumIf pre (fun x => x.oldStart.isNone)
      = shift ((pre ++ d :: post).map (hunkEdit lines)) (hunkEdit lines d).start := by
  obtain ⟨hsorted, -⟩ := parseHunks_index_sorted hparse
  obtain ⟨a, b, rfl⟩ := List.append_of_mem (hperm.mem_iff.2 (List.mem_append_right pre List.mem_cons_self))
  have hnodup : ((a ++ d :: b).map ParsedPatchHunk.index).Nodup := by
    rw [(hperm.map _).nodup_iff]
    exact List.pairwise_map.2 (hsorted.imp fun h => h.ne)
  have hidx : ∀ x ∈ a, x.index ≠ d.index := by
    rw [List.map_append, List.map_cons, List.nodup_append] at hnodup
    exact fun x hx => hnodup.2.2 _ (List.mem_map_of_mem hx) _ List.mem_cons_self
  obtain ⟨hna, hnb⟩ := ho.around_none hd
  -- the hunks numbered before `d`, read off the numbering and off the listing
  let q : ParsedPatchHunk → Bool := fun x => x.oldStart.isSome || decide (x.index < d.index)
  have hqa : sumIf (a ++ d :: b) q = (a.map lineDelta).sum := by
    have hb0 : sumIf b q = 0 := by
      refine sumIf_eq_zero fun x hx hq => ?_
      obtain ⟨hxn, hxi⟩ := hnb x hx
      simp only [q, hxn, Option.isSome_none, Bool.false_or, decide_eq_true_eq] at hq
      omega
    have ha : sumIf a q = sumIf a fun _ => true := by
      refine sumIf_congr fun x hx => ?_
      have hqx : q x = true := by
        cases hxs : x.oldStart with
        | some s => simp [q, hxs]
        | none =>
          have h1 := hna x hx hxs
          have h2 := hidx x hx
          simp only [q, hxs, Option.isSome_none, Bool.false_or, decide_eq_true_eq]
          omega
      rw [hqx]
    rw [sumIf_append, sumIf_cons, hb0, ha, sum_lineDelta]
    simp [q, hd]
  have hqpre : sumIf (pre ++ d :: post) q
      = sumIf (pre ++ d :: post) (fun x => x.oldStart.isSome)
        + sumIf pre (fun x => x.oldStart.isNone) := by
    rw [List.pairwise_append] at hsorted
    have hpre : ∀ l : List ParsedPatchHunk, l ⊆ pre → sumIf l q
        = sumIf l (fun x => x.oldStart.isSome) + sumIf l (fun x => x.oldStart.isNone) := by
      intro l
      induction l with
      | nil => intro _; rfl
      | cons x l ih =>
        intro hl
        obtain ⟨hx, hl⟩ := List.cons_subset.1 hl
        have hlt := hsorted.2.2 x hx d List.mem_cons_self
        rw [sumIf_cons, sumIf_cons, sumIf_cons, ih hl]
        cases hxs : x.oldStart <;> simp [q, hxs, hlt] <;> ring
    have hpost : sumIf post q = sumIf post fun x => x.oldStart.isSome := by
      refine sumIf_congr fun x hx => ?_
      have hlt := (List.pairwise_cons.1 hsorted.2.1).1 x hx
      have hge : ¬ x.index < d.index := by omega
      simp [q, hge]
    rw [sumIf_append, sumIf_append, sumIf_cons, sumIf_cons, hpre pre (List.Subset.refl _), hpost]
    simp only [q, hd, Option.isSome_none, lt_irrefl, decide_false, Bool.or_false]
    ring
  rw [← hqpre, ← Substitution.shift_perm (hperm.map (hunkEdit lines)), ← hdelta a d b rfl, ← hqa,
    sumIf_perm hperm]

/-- At an explicit hunk the running delta misses the hunks addressed by digest that stand above
it. -/
theorem delta_at_explicit (ho : AppliedOrder hs)
    (hd : (hs.map (hunkEdit lines)).Pairwise Edit.Disjoint) (hdelta : DeltasRight lines hs)
    {e : ParsedPatchHunk} (he : e ∈ hs) (hs' : e.oldStart ≠ none) :
    sumIf hs (fun x => x.oldStart.isNone
      && decide ((hunkEdit lines x).start < (hunkEdit lines e).start)) = 0 := by
  obtain ⟨a, b, rfl⟩ := List.append_of_mem he
  have h := hdelta a e b rfl
  obtain ⟨ha, hb⟩ := ho.around_some hd hs'
  have hen : e.oldStart.isNone = false := by
    rw [Option.isNone_eq_false_iff, Option.isSome_iff_ne_none]
    exact hs'
  rw [shift_eq_sumIf, sumIf_append, sumIf_cons, sum_lineDelta] at h
  have ha1 : sumIf a (fun x => decide ((hunkEdit lines x).start < (hunkEdit lines e).start))
      = sumIf a fun _ => true := sumIf_congr fun x hx => by simp [(ha x hx).2]
  have ha0 : sumIf a (fun x => x.oldStart.isNone
      && decide ((hunkEdit lines x).start < (hunkEdit lines e).start)) = 0 := by
    refine sumIf_eq_zero fun x hx hq => ?_
    have hxn := (ha x hx).1
    simp only [Bool.and_eq_true, Option.isNone_iff_eq_none] at hq
    exact absurd hq.1 hxn
  have hb1 : sumIf b (fun x => decide ((hunkEdit lines x).start < (hunkEdit lines e).start))
      = sumIf b fun x => x.oldStart.isNone
        && decide ((hunkEdit lines x).start < (hunkEdit lines e).start) := by
    refine sumIf_congr fun x hx => ?_
    by_cases hxn : x.oldStart = none
    · simp [hxn]
    · have hlt := hb x hx hxn
      have hge : ¬ (hunkEdit lines x).start < (hunkEdit lines e).start := by omega
      simp [hge]
  rw [ha1, hb1] at h
  simp only [lt_irrefl, decide_false, Bool.false_eq_true, if_false, zero_add] at h
  rw [sumIf_append, sumIf_cons, ha0, hen]
  simp only [Bool.false_and, Bool.false_eq_true, if_false, zero_add]
  omega

/-! ## The condition is necessary -/

/-- What is asked of every listing of a patch that applies: its hunks are carried out at once, and
the lines that result are always the same. -/
def EveryListingSubstitutes (sha256 : String → String) (lines : List String) (value : JsValue)
    (index : ℕ) (limits : WorkspacePatchLimits) (r : PatchHunkApplyResult) : Prop :=
  ∀ value' t' r', Relisted value value' → parseTarget value' index limits = .ok t' →
    applyPatchHunks sha256 lines t'.hunks = .ok r' →
    SimultaneousSubstitution lines t'.hunks r' ∧ r'.lines = r.lines

section Necessary

variable {value : JsValue} {index : ℕ} {limits : WorkspacePatchLimits} {t : ParsedPatchTarget}
  {r : PatchHunkApplyResult}

theorem deltasRight_of_applied
    (happ : applyPatchHunks sha256 lines hs = .ok r) (hsub : SimultaneousSubstitution lines hs r) :
    DeltasRight lines hs := by
  obtain ⟨hfit, hd, rfl⟩ := applyPatchHunks_eq_ok_iff.1 happ
  exact hsub.deltasRight hfit hd rfl

/-- Every order of the hunks is the order of a listing, and its running deltas are right. -/
theorem listing_deltasRight (ht : parseTarget value index limits = .ok t)
    (happ : applyPatchHunks sha256 lines t.hunks = .ok r)
    (hall : EveryListingSubstitutes sha256 lines value index limits r)
    {target : List ParsedPatchHunk} (hp : t.hunks.Perm target) :
    ∃ items' hunks' hs', parseHunks limits.maxHunkLines 0 items' = .ok hunks'
      ∧ hunks'.map ParsedPatchHunk.unlisted = target.map ParsedPatchHunk.unlisted
      ∧ hs'.Perm hunks' ∧ AppliedOrder hs' ∧ DeltasRight lines hs' := by
  obtain ⟨items, hunks, hitems, hparse, hsort, -⟩ := parseTarget_ok ht
  have hsperm : t.hunks.Perm hunks := hsort ▸ List.mergeSort_perm _ _
  obtain ⟨items', hunks', hpi, hparse', hun⟩ := exists_listing hparse (hsperm.symm.trans hp)
  have hsort' := List.mergeSort_perm hunks' fun left right => compareParsed left right ≤ 0
  have hpun : (t.hunks.map ParsedPatchHunk.unlisted).Perm
      ((hunks'.mergeSort fun left right => compareParsed left right ≤ 0).map
        ParsedPatchHunk.unlisted) :=
    (hp.map _).trans (hun ▸ (hsort'.map _).symm)
  obtain ⟨r', happ'⟩ := applyPatchHunks_perm hpun happ
  have hover := adjacentOverlap_of_disjoint (applyPatchHunks_eq_ok_iff.1 happ').2.1
  obtain ⟨value', t', hvalue', ht', hts'⟩ := parseTarget_relist ht hitems hpi hparse' hover
  rw [← hts'] at happ'
  have hsub := (hall value' t' r' ⟨items, items', hitems, hvalue', hpi⟩ ht' happ').1
  exact ⟨items', hunks', t'.hunks, hparse', hun, hts' ▸ hsort', (parseTarget_appliedOrder ht').1,
    deltasRight_of_applied happ' hsub⟩

variable {x : ParsedPatchHunk} {y : ParsedPatchHunk}

theorem lineDelta_eq_of_unlisted (h : x.unlisted = y.unlisted) : lineDelta x = lineDelta y := by
  have h' : lineDelta x.unlisted = lineDelta y.unlisted := congrArg lineDelta h
  exact h'

/-- **Of two hunks addressed by digest alone neither changes the number of lines**: listed last and
last but one, and the other way round, both listings number the other hunk right. -/
theorem lineDelta_eq_zero_of_two (ht : parseTarget value index limits = .ok t)
    (happ : applyPatchHunks sha256 lines t.hunks = .ok r)
    (hall : EveryListingSubstitutes sha256 lines value index limits r)
    {rest : List ParsedPatchHunk} (hp : t.hunks.Perm (rest ++ [x, y]))
    (hx : x.oldStart = none) (hy : y.oldStart = none) : lineDelta x = 0 := by
  obtain ⟨items₁, hunks₁, hs₁, hparse₁, hun₁, hperm₁, ho₁, hdelta₁⟩ :=
    listing_deltasRight ht happ hall hp
  obtain ⟨items₂, hunks₂, hs₂, hparse₂, hun₂, hperm₂, ho₂, hdelta₂⟩ :=
    listing_deltasRight ht happ hall
      (hp.trans ((List.Perm.swap y x []).append_left rest))
  have hsame : (hunks₁.map ParsedPatchHunk.unlisted).Perm
      (hunks₂.map ParsedPatchHunk.unlisted) := by
    rw [hun₁, hun₂]
    exact ((List.Perm.swap y x []).append_left rest).map _
  rw [List.map_append] at hun₁ hun₂
  obtain ⟨m₁, l₁, rfl, hm₁, hl₁⟩ := List.map_eq_append_iff.1 hun₁
  obtain ⟨m₂, l₂, rfl, hm₂, hl₂⟩ := List.map_eq_append_iff.1 hun₂
  obtain ⟨x₁, l₁', rfl, hx₁, hl₁⟩ := List.map_eq_cons_iff.1 hl₁
  obtain ⟨y₁, l₁'', rfl, hy₁, hl₁⟩ := List.map_eq_cons_iff.1 hl₁
  obtain ⟨y₂, l₂', rfl, hy₂, hl₂⟩ := List.map_eq_cons_iff.1 hl₂
  obtain rfl := List.map_eq_nil_iff.1 hl₁
  have hstart : ∀ {u v : ParsedPatchHunk}, u.unlisted = v.unlisted →
      v.oldStart = none → u.oldStart = none :=
    fun huv hv => (congrArg ParsedPatchHunk.oldStart huv).trans hv
  have hsplit : m₁ ++ [x₁, y₁] = (m₁ ++ [x₁]) ++ y₁ :: [] := by simp
  rw [hsplit] at hparse₁ hperm₁ hsame
  have h₁ := delta_at_digest hparse₁ hperm₁ ho₁ hdelta₁ (hstart hy₁ hy)
  have h₂ := delta_at_digest hparse₂ hperm₂ ho₂ hdelta₂ (hstart hy₂ hy)
  have hedit : hunkEdit lines y₁ = hunkEdit lines y₂ := by
    rw [← hunkEdit_unlisted, hy₁, ← hy₂, hunkEdit_unlisted]
  have hm : sumIf m₁ (fun h => h.oldStart.isNone) = sumIf m₂ fun h => h.oldStart.isNone :=
    sumIf_unlisted_perm (by rw [hm₁, hm₂]) fun _ => rfl
  rw [hedit, Substitution.shift_perm (map_hunkEdit_perm hsame), ← h₂,
    sumIf_unlisted_perm hsame (q := fun h => h.oldStart.isSome) fun _ => rfl,
    sumIf_append m₁ [x₁], hm, sumIf_cons, sumIf_nil, hstart hx₁ hx] at h₁
  simp only [Option.isNone_none, if_true, add_zero] at h₁
  rw [← lineDelta_eq_of_unlisted hx₁]
  omega

variable {pre post : List ParsedPatchHunk} {d : ParsedPatchHunk}

theorem exists_perm_last_two
    (hx : x ∈ pre ++ post) : ∃ rest, (pre ++ d :: post).Perm (rest ++ [x, d]) := by
  obtain ⟨u, v, huv⟩ := List.append_of_mem hx
  refine ⟨u ++ v, List.perm_middle.trans ?_⟩
  rw [huv]
  calc (d :: (u ++ x :: v)).Perm (d :: x :: (u ++ v)) := List.perm_middle.cons d
    _ |>.Perm (x :: d :: (u ++ v)) := .swap _ _ _
    _ |>.Perm ((u ++ v) ++ [x, d]) := @List.perm_append_comm _ [x, d] _

/-- Once a second hunk is addressed by digest alone, both keep the number of lines. -/
theorem lineDelta_eq_zero_of_other (ht : parseTarget value index limits = .ok t)
    (happ : applyPatchHunks sha256 lines t.hunks = .ok r)
    (hall : EveryListingSubstitutes sha256 lines value index limits r)
    (hp : t.hunks.Perm (pre ++ d :: post)) (hd : d.oldStart = none) (hmem : x ∈ pre ++ post)
    (hx : x.oldStart = none) : lineDelta x = 0 ∧ lineDelta d = 0 := by
  obtain ⟨rest, hrest⟩ := exists_perm_last_two (d := d) hmem
  have hp' := hp.trans hrest
  exact ⟨lineDelta_eq_zero_of_two ht happ hall hp' hx hd,
    lineDelta_eq_zero_of_two ht happ hall
      (hp'.trans ((List.Perm.swap d x []).append_left rest)) hd hx⟩

/-- Where the other hunks addressed by digest keep the number of lines, the running delta at one of
them is off by what the explicit hunks below it change. -/
theorem explicit_below_eq_zero {items : List JsValue}
    (hparse : parseHunks maxHunkLines 0 items = .ok (pre ++ d :: post))
    (hperm : hs.Perm (pre ++ d :: post)) (ho : AppliedOrder hs) (hdelta : DeltasRight lines hs)
    (hd : d.oldStart = none) (hpos : ∀ h ∈ hs, 1 ≤ hunkLine lines h)
    (hdis : ((pre ++ d :: post).map (hunkEdit lines)).Pairwise Edit.Disjoint)
    (hothers : ∀ x ∈ pre ++ post, x.oldStart = none → lineDelta x = 0) :
    sumIf (pre ++ d :: post)
      (fun e => e.oldStart.isSome && decide (hunkLine lines d < hunkLine lines e)) = 0 := by
  have h := delta_at_digest hparse hperm ho hdelta hd
  have hpre : sumIf pre (fun x => x.oldStart.isNone) = 0 := by
    refine sumIf_eq_zero fun x hx hn => hothers x (List.mem_append_left _ hx) ?_
    exact Option.isNone_iff_eq_none.1 hn
  rw [hpre, add_zero, shift_eq_sumIf] at h
  have hdis' := disjoint_perm (perm_cons_around _ pre d post) hdis
  have hne : ∀ x ∈ pre ++ post, (hunkEdit lines d).start ≠ (hunkEdit lines x).start :=
    fun x hx => ((List.pairwise_cons.1 hdis').1 _ (List.mem_map_of_mem hx)).start_ne
  have hpd := hpos d (hperm.mem_iff.2 (by simp))
  have hsplit : ∀ l : List ParsedPatchHunk, l ⊆ pre ++ post →
      sumIf l (fun x => x.oldStart.isSome)
        = sumIf l (fun x => decide ((hunkEdit lines x).start < (hunkEdit lines d).start))
          + sumIf l (fun e => e.oldStart.isSome
              && decide (hunkLine lines d < hunkLine lines e)) := by
    intro l
    induction l with
    | nil => intro _; rfl
    | cons x l ih =>
      intro hl
      obtain ⟨hx, hl⟩ := List.cons_subset.1 hl
      have hxne := hne x hx
      have hpx : 1 ≤ hunkLine lines x := by
        refine hpos x (hperm.mem_iff.2 ?_)
        rw [List.mem_append, List.mem_cons]
        rcases List.mem_append.1 hx with hx | hx
        · exact .inl hx
        · exact .inr (.inr hx)
      simp only [sumIf_cons, ih hl]
      simp only [hunkEdit] at hxne ⊢
      cases hxs : x.oldStart with
      | none => simp [hothers x hx hxs]
      | some s =>
        by_cases hlt : hunkLine lines x - 1 < hunkLine lines d - 1
        · have hnot : ¬ hunkLine lines d < hunkLine lines x := by omega
          simp [hlt, hnot]
          ring
        · have hyes : hunkLine lines d < hunkLine lines x := by omega
          simp [hlt, hyes]
          ring
  have hd1 := hsplit pre (List.subset_append_left _ _)
  have hd2 := hsplit post (List.subset_append_right _ _)
  simp only [sumIf_append, sumIf_cons, hd, Option.isSome_none, Bool.false_and, lt_irrefl,
    decide_false, Bool.false_eq_true, if_false, zero_add] at h ⊢
  omega

/-- **The condition is necessary.** -/
theorem EveryListingSubstitutes.orderSafe (ht : parseTarget value index limits = .ok t)
    (happ : applyPatchHunks sha256 lines t.hunks = .ok r)
    (hall : EveryListingSubstitutes sha256 lines value index limits r) :
    OrderSafe lines t.hunks := by
  obtain ⟨items, hunks, hitems, hparse, hsort, -⟩ := parseTarget_ok ht
  have hsperm : t.hunks.Perm hunks := hsort ▸ List.mergeSort_perm _ _
  obtain ⟨ho, -⟩ := parseTarget_appliedOrder ht
  obtain ⟨hfit, hd, -⟩ := applyPatchHunks_eq_ok_iff.1 happ
  have hpos : ∀ h ∈ t.hunks, 1 ≤ hunkLine lines h := fun h hh => (hfit h hh).line_pos
  have hdelta := deltasRight_of_applied happ
    (hall value t r ⟨items, items, hitems, hitems, .refl _⟩ ht happ).1
  refine ⟨fun d hdm hdn => ?_, ?_⟩
  · obtain ⟨pre, post, rfl⟩ := List.append_of_mem (hsperm.mem_iff.1 hdm)
    rw [sumIf_perm hsperm]
    exact explicit_below_eq_zero hparse hsperm ho hdelta hdn hpos
      (disjoint_perm (hsperm.map _) hd)
      fun x hx hxn => (lineDelta_eq_zero_of_other ht happ hall hsperm hdn hx hxn).1
  · by_cases hzero : ∀ d ∈ t.hunks, d.oldStart = none → lineDelta d = 0
    · exact .inl hzero
    · right
      push Not at hzero
      obtain ⟨d, hdm, hdn, hne⟩ := hzero
      obtain ⟨pre, post, hsplit⟩ := List.append_of_mem hdm
      -- `d` changes the number of lines, so it is the only one of its kind
      have honly : ∀ x ∈ pre ++ post, x.oldStart ≠ none := fun x hx hxn =>
        hne (lineDelta_eq_zero_of_other ht happ hall (hsplit ▸ .refl _) hdn hx hxn).2
      have hcases : ∀ x ∈ t.hunks, x = d ∨ x ∈ pre ++ post := by
        intro x hx
        rw [hsplit] at hx
        simpa [or_left_comm] using hx
      refine ⟨?_, fun d' hd' hdn' e he hen => ?_⟩
      · rw [hsplit, List.perm_middle.countP_eq, List.countP_cons_of_pos (by simp [hdn])]
        rw [List.countP_eq_zero.2 fun x hx => by simpa using honly x hx]
      · rcases hcases d' hd' with rfl | hd'
        · by_contra hle
          have hsum := delta_at_explicit ho hd hdelta he hen
          have hemem : e ∈ pre ++ post := (hcases e he).resolve_left fun h => hen (h ▸ hdn')
          have hstart : (hunkEdit lines d').start < (hunkEdit lines e).start := by
            have hdis' := disjoint_perm (perm_cons_around _ pre d' post) (hsplit ▸ hd)
            have hne' := ((List.pairwise_cons.1 hdis').1 _ (List.mem_map_of_mem hemem)).start_ne
            have hpd := hpos d' hdm
            simp only [hunkEdit] at hne' ⊢
            omega
          have hnone : ∀ l ⊆ pre ++ post, sumIf l (fun x => x.oldStart.isNone
              && decide ((hunkEdit lines x).start < (hunkEdit lines e).start)) = 0 := by
            refine fun l hl => sumIf_eq_zero fun x hx hq => ?_
            simp only [Bool.and_eq_true, Option.isNone_iff_eq_none] at hq
            exact absurd hq.1 (honly x (hl hx))
          rw [hsplit, sumIf_append, sumIf_cons, hnone pre (List.subset_append_left _ _),
            hnone post (List.subset_append_right _ _), hdn'] at hsum
          simp only [Option.isNone_none, Bool.true_and, hstart, decide_true, if_true, zero_add,
            add_zero] at hsum
          exact hne hsum
        · exact absurd hdn' (honly d' hd')

end Necessary

/-! ## The exact condition -/

/-- **Patching is simultaneous substitution exactly when the order cannot be noticed.**  Let a
target be accepted and its patch apply.  Every listing of its hunks is carried out at once, with the
same lines and with previews and regions at its own hunks' new lines, if and only if `OrderSafe`
holds of the hunks. -/
theorem patching_is_substitution (sha256 : String → String) (lines : List String) (value : JsValue)
    (index : ℕ) (limits : WorkspacePatchLimits) (t : ParsedPatchTarget) (r : PatchHunkApplyResult)
    (ht : parseTarget value index limits = .ok t)
    (happ : applyPatchHunks sha256 lines t.hunks = .ok r) :
    (∀ value' t' r', Relisted value value' → parseTarget value' index limits = .ok t' →
      applyPatchHunks sha256 lines t'.hunks = .ok r' →
      SimultaneousSubstitution lines t'.hunks r' ∧ r'.lines = r.lines)
    ↔ OrderSafe lines t.hunks := by
  refine ⟨fun hall => EveryListingSubstitutes.orderSafe ht happ hall, ?_⟩
  intro hsafe value' t' r' hrel ht' happ'
  have hperm := parseTarget_perm hrel ht ht'
  have hsafe' : OrderSafe lines t'.hunks :=
    orderSafe_unlisted.1 (orderSafe_perm hperm (orderSafe_unlisted.2 hsafe))
  have hsub := hsafe.substitution (parseTarget_appliedOrder ht).1 happ
  have hsub' := hsafe'.substitution (parseTarget_appliedOrder ht').1 happ'
  refine ⟨hsub', ?_⟩
  rw [hsub'.lines_eq, hsub.lines_eq,
    Substitution.substitute_perm (map_hunkEdit_perm hperm) hsub.disjoint]

/-! ### One patch, two files -/

/-- The digest of the one line `a`. -/
def digestOfA : String := "ca978112ca1bbdcafac231b39a23dc4da786eff8147c4e72b9807785afee48bb"

/-- SHA-256 where the two files below need it. -/
def sha256OfA (text : String) : String := if text = "a" then digestOfA else ""

/-- A replacement of line 2, and a hunk that lengthens the line `a` wherever it stands. -/
def mixedItems : List JsValue :=
  [.object [("oldStart", .number 2), ("oldLines", .array [.string "b"]),
    ("newLines", .array [.string "x"])],
   .object [("addressDigest", .string ("sha-256:" ++ digestOfA)),
    ("oldLines", .array [.string "a"]), ("newLines", .array [.string "p", .string "q"])]]

def mixedPatch : JsValue := .object [("path", .string "notes.txt"), ("hunks", .array mixedItems)]

def mixedHunks : List ParsedPatchHunk :=
  [⟨0, none, some 2, none, ["b"], ["x"]⟩,
   ⟨1, none, none, some ("sha-256:" ++ digestOfA), ["a"], ["p", "q"]⟩]

theorem parseTarget_mixedPatch :
    parseTarget mixedPatch 0 ⟨8, 8⟩ = .ok ⟨0, "notes.txt", none, none, mixedHunks⟩ := by
  have hsorted : mixedHunks.mergeSort (fun left right => compareParsed left right ≤ 0) = mixedHunks :=
    List.mergeSort_of_pairwise (by decide)
  have hitems : parseHunks 8 0 mixedItems = .ok mixedHunks := by decide +kernel
  simp only [parseTarget, except_bind_ok, refuseIf_ok, except_pure_ok, exists_const]
  exact ⟨by decide, "notes.txt", by decide +kernel, mixedItems, by rfl, by decide, mixedHunks,
    hitems, by rw [hsorted]; decide, none, by rfl, none, by rfl, by rw [hsorted]⟩

/-- What the code makes of the patch in the file `a`, `b`, `c`. -/
def misplaced : PatchHunkApplyResult :=
  { lines := ["p", "x", "b", "c"]
    regions := [⟨2, 3⟩, ⟨1, 3⟩]
    hunks := previewsFrom ["a", "b", "c"] mixedHunks 0 }

/-- **A hunk found above an explicit one.**  The line `a` stands above line 2, so it is spliced
first, and the explicit hunk then replaces a line of the new text in place of the line `b`. -/
theorem digest_above_explicit_misplaces :
    parseTarget mixedPatch 0 ⟨8, 8⟩ = .ok ⟨0, "notes.txt", none, none, mixedHunks⟩
      ∧ applyPatchHunks sha256OfA ["a", "b", "c"] mixedHunks = .ok misplaced
      ∧ substitute ["a", "b", "c"] (mixedHunks.map (hunkEdit ["a", "b", "c"]))
          = ["p", "q", "x", "c"]
      ∧ ¬ SimultaneousSubstitution ["a", "b", "c"] mixedHunks misplaced := by
  have hsub : substitute ["a", "b", "c"] (mixedHunks.map (hunkEdit ["a", "b", "c"]))
      = ["p", "q", "x", "c"] := by decide +kernel
  refine ⟨parseTarget_mixedPatch, applyPatchHunks_eq_ok_iff.2 ?_, hsub, fun h => ?_⟩
  · exact ⟨by decide +kernel, by decide +kernel, by decide +kernel⟩
  · have hlines := h.lines_eq
    rw [hsub] at hlines
    revert hlines
    decide

/-- In the file `c`, `b`, `a` the same patch is safe, and every listing of it is carried out at
once. -/
theorem digest_below_explicit_substitutes :
    ∃ r, applyPatchHunks sha256OfA ["c", "b", "a"] mixedHunks = .ok r
      ∧ ∀ value' t' r', Relisted mixedPatch value' → parseTarget value' 0 ⟨8, 8⟩ = .ok t' →
        applyPatchHunks sha256OfA ["c", "b", "a"] t'.hunks = .ok r' →
        SimultaneousSubstitution ["c", "b", "a"] t'.hunks r' ∧ r'.lines = r.lines := by
  have happ := (@applyPatchHunks_eq_ok_iff sha256OfA ["c", "b", "a"] mixedHunks _).2
    ⟨by decide +kernel, by decide +kernel, rfl⟩
  exact ⟨_, happ, (patching_is_substitution sha256OfA ["c", "b", "a"] mixedPatch 0 ⟨8, 8⟩ _ _
    parseTarget_mixedPatch happ).2 (by decide +kernel)⟩

end Falryn.Workspace
