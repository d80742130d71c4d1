import Falryn.Composer.ComposerState

/-!
# Tokens on their labels

What it means that the tokens of a draft sit on their own labels (`Placed`), and that each operation on the
tokens keeps it: reading them back from the places an editor reports (`placed_reconcile`), putting a label
into the text (`placed_insert`), turning a typed label into a token (`placed_commit`), and binding
placeholders again (`placed_restore`).
-/

namespace Falryn.Composer

/-! ## Slices -/

variable {text : CodeUnits} {stop : ℕ}

theorem length_slice (start : ℕ) (h : stop ≤ text.length) :
    (slice text start stop).length = stop - start := by
  rw [slice, List.length_drop, List.length_take, min_eq_left h]

/-- A slice does not see what comes after it. -/
theorem slice_append_left (h : stop ≤ text.length) (rest : CodeUnits) (start : ℕ) :
    slice (text ++ rest) start stop = slice text start stop := by
  rw [slice, List.take_append_of_le_length h, slice]

/-- A slice does not see what comes before it. -/
theorem slice_append_right (before text : CodeUnits) (start stop : ℕ) :
    slice (before ++ text) (before.length + start) (before.length + stop) = slice text start stop := by
  rw [slice, List.take_length_add_append, List.drop_length_add_append, slice]

variable {start : ℕ} {n : ℕ}

theorem slice_take (h : stop ≤ n) : slice (text.take n) start stop = slice text start stop := by
  rw [slice, List.take_take, min_eq_left h, slice]

theorem slice_drop (text : CodeUnits) (n start stop : ℕ) :
    slice (text.drop n) start stop = slice text (n + start) (n + stop) := by
  rw [slice, slice, List.take_drop, List.drop_drop]

/-- A text that is put between two others is a slice of the whole. -/
theorem slice_middle (before text rest : CodeUnits) :
    slice (before ++ text ++ rest) before.length (before.length + text.length) = text := by
  have hright := slice_append_right before text 0 text.length
  rw [slice_append_left (by simp)]
  simpa [slice] using hright

/-! ## Places -/

/-- Two tokens do not overlap. -/
def Apart (a b : ComposerToken) : Prop := a.stop ≤ b.start ∨ b.stop ≤ a.start

theorem Apart.symm {a b : ComposerToken} (h : Apart a b) : Apart b a := Or.symm h

instance : Std.Symm Apart := ⟨fun _ _ => Apart.symm⟩

/-- A token lies over none of a range. -/
def ClearOf (start stop : ℕ) (token : ComposerToken) : Prop := token.stop ≤ start ∨ stop ≤ token.start

instance (start stop : ℕ) (token : ComposerToken) : Decidable (ClearOf start stop token) := by
  unfold ClearOf
  infer_instance

/-- A token sits on its label. -/
structure OnLabel (text : CodeUnits) (token : ComposerToken) : Prop where
  stop_eq : token.stop = token.start + token.label.length
  labelled : slice text token.start token.stop = token.label

/-- **The tokens of a draft sit on their labels**: sorted by their start, apart, each on its own label. -/
structure Placed (text : CodeUnits) (tokens : List ComposerToken) : Prop where
  sorted : tokens.Pairwise fun a b => a.start ≤ b.start
  apart : tokens.Pairwise Apart
  onLabel : ∀ token ∈ tokens, OnLabel text token

theorem placed_nil (text : CodeUnits) : Placed text [] := ⟨.nil, .nil, by simp⟩

theorem sortByStart_perm (tokens : List ComposerToken) : (sortByStart tokens).Perm tokens :=
  List.mergeSort_perm tokens _

variable {tokens : List ComposerToken} {token : ComposerToken}

theorem mem_sortByStart : token ∈ sortByStart tokens ↔ token ∈ tokens :=
  (sortByStart_perm tokens).mem_iff

/-- Tokens on their labels that are apart are placed once they are sorted. -/
theorem placed_sort (hapart : tokens.Pairwise Apart)
    (hlabel : ∀ token ∈ tokens, OnLabel text token) : Placed text (sortByStart tokens) where
  sorted := by
    have hsorted := @List.pairwise_mergeSort _ (fun a b : ComposerToken => decide (a.start ≤ b.start))
      (fun a b _ hab hbc => decide_eq_true ((of_decide_eq_true hab).trans (of_decide_eq_true hbc)))
      (fun a b => by simpa using le_total a.start b.start) tokens
    exact hsorted.imp fun h => of_decide_eq_true h
  apart := ((sortByStart_perm tokens).pairwise_iff Apart.symm).2 hapart
  onLabel token htoken := hlabel token (mem_sortByStart.1 htoken)

/-! ## Picked tokens -/

theorem tokenId_inj {m : ℕ} (h : tokenId m = tokenId n) : m = n := by
  rw [tokenId, tokenId] at h
  exact Nat.repr_inj.1 ((String.append_right_inj _).1 h)

/-- The tokens were picked in this session, each with a number of its own. -/
structure Picked (seq : ℕ) (tokens : List ComposerToken) : Prop where
  ids : (tokens.map (·.id)).Nodup
  numbered : ∀ token ∈ tokens, ∃ n ≤ seq, token.id = tokenId n

theorem picked_nil (seq : ℕ) : Picked seq [] := ⟨List.nodup_nil, by simp⟩

variable {seq : ℕ} {ranges : Option (List (String × TokenRange))} {r : Rebinding}

theorem Picked.mono {seq' : ℕ} (h : Picked seq tokens) (hle : seq ≤ seq') : Picked seq' tokens where
  ids := h.ids
  numbered token htoken := by
    obtain ⟨n, hn, hid⟩ := h.numbered token htoken
    exact ⟨n, hn.trans hle, hid⟩

theorem Picked.sort (h : Picked seq tokens) : Picked seq (sortByStart tokens) where
  ids := (((sortByStart_perm tokens).map _).nodup_iff).2 h.ids
  numbered token htoken := h.numbered token (mem_sortByStart.1 htoken)

/-- One more pick. -/
theorem Picked.add (h : Picked seq tokens) (pick : ComposerTokenPick)
    (start stop : ℕ) : Picked (seq + 1) (tokens ++ [pick.place (tokenId (seq + 1)) start stop]) where
  ids := by
    rw [List.map_append, List.nodup_append]
    refine ⟨h.ids, List.nodup_singleton _, fun id hid id' hid' heq => ?_⟩
    obtain ⟨token, htoken, rfl⟩ := List.mem_map.1 hid
    obtain ⟨n, hn, hnumber⟩ := h.numbered token htoken
    rw [List.map_singleton, List.mem_singleton] at hid'
    have hsame : tokenId n = tokenId (seq + 1) := hnumber.symm.trans (heq.trans hid')
    have := tokenId_inj hsame
    omega
  numbered token htoken := by
    rcases List.mem_append.1 htoken with htoken | htoken
    · exact (h.mono (Nat.le_succ seq)).numbered token htoken
    · rw [List.mem_singleton] at htoken
      exact ⟨seq + 1, le_rfl, htoken ▸ rfl⟩

/-- Tokens with the same ids. -/
theorem Picked.of_ids {tokens' : List ComposerToken} (h : Picked seq tokens)
    (hids : (tokens'.map (·.id)).Sublist (tokens.map (·.id))) : Picked seq tokens' where
  ids := h.ids.sublist hids
  numbered token htoken := by
    obtain ⟨other, hother, hid⟩ := List.mem_map.1 (hids.subset (List.mem_map_of_mem htoken))
    obtain ⟨n, hn, hnumber⟩ := h.numbered other hother
    exact ⟨n, hn, hid.symm.trans hnumber⟩

/-! ## Reported places -/

/-- Two reported ranges do not overlap. -/
def RangesApart (a b : String × TokenRange) : Prop := a.2.stop ≤ b.2.start ∨ b.2.stop ≤ a.2.start

/-- **The ranges that an editor may report**: one for a token, in the text, and apart. -/
def RangesFit (text : CodeUnits) (ranges : Option (List (String × TokenRange))) : Prop :=
  ∀ reported, ranges = some reported →
    (reported.map (·.1)).Nodup ∧ reported.Pairwise RangesApart
      ∧ ∀ entry ∈ reported, entry.2.start ≤ entry.2.stop ∧ entry.2.stop ≤ text.length

theorem keptToken_eq {kept : ComposerToken} (h : keptToken text ranges token = some kept) :
    ∃ range, reportedRange ranges token = some range ∧ slice text range.start range.stop = token.label
      ∧ kept = token.moved range.start range.stop := by
  rw [keptToken] at h
  obtain ⟨range, hrange, hkept⟩ := Option.bind_eq_some_iff.1 h
  split_ifs at hkept with hlabel
  exact ⟨range, hrange, hlabel, (Option.some.inj hkept).symm⟩

theorem lookup_mem {reported : List (String × TokenRange)} {id : String} {range : TokenRange}
    (h : reported.lookup id = some range) : (id, range) ∈ reported := by
  obtain ⟨before, after, rfl, -⟩ := List.lookup_eq_some_iff.1 h
  simp

/-- Kept tokens keep their ids. -/
theorem kept_ids (text : CodeUnits) (ranges : Option (List (String × TokenRange))) (tokens : List ComposerToken) :
    ((tokens.filterMap (keptToken text ranges)).map (·.id)).Sublist (tokens.map (·.id)) := by
  induction tokens with
  | nil => simp
  | cons token tokens ih =>
    rcases hkept : keptToken text ranges token with _ | kept
    · rw [List.filterMap_cons_none hkept, List.map_cons]
      exact ih.cons _
    · obtain ⟨range, -, -, rfl⟩ := keptToken_eq hkept
      rw [List.filterMap_cons_some hkept, List.map_cons, List.map_cons]
      exact ih.cons_cons _

/-- **Reported tokens sit on their labels.** -/
theorem placed_reconcile {text' : CodeUnits} (h : Placed text tokens) (hpicked : Picked seq tokens)
    (hranges : RangesFit text' ranges) :
    Placed text' (reconcileTokens tokens text' ranges).tokens := by
  refine placed_sort ?_ fun kept hkept => ?_
  · have hids : tokens.Pairwise fun a b => a.id ≠ b.id := List.pairwise_map.1 hpicked.ids
    refine (h.apart.and hids).filterMap _ ?_
    rintro a b ⟨hapart, hne⟩ a' ha b' hb
    obtain ⟨range, hrange, -, rfl⟩ := keptToken_eq ha
    obtain ⟨range', hrange', -, rfl⟩ := keptToken_eq hb
    rcases ranges with _ | reported
    · cases hrange
      cases hrange'
      exact hapart
    · obtain ⟨-, hpairs, -⟩ := hranges reported rfl
      have : Std.Symm RangesApart := ⟨fun _ _ hab => Or.symm hab⟩
      exact hpairs.forall (lookup_mem hrange) (lookup_mem hrange') fun heq => hne (Prod.mk.inj heq).1
  · obtain ⟨token, htoken, hsome⟩ := List.mem_filterMap.1 hkept
    obtain ⟨range, hrange, hlabel, rfl⟩ := keptToken_eq hsome
    rcases ranges with _ | reported
    · cases hrange
      exact ⟨(h.onLabel token htoken).stop_eq, hlabel⟩
    · obtain ⟨-, -, hinside⟩ := hranges reported rfl
      obtain ⟨horder, hstop⟩ : range.start ≤ range.stop ∧ range.stop ≤ text'.length :=
        hinside _ (lookup_mem hrange)
      have hlength := length_slice range.start hstop
      rw [hlabel] at hlength
      exact ⟨by simp only [ComposerToken.moved_stop, ComposerToken.moved_start, ComposerToken.moved_label]; omega,
        hlabel⟩

theorem picked_reconcile (h : Picked seq tokens) (text : CodeUnits)
    (ranges : Option (List (String × TokenRange))) : Picked seq (reconcileTokens tokens text ranges).tokens :=
  (h.of_ids (kept_ids text ranges tokens)).sort

/-! ## A label that was typed -/

/-- **A new token over a range** that the others leave clear. -/
theorem placed_add (hapart : tokens.Pairwise Apart) (hlabel : ∀ other ∈ tokens, OnLabel text other)
    (hclear : ∀ other ∈ tokens, Apart other token) (htoken : OnLabel text token) :
    Placed text (sortByStart (tokens ++ [token])) := by
  refine placed_sort ?_ ?_
  · rw [List.pairwise_append]
    refine ⟨hapart, List.pairwise_singleton _ _, fun other hother _ hother' => ?_⟩
    exact List.mem_singleton.1 hother' ▸ hclear other hother
  · intro other hother
    rcases List.mem_append.1 hother with hother | hother
    · exact hlabel other hother
    · exact List.mem_singleton.1 hother ▸ htoken

/-! ## A label that is inserted -/

/-- What stands before the text behind an inserted label. -/
theorem insertTokenText_text (text : CodeUnits) (start stop : ℕ) (label : CodeUnits) :
    (insertTokenText text start stop label).text
      = (text.take start ++ label ++ spacer (text.drop stop)) ++ text.drop stop := rfl

/-- How far an inserted label moves what stands behind it. -/
theorem insertTokenText_shift (hle : start ≤ stop) (hstop : stop ≤ text.length)
    (label : CodeUnits) {place : ℕ} (hplace : stop ≤ place) :
    (place + (((insertTokenText text start stop label).text.length : ℤ) - text.length)).toNat
      = (text.take start ++ label ++ spacer (text.drop stop)).length + (place - stop) := by
  rw [insertTokenText_text]
  simp only [List.length_append, List.length_take, List.length_drop]
  omega

theorem onLabel_before (hle : start ≤ stop) (hstop : stop ≤ text.length)
    (label : CodeUnits) (h : OnLabel text token) (hbefore : token.stop ≤ start) :
    OnLabel (insertTokenText text start stop label).text token where
  stop_eq := h.stop_eq
  labelled := by
    have hlength : token.stop ≤ (text.take start).length := by
      rw [List.length_take]
      omega
    rw [insertTokenText_text, List.append_assoc, List.append_assoc, slice_append_left hlength,
      slice_take hbefore, h.labelled]

theorem onLabel_behind (hle : start ≤ stop) (hstop : stop ≤ text.length)
    (label : CodeUnits) (h : OnLabel text token) (hbehind : stop ≤ token.start) :
    OnLabel (insertTokenText text start stop label).text
      (token.moved
        (token.start + (((insertTokenText text start stop label).text.length : ℤ) - text.length)).toNat
        (token.stop + (((insertTokenText text start stop label).text.length : ℤ) - text.length)).toNat) where
  stop_eq := by
    have hlength := h.stop_eq
    simp only [ComposerToken.moved_stop, ComposerToken.moved_start, ComposerToken.moved_label]
    rw [insertTokenText_shift hle hstop label hbehind, insertTokenText_shift hle hstop label (by omega)]
    omega
  labelled := by
    have hlength := h.stop_eq
    simp only [ComposerToken.moved_stop, ComposerToken.moved_start, ComposerToken.moved_label]
    rw [insertTokenText_shift hle hstop label hbehind, insertTokenText_shift hle hstop label (by omega),
      insertTokenText_text, slice_append_right, slice_drop, Nat.add_sub_cancel' hbehind,
      Nat.add_sub_cancel' (by omega), h.labelled]

/-- The token of an inserted label. -/
theorem onLabel_inserted (hle : start ≤ stop) (hstop : stop ≤ text.length)
    (pick : ComposerTokenPick) (id : String) :
    OnLabel (insertTokenText text start stop pick.label).text (pick.place id start (start + pick.label.length)) where
  stop_eq := rfl
  labelled := by
    have hlength : (text.take start).length = start := by
      rw [List.length_take]
      omega
    have hmiddle := slice_middle (text.take start) pick.label (spacer (text.drop stop) ++ text.drop stop)
    rw [hlength] at hmiddle
    rw [insertTokenText_text, List.append_assoc]
    exact hmiddle

/-- **A pick that is inserted** over a range that the tokens leave clear. -/
theorem placed_insert (hle : start ≤ stop) (hstop : stop ≤ text.length) (h : Placed text tokens) (hclear : ∀ token ∈ tokens, ClearOf start stop token)
    (pick : ComposerTokenPick) (id : String) :
    Placed (insertTokenText text start stop pick.label).text
      (sortByStart (shiftTokens tokens stop
          (((insertTokenText text start stop pick.label).text.length : ℤ) - text.length)
        ++ [pick.place id start (start + pick.label.length)])) := by
  have hnew : ∀ place, stop ≤ place →
      start + pick.label.length
        ≤ (place + (((insertTokenText text start stop pick.label).text.length : ℤ) - text.length)).toNat := by
    intro place hplace
    rw [insertTokenText_shift hle hstop pick.label hplace]
    simp only [List.length_append, List.length_take]
    omega
  refine placed_add ?_ ?_ ?_ (onLabel_inserted hle hstop pick id)
  · rw [shiftTokens, List.pairwise_map]
    refine h.apart.imp_of_mem fun {a b} ha hb hab => ?_
    have hsize := (h.onLabel a ha).stop_eq
    have hsize' := (h.onLabel b hb).stop_eq
    have hclear_a := hclear a ha
    have hclear_b := hclear b hb
    split_ifs with hfar hfar' hfar'
    · rcases hab with hab | hab
      · refine .inl ?_
        simp only [ComposerToken.moved_stop, ComposerToken.moved_start]
        rw [insertTokenText_shift hle hstop pick.label (by omega), insertTokenText_shift hle hstop pick.label hfar']
        omega
      · refine .inr ?_
        simp only [ComposerToken.moved_stop, ComposerToken.moved_start]
        rw [insertTokenText_shift hle hstop pick.label (by omega), insertTokenText_shift hle hstop pick.label hfar]
        omega
    · have hnew_a := hnew a.start hfar
      refine .inr ?_
      simp only [ComposerToken.moved_start]
      rcases hclear_b with hb' | hb' <;> omega
    · have hnew_b := hnew b.start hfar'
      refine .inl ?_
      simp only [ComposerToken.moved_start]
      rcases hclear_a with ha' | ha' <;> omega
    · exact hab
  · intro other hother
    obtain ⟨token, htoken, rfl⟩ := List.mem_map.1 hother
    split_ifs with hfar
    · exact onLabel_behind hle hstop pick.label (h.onLabel token htoken) hfar
    · exact onLabel_before hle hstop pick.label (h.onLabel token htoken) ((hclear token htoken).resolve_right hfar)
  · intro other hother
    obtain ⟨token, htoken, rfl⟩ := List.mem_map.1 hother
    split_ifs with hfar
    · exact .inr (hnew token.start hfar)
    · exact .inl ((hclear token htoken).resolve_right hfar)

theorem shiftTokens_ids (tokens : List ComposerToken) (stop : ℕ) (shift : ℤ) :
    (shiftTokens tokens stop shift).map (·.id) = tokens.map (·.id) := by
  rw [shiftTokens, List.map_map]
  refine List.map_congr_left fun _ _ => ?_
  simp only [Function.comp_apply]
  split_ifs <;> rfl

/-! ## Placeholders that are bound again -/

/-- The tokens that are bound so far sit on their labels in the text so far. -/
structure Bound (r : Rebinding) : Prop where
  sorted : r.rebound.Pairwise fun a b => a.stop ≤ b.start
  onLabel : ∀ token ∈ r.rebound, OnLabel r.text token ∧ token.stop ≤ r.text.length

theorem OnLabel.append (h : OnLabel text token)
    (hstop : token.stop ≤ text.length) (rest : CodeUnits) : OnLabel (text ++ rest) token where
  stop_eq := h.stop_eq
  labelled := by rw [slice_append_left hstop, h.labelled]

/-- One placeholder becomes a label, and its token sits on it. -/
theorem Bound.rebind (h : Bound r) (proposal : CodeUnits) (tokens : List ComposerToken)
    (found : PlaceholderMatch) : Bound (rebind proposal tokens r found) := by
  rw [Composer.rebind]
  rcases tokens[found.index - 1]? with _ | token
  · exact h
  · refine ⟨?_, fun other hother => ?_⟩
    · refine List.pairwise_append.2 ⟨h.sorted, List.pairwise_singleton _ _, fun a ha _ hb => ?_⟩
      have hstop := (h.onLabel a ha).2
      rw [List.mem_singleton.1 hb, ComposerToken.moved_start, List.length_append]
      omega
    · rcases List.mem_append.1 hother with hother | hother
      · obtain ⟨hlabel, hstop⟩ := h.onLabel other hother
        refine ⟨?_, ?_⟩
        · dsimp only
          rw [List.append_assoc]
          exact hlabel.append hstop _
        · simp only [List.length_append]
          omega
      · rw [List.mem_singleton.1 hother]
        refine ⟨⟨rfl, ?_⟩, ?_⟩
        · have hmiddle := slice_middle (r.text ++ slice proposal r.position found.position) token.label []
          rw [List.append_nil] at hmiddle
          exact hmiddle
        · simp only [ComposerToken.moved_stop, List.length_append, le_refl]

theorem Bound.foldl_rebind (h : Bound r) (proposal : CodeUnits) (tokens : List ComposerToken)
    (found : List PlaceholderMatch) : Bound (found.foldl (Composer.rebind proposal tokens) r) := by
  induction found generalizing r with
  | nil => exact h
  | cons one found ih => exact ih (h.rebind proposal tokens one)

/-- The id of the token that a placeholder stands for. -/
def boundId (tokens : List ComposerToken) (index : ℕ) : String := ((tokens.map (·.id))[index - 1]?).getD ""

theorem foldl_rebind_ids (proposal : CodeUnits) {found : List PlaceholderMatch}
    (h : ∀ one ∈ found, 1 ≤ one.index ∧ one.index ≤ tokens.length) (r : Rebinding) :
    (found.foldl (rebind proposal tokens) r).rebound.map (·.id)
      = r.rebound.map (·.id) ++ (found.map (·.index)).map (boundId tokens) := by
  induction found generalizing r with
  | nil => simp
  | cons one found ih =>
    obtain ⟨hone, hrest⟩ := List.forall_mem_cons.1 h
    have hlt : one.index - 1 < tokens.length := by omega
    have htoken : tokens[one.index - 1]? = some tokens[one.index - 1] := List.getElem?_eq_getElem hlt
    have hid : boundId tokens one.index = tokens[one.index - 1].id := by
      rw [boundId, List.getElem?_map, htoken]
      rfl
    rw [List.foldl_cons, ih hrest, rebind, htoken, List.map_append, List.map_singleton, List.map_cons,
      List.map_cons, hid, List.append_assoc]
    rfl

/-- Placeholders that are each there once stand for different tokens. -/
theorem boundIds_nodup (h : (tokens.map (·.id)).Nodup) {indices : List ℕ}
    (hindices : indices.Nodup) (hrange : ∀ index ∈ indices, 1 ≤ index ∧ index ≤ tokens.length) :
    (indices.map (boundId tokens)).Nodup := by
  refine hindices.map_on fun i hi j hj heq => ?_
  obtain ⟨hi, hi'⟩ := hrange i hi
  obtain ⟨hj, hj'⟩ := hrange j hj
  have hlt : i - 1 < (tokens.map (·.id)).length := by
    rw [List.length_map]
    omega
  have hlt' : j - 1 < (tokens.map (·.id)).length := by
    rw [List.length_map]
    omega
  rw [boundId, boundId, List.getElem?_eq_getElem hlt, List.getElem?_eq_getElem hlt'] at heq
  have hsame := (h.getElem_inj_iff).1 heq
  omega

/-- **Tokens that are bound again** sit on their labels, and are the tokens there were. -/
theorem placed_restore {proposal : CodeUnits} {rebound : List ComposerToken}
    (hpicked : Picked seq tokens) (h : restoreTokenPlaceholders proposal tokens = some (text, rebound)) :
    Placed text rebound ∧ Picked seq rebound := by
  rw [restoreTokenPlaceholders] at h
  split_ifs at h with hbound
  obtain ⟨rfl, rfl⟩ := Prod.mk.inj (Option.some.inj h)
  have hbound' : ((placeholders 0 proposal).map (·.index)).Nodup
      ∧ ∀ one ∈ placeholders 0 proposal, 1 ≤ one.index ∧ one.index ≤ tokens.length := by
    rw [Bool.not_eq_false] at hbound
    simp only [boundOnce, Bool.and_eq_true, decide_eq_true_eq, List.all_eq_true] at hbound
    exact hbound.1
  have hnil : Bound ⟨[], 0, []⟩ := ⟨.nil, by simp⟩
  have hlast := hnil.foldl_rebind proposal tokens (placeholders 0 proposal)
  have hids := foldl_rebind_ids proposal hbound'.2 ⟨[], 0, []⟩
  rw [List.map_nil, List.nil_append] at hids
  refine ⟨placed_sort (hlast.sorted.imp .inl) fun token htoken => ?_, Picked.sort ⟨?_, fun token htoken => ?_⟩⟩
  · obtain ⟨hlabel, hstop⟩ := hlast.onLabel token htoken
    exact hlabel.append hstop _
  · rw [hids]
    refine boundIds_nodup hpicked.ids hbound'.1 fun index hindex => ?_
    obtain ⟨one, hone, rfl⟩ := List.mem_map.1 hindex
    exact hbound'.2 one hone
  · have hid := List.mem_map_of_mem (f := (·.id)) htoken
    rw [hids] at hid
    obtain ⟨index, hindex, heq⟩ := List.mem_map.1 hid
    obtain ⟨one, hone, rfl⟩ := List.mem_map.1 hindex
    obtain ⟨hpos, hle⟩ := hbound'.2 one hone
    have hlt : one.index - 1 < tokens.length := by omega
    obtain ⟨n, hn, hnumber⟩ := hpicked.numbered _ (List.getElem_mem hlt)
    refine ⟨n, hn, heq.symm.trans ?_⟩
    rw [boundId, List.getElem?_map, List.getElem?_eq_getElem hlt]
    exact hnumber

end Falryn.Composer
