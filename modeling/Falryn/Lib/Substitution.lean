import Mathlib

/-!
# Simultaneous substitution in a list

An `Edit` replaces a range of a list by another text, or inserts a text at a point.  This file says
what it means to carry out a set of edits *simultaneously* — every edit is addressed in the original
list — and relates that meaning to carrying them out one after the other by `splice`.

* `substitute l es` is the specification.  It walks the positions of `l` once, and at each of them
  emits the texts of the edits that start there and then the entry itself unless an edit removes it.
  Nothing in it depends on the order in which `es` is listed (`substitute_perm`).
* `shift es p` is how far the edits that start before `p` move whatever stands at `p`.
* `substitute_cons` is the step: one more edit, disjoint from the others, is one more `splice`, at
  its own start moved by the shift of the others.
* `foldr_splice_eq_substitute` is the run: splicing the edits from the last of the list to the first
  at their *unmoved* starts gives the substitution as soon as no edit is shifted by those listed
  after it.
-/

namespace Substitution

variable {α : Type*}

/-- Replace the `count` entries from `start` on by `text`.  With `count = 0` this is an insertion
before the entry at `start`. -/
structure Edit (α : Type*) where
  /-- The first position the edit is about, in the original list. -/
  start : ℕ
  /-- How many entries it removes. -/
  count : ℕ
  /-- What it puts in their place. -/
  text : List α

namespace Edit

/-- The first position after the removed entries. -/
def stop (e : Edit α) : ℕ := e.start + e.count

/-- By how much the edit lengthens the list. -/
def delta (e : Edit α) : ℤ := (e.text.length : ℤ) - (e.count : ℤ)

/-- Whether the edit removes the entry at `i`. -/
def covers (e : Edit α) (i : ℕ) : Bool := decide (e.start ≤ i ∧ i < e.stop)

/-- Two edits are disjoint when one lies wholly before the other.  The starts must differ, so two
insertions at one point are not disjoint, and neither are an insertion and a range it opens. -/
def Disjoint (a b : Edit α) : Prop :=
  (a.start < b.start ∧ a.stop ≤ b.start) ∨ (b.start < a.start ∧ b.stop ≤ a.start)

instance (a b : Edit α) : Decidable (a.Disjoint b) := inferInstanceAs (Decidable (_ ∨ _))

variable {a b : Edit α}

theorem Disjoint.symm (h : a.Disjoint b) : b.Disjoint a := Or.symm h

theorem Disjoint.start_ne (h : a.Disjoint b) : a.start ≠ b.start := by
  rcases h with h | h <;> omega

end Edit

/-- Remove `count` entries at `p` and put `text` there.  Past the end this appends, as the array
operation of that name does. -/
def splice (l : List α) (p count : ℕ) (text : List α) : List α :=
  l.take p ++ text ++ l.drop (p + count)

/-! ## The specification -/

/-- What position `i` of the original list contributes to the result. -/
def piece (l : List α) (es : List (Edit α)) (i : ℕ) : List α :=
  (es.filter fun e => e.start = i).flatMap Edit.text
    ++ if es.any fun e => e.covers i then [] else l[i]?.toList

/-- The result of the substitution up to, and not including, position `p` of the original. -/
def substituteBelow (l : List α) (es : List (Edit α)) (p : ℕ) : List α :=
  (List.range p).flatMap (piece l es)

/-- **Simultaneous substitution.**  The last position contributes the texts inserted at the end. -/
def substitute (l : List α) (es : List (Edit α)) : List α :=
  substituteBelow l es (l.length + 1)

/-- How far the edits starting before `p` move position `p`. -/
def shift (es : List (Edit α)) (p : ℕ) : ℤ :=
  ((es.filter fun e => e.start < p).map Edit.delta).sum

@[simp] theorem shift_nil (p : ℕ) : shift ([] : List (Edit α)) p = 0 := rfl

theorem shift_cons (e : Edit α) (es : List (Edit α)) (p : ℕ) :
    shift (e :: es) p = (if e.start < p then e.delta else 0) + shift es p := by
  by_cases h : e.start < p <;> simp [shift, h]

theorem shift_append (es es' : List (Edit α)) (p : ℕ) :
    shift (es ++ es') p = shift es p + shift es' p := by
  simp [shift]

variable {es es' : List (Edit α)}

theorem shift_perm (h : es.Perm es') (p : ℕ) : shift es p = shift es' p :=
  ((h.filter _).map _).sum_eq

/-! ## One position -/

variable {l : List α} {i : ℕ}

theorem piece_of_free (hs : ∀ e ∈ es, e.start ≠ i) (hc : ∀ e ∈ es, e.covers i = false) :
    piece l es i = l[i]?.toList := by
  have h1 : (es.filter fun e => e.start = i) = [] := by
    rw [List.filter_eq_nil_iff]
    intro e he
    simpa using hs e he
  have h2 : (es.any fun e => e.covers i) = false := by
    rw [List.any_eq_false]
    intro e he
    simp [hc e he]
  rw [piece, h1, h2]
  simp

variable {e : Edit α}

theorem piece_cons_of_ne
    (hs : e.start ≠ i) (hc : e.covers i = false) : piece l (e :: es) i = piece l es i := by
  simp [piece, hs, hc]

theorem piece_perm (h : es.Perm es')
    (hd : es.Pairwise Edit.Disjoint) (i : ℕ) : piece l es i = piece l es' i := by
  -- at most one edit starts at `i`, so the two filtered lists are equal and not only permuted
  have hp := h.filter fun e => e.start = i
  have hpw := hd.filter fun e => e.start = i
  have hmem : ∀ e ∈ es.filter fun e => e.start = i, e.start = i := by
    intro e he
    simpa using (List.mem_filter.1 he).2
  have hf : (es.filter fun e => e.start = i) = es'.filter fun e => e.start = i := by
    generalize es.filter (fun e => e.start = i) = fs at hp hpw hmem
    match fs, hp, hpw, hmem with
    | [], hp, _, _ => exact hp.nil_eq
    | [a], hp, _, _ => exact List.singleton_perm.1 hp ▸ rfl
    | a :: b :: rest, _, hpw, hmem =>
      rw [List.pairwise_cons] at hpw
      have hab : a.start = b.start := (hmem a (by simp)).trans (hmem b (by simp)).symm
      exact absurd hab (hpw.1 b (by simp)).start_ne
  have hany : (es.any fun e => e.covers i) = es'.any fun e => e.covers i := by
    rw [Bool.eq_iff_iff, List.any_eq_true, List.any_eq_true]
    exact ⟨fun ⟨e, he, hc⟩ => ⟨e, h.mem_iff.1 he, hc⟩, fun ⟨e, he, hc⟩ => ⟨e, h.mem_iff.2 he, hc⟩⟩
  rw [piece, piece, hf, hany]

/-- **The order of the edits does not matter.** -/
theorem substitute_perm (h : es.Perm es')
    (hd : es.Pairwise Edit.Disjoint) : substitute l es = substitute l es' := by
  rw [substitute, substitute, substituteBelow, substituteBelow]
  congr 1
  funext i
  exact piece_perm h hd i

/-! ## One more edit -/

theorem substituteBelow_nil (l : List α) (p : ℕ) : substituteBelow l [] p = l.take p := by
  induction p with
  | zero => simp [substituteBelow]
  | succ p ih =>
    rw [substituteBelow] at ih ⊢
    rw [List.range_succ, List.flatMap_append, ih, List.flatMap_singleton, List.take_add_one]
    simp [piece]

theorem substitute_nil (l : List α) : substitute l [] = l := by
  rw [substitute, substituteBelow_nil, List.take_of_length_le (by omega)]

/-- The part of the result that comes from positions `p` up to `q`. -/
def segment (l : List α) (es : List (Edit α)) (p q : ℕ) : List α :=
  (List.range' p (q - p)).flatMap (piece l es)

variable {p q : ℕ}

theorem substituteBelow_split (l : List α) (es : List (Edit α)) (h : p ≤ q) :
    substituteBelow l es q = substituteBelow l es p ++ segment l es p q := by
  have hr : List.range q = List.range p ++ List.range' p (q - p) := by
    have h' := List.range'_append_1 (s := 0) (m := p) (n := q - p)
    rw [Nat.zero_add, Nat.add_sub_cancel' h] at h'
    rw [List.range_eq_range', List.range_eq_range', h']
  rw [substituteBelow, substituteBelow, segment, hr, List.flatMap_append]

theorem segment_split (l : List α) (es : List (Edit α)) {r : ℕ} (hpq : p ≤ q) (hqr : q ≤ r) :
    segment l es p r = segment l es p q ++ segment l es q r := by
  rw [segment, segment, segment, ← List.flatMap_append]
  have h : List.range' q (r - q) = List.range' (p + (q - p)) (r - q) := by
    congr 1
    omega
  rw [h, List.range'_append_1]
  congr 2
  omega

theorem segment_congr (h : ∀ i, p ≤ i → i < q → piece l es i = piece l es' i) :
    segment l es p q = segment l es' p q := by
  rw [segment, segment, List.flatMap_def, List.flatMap_def]
  congr 1
  refine List.map_congr_left fun i hi => ?_
  have hi' := List.mem_range'_1.1 hi
  exact h i hi'.1 (by omega)

theorem substituteBelow_congr (h : ∀ i, i < p → piece l es i = piece l es' i) :
    substituteBelow l es p = substituteBelow l es' p := by
  rw [substituteBelow, substituteBelow, List.flatMap_def, List.flatMap_def]
  congr 1
  exact List.map_congr_left fun i hi => h i (List.mem_range.1 hi)

theorem segment_of_free (hpq : p ≤ q) (h : ∀ i, p ≤ i → i < q → piece l es i = l[i]?.toList) :
    segment l es p q = (l.drop p).take (q - p) := by
  rw [segment]
  obtain ⟨n, rfl⟩ := Nat.le.dest hpq
  rw [Nat.add_sub_cancel_left]
  induction n with
  | zero => simp
  | succ n ih =>
    rw [List.range'_1_concat, List.flatMap_append,
      ih (by omega) fun i h1 _ => h i h1 (by omega), List.flatMap_singleton,
      h (p + n) (by omega) (by omega), List.take_add_one, List.getElem?_drop]

section Cons

variable {l : List α} {e : Edit α} {es : List (Edit α)}

variable {p : ℕ}

theorem substituteBelow_cons_of_le (hp : p ≤ e.start) :
    substituteBelow l (e :: es) p = substituteBelow l es p := by
  refine substituteBelow_congr fun _ _ => piece_cons_of_ne (by omega) ?_
  rw [Edit.covers, decide_eq_false_iff_not]
  omega

/-- The positions from the edit's start on contribute its text and then what follows its range. -/
theorem segment_cons_start (hd : ∀ b ∈ es, e.Disjoint b) (hp : e.start < p) (hstop : e.stop ≤ p) :
    segment l (e :: es) e.start p = e.text ++ segment l es e.stop p := by
  have htail : ∀ i, e.stop ≤ i → e.start < i → piece l (e :: es) i = piece l es i := by
    intro i h1 h2
    refine piece_cons_of_ne (by omega) ?_
    rw [Edit.covers, decide_eq_false_iff_not]
    omega
  have hhead : segment l (e :: es) e.start (e.start + 1)
      = piece l (e :: es) e.start := by
    simp [segment]
  rcases Nat.eq_zero_or_pos e.count with hc | hc
  · -- an insertion: its own position still contributes whatever the others leave there
    have hst : e.stop = e.start := by rw [Edit.stop, hc, Nat.add_zero]
    have hcov : e.covers e.start = false := by
      rw [Edit.covers, decide_eq_false_iff_not]
      omega
    have hp0 : piece l (e :: es) e.start = e.text ++ piece l es e.start := by
      simp [piece, hcov]
    rw [segment_split l (e :: es) (Nat.le_succ e.start) hp, hhead, hp0, hst,
      segment_split l es (Nat.le_succ e.start) hp,
      segment_congr fun i h1 h2 => htail i (by omega) (by omega)]
    simp [segment]
  · -- a range: the others neither start nor reach into it
    have hstop' : e.start + 1 ≤ e.stop := by rw [Edit.stop]; omega
    have hcov : e.covers e.start = true := by
      rw [Edit.covers, decide_eq_true_eq]
      omega
    have hfil : ∀ i, e.start ≤ i → i < e.stop → (es.filter fun b => b.start = i) = [] := by
      intro i h1 h2
      rw [List.filter_eq_nil_iff]
      intro b hb hbi
      have hbi' : b.start = i := by simpa using hbi
      rcases hd b hb with h | h <;> omega
    have hp0 : piece l (e :: es) e.start = e.text := by
      simp [piece, hcov, hfil e.start le_rfl (by omega)]
    have hmid : segment l (e :: es) (e.start + 1) e.stop = [] := by
      rw [segment, List.flatMap_eq_nil_iff]
      intro i hi
      have hi' := List.mem_range'_1.1 hi
      have hcov' : e.covers i = true := by
        rw [Edit.covers, decide_eq_true_eq]
        omega
      have hne : e.start ≠ i := by omega
      simp [piece, hcov', hne, hfil i (by omega) (by omega)]
    rw [segment_split l (e :: es) (Nat.le_succ e.start) hp, hhead, hp0,
      segment_split l (e :: es) hstop' hstop, hmid, List.nil_append,
      segment_congr fun i h1 h2 => htail i h1 (by omega)]

/-- The positions of the edit's range contribute their own entries to the other edits' result. -/
theorem segment_range_of_disjoint (hd : ∀ b ∈ es, e.Disjoint b) :
    segment l es e.start e.stop = (l.drop e.start).take e.count := by
  have hfree : ∀ i, e.start ≤ i → i < e.stop → piece l es i = l[i]?.toList := by
    intro i h1 h2
    refine piece_of_free (fun b hb => ?_) fun b hb => ?_
    · rcases hd b hb with h | h <;> omega
    · rw [Edit.covers, decide_eq_false_iff_not]
      rcases hd b hb with h | h <;> omega
  rw [segment_of_free (by rw [Edit.stop]; omega) hfree, Edit.stop, Nat.add_sub_cancel_left]

theorem substituteBelow_cons (hd : ∀ b ∈ es, e.Disjoint b) (hp : e.start < p) (hstop : e.stop ≤ p) :
    substituteBelow l (e :: es) p
      = substituteBelow l es e.start ++ e.text ++ segment l es e.stop p := by
  rw [substituteBelow_split l (e :: es) hp.le, substituteBelow_cons_of_le le_rfl,
    segment_cons_start hd hp hstop, List.append_assoc]

theorem substituteBelow_eq_split (hd : ∀ b ∈ es, e.Disjoint b) (hstop : e.stop ≤ p) :
    substituteBelow l es p
      = substituteBelow l es e.start ++ (l.drop e.start).take e.count ++ segment l es e.stop p := by
  have h1 : e.start ≤ e.stop := by rw [Edit.stop]; omega
  rw [substituteBelow_split l es (h1.trans hstop), segment_split l es h1 hstop,
    segment_range_of_disjoint hd, List.append_assoc]

end Cons

/-- A position is on a border of the edits when it is not strictly inside the range of one. -/
def Border (es : List (Edit α)) (p : ℕ) : Prop := ∀ e ∈ es, e.start < p → e.stop ≤ p

theorem Border.tail {e : Edit α} {es : List (Edit α)} {p : ℕ} (h : Border (e :: es) p) :
    Border es p := fun b hb => h b (List.mem_cons_of_mem _ hb)

theorem border_of_disjoint (hd : ∀ b ∈ es, e.Disjoint b) : Border es e.start := by
  intro b hb _
  rcases hd b hb with h | h <;> omega

/-- **How much of the result precedes a border.**  Each edit before it accounts for its `delta`. -/
theorem length_substituteBelow : ∀ {es : List (Edit α)} {p : ℕ},
    es.Pairwise Edit.Disjoint → (∀ e ∈ es, e.stop ≤ l.length) → Border es p → p ≤ l.length →
    ((substituteBelow l es p).length : ℤ) = p + shift es p := by
  intro es
  induction es with
  | nil =>
    intro p _ _ _ hp
    rw [substituteBelow_nil, List.length_take, min_eq_left hp, shift_nil, add_zero]
  | cons e es ih =>
    intro p hd hfit hb hp
    rw [List.pairwise_cons] at hd
    have hrest := ih hd.2 (fun b h => hfit b (List.mem_cons_of_mem _ h)) hb.tail hp
    rw [shift_cons]
    by_cases hlt : e.start < p
    · have hstop := hb e List.mem_cons_self hlt
      have hcount : ((l.drop e.start).take e.count).length = e.count := by
        have hfit' := hfit e List.mem_cons_self
        rw [Edit.stop] at hfit'
        rw [List.length_take, List.length_drop]
        omega
      rw [substituteBelow_eq_split hd.1 hstop] at hrest
      simp only [List.length_append, hcount] at hrest
      rw [substituteBelow_cons hd.1 hlt hstop, if_pos hlt, Edit.delta]
      simp only [List.length_append]
      push_cast at hrest ⊢
      omega
    · rw [substituteBelow_cons_of_le (by omega), if_neg hlt, zero_add]
      exact hrest

/-- Around one of its edits the result is what precedes the edit, its text, and the rest. -/
theorem substitute_around (hd : ∀ b ∈ es, e.Disjoint b) (hfit : e.stop ≤ l.length) :
    substitute l (e :: es)
      = substituteBelow l (e :: es) e.start ++ e.text ++ segment l es e.stop (l.length + 1) := by
  have h : e.start ≤ e.stop := by rw [Edit.stop]; omega
  rw [substitute, substituteBelow_cons hd (by omega) (by omega), substituteBelow_cons_of_le le_rfl]

/-- **One more edit is one more splice**, at the edit's start moved by the shift of the others. -/
theorem substitute_cons
    (hd : (e :: es).Pairwise Edit.Disjoint) (hfit : ∀ b ∈ e :: es, b.stop ≤ l.length)
    (hp : (p : ℤ) = e.start + shift es e.start) :
    substitute l (e :: es) = splice (substitute l es) p e.count e.text := by
  rw [List.pairwise_cons] at hd
  have hfit' := hfit e List.mem_cons_self
  have hle : e.start ≤ e.stop := by rw [Edit.stop]; omega
  have hlen := length_substituteBelow hd.2 (fun b h => hfit b (List.mem_cons_of_mem _ h))
    (border_of_disjoint hd.1) (hle.trans hfit')
  have hcount : ((l.drop e.start).take e.count).length = e.count := by
    rw [Edit.stop] at hfit'
    rw [List.length_take, List.length_drop]
    omega
  have hplen : (substituteBelow l es e.start).length = p := by omega
  have hsplit := substituteBelow_eq_split (l := l) hd.1 (p := l.length + 1) (by omega)
  rw [List.append_assoc] at hsplit
  rw [substitute, substitute, substituteBelow_cons hd.1 (by omega) (by omega), splice, hsplit,
    List.take_left' hplen, ← List.drop_drop, List.drop_left' hplen, List.drop_left' hcount]

/-- **Splicing from the last edit of the list to the first.**  If no edit is shifted by those
listed after it, splicing each of them at its own unmoved start carries them all out at once. -/
theorem foldr_splice_eq_substitute : ∀ {es : List (Edit α)},
    es.Pairwise Edit.Disjoint → (∀ e ∈ es, e.stop ≤ l.length) →
    (∀ a e b, es = a ++ e :: b → shift b e.start = 0) →
    es.foldr (fun e acc => splice acc e.start e.count e.text) l = substitute l es := by
  intro es
  induction es with
  | nil => intro _ _ _; rw [List.foldr_nil, substitute_nil]
  | cons e es ih =>
    intro hd hfit hshift
    have hrest := ih (List.Pairwise.of_cons hd) (fun b h => hfit b (List.mem_cons_of_mem _ h))
      fun a e' b h => hshift (e :: a) e' b (by rw [h, List.cons_append])
    rw [List.foldr_cons, hrest, substitute_cons hd hfit (p := e.start)]
    rw [hshift [] e es rfl, add_zero]

end Substitution
