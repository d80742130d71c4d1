import Mathlib

/-!
# Loops that can be told to stop

A loop over a list that asks before each item whether it is to go on.  The rules: what each step keeps the
loop keeps, what a step establishes and the others keep holds of every item of a loop that was not stopped,
and a loop in which all items but a few do nothing is those few steps.
-/

namespace Scan

variable {σ α : Type*}

/-- Goes through a list, halting at the first item before which it is told to stop. -/
def scan (stops : α → Bool) (halt : σ → σ) (step : σ → α → σ) : List α → σ → σ
  | [], s => s
  | a :: as, s => if stops a then halt s else scan stops halt step as (step s a)

variable {stops : α → Bool} {halt : σ → σ} {step : σ → α → σ} {as : List α} {s : σ}
  {I : List α → σ → Prop}

theorem scan_cons {a : α} : scan stops halt step (a :: as) s
    = if stops a then halt s else scan stops halt step as (step s a) := rfl

/-- **The invariant rule**, for an invariant that knows what is still to come. -/
theorem scan_preserves_rest (hhalt : ∀ rest s, I rest s → I [] (halt s))
    (hstep : ∀ a rest s, I (a :: rest) s → I rest (step s a)) (hs : I as s) :
    I [] (scan stops halt step as s) := by
  induction as generalizing s with
  | nil => exact hs
  | cons a as ih =>
    rw [scan_cons]
    split_ifs
    · exact hhalt _ s hs
    · exact ih (hstep a as s hs)

/-- The invariant rule. -/
theorem scan_preserves {I : σ → Prop} (hhalt : ∀ s, I s → I (halt s))
    (hstep : ∀ a ∈ as, ∀ s, I s → I (step s a)) (hs : I s) : I (scan stops halt step as s) := by
  refine (scan_preserves_rest (I := fun rest s => (∀ a ∈ rest, a ∈ as) ∧ I s) ?_ ?_ ⟨fun _ h => h, hs⟩).2
  · exact fun _ s h => ⟨by simp, hhalt s h.2⟩
  · exact fun a rest s h => ⟨fun b hb => h.1 b (List.mem_cons_of_mem a hb), hstep a (h.1 a List.mem_cons_self) s h.2⟩

/-- A loop that nothing stops is a fold. -/
theorem scan_eq_foldl (h : ∀ a ∈ as, stops a = false) : scan stops halt step as s = as.foldl step s := by
  induction as generalizing s with
  | nil => rfl
  | cons a as ih =>
    obtain ⟨ha, has⟩ := List.forall_mem_cons.1 h
    rw [scan_cons, ha, if_neg Bool.false_ne_true, ih has, List.foldl_cons]

/-- **What every step of a clean loop leaves behind.**  Halting soils the state for good, and so may a step;
what a step that stays clean establishes for its item the other steps keep. -/
theorem scan_done {Clean : σ → Prop} {Done : α → σ → Prop}
    (hhalt : ∀ s, ¬ Clean (halt s)) (hclean : ∀ a rest s, I (a :: rest) s → Clean (step s a) → Clean s)
    (hI : ∀ a rest s, I (a :: rest) s → I rest (step s a))
    (hdone : ∀ a rest s, I (a :: rest) s → Clean (step s a) → Done a (step s a))
    (hkeep : ∀ a b rest s, I (a :: rest) s → Done b s → Done b (step s a)) (hs : I as s)
    (h : Clean (scan stops halt step as s)) :
    Clean s ∧ ∀ a ∈ as, Done a (scan stops halt step as s) := by
  suffices hall : ∀ done : List α, (∀ b ∈ done, Done b s) →
      Clean s ∧ ∀ b ∈ done ++ as, Done b (scan stops halt step as s) from hall [] (by simp)
  induction as generalizing s with
  | nil => exact fun done hdone => ⟨h, by simpa [scan] using hdone⟩
  | cons a as ih =>
    intro done hprevious
    rw [scan_cons] at h ⊢
    split_ifs at h ⊢ with hstop
    · exact absurd h (hhalt s)
    · have hfirst := (ih (hI a as s hs) h [] (by simp)).1
      have hrest := ih (hI a as s hs) h (done ++ [a]) fun b hb => by
        rcases List.mem_append.1 hb with hb | hb
        · exact hkeep a b as s hs (hprevious b hb)
        · rw [List.mem_singleton.1 hb]
          exact hdone a as s hs hfirst
      exact ⟨hclean a as s hs hfirst, by simpa using hrest.2⟩

/-! ## Loops in which little happens -/

section Idle

variable {R : σ → σ → Prop}

theorem foldl_idle (hrefl : ∀ s, R s s) (htrans : ∀ s t u, R s t → R t u → R s u)
    (hidle : ∀ a ∈ as, ∀ s, R s (step s a)) (s : σ) : R s (as.foldl step s) := by
  induction as generalizing s with
  | nil => exact hrefl s
  | cons a as ih =>
    obtain ⟨ha, has⟩ := List.forall_mem_cons.1 hidle
    exact htrans _ _ _ (ha s) (ih has (step s a))

variable {a : α} {b : α}

/-- A loop in which one item does something. -/
theorem foldl_one (hrefl : ∀ s, R s s) (htrans : ∀ s t u, R s t → R t u → R s u) (ha : a ∈ as)
    (hnodup : as.Nodup) (hidle : ∀ b ∈ as, b ≠ a → ∀ s, R s (step s b)) (s : σ) :
    ∃ t, R s t ∧ R (step t a) (as.foldl step s) := by
  obtain ⟨before, after, rfl⟩ := List.append_of_mem ha
  have hout := List.nodup_middle.1 hnodup
  have hne : ∀ b ∈ before ++ after, b ≠ a := fun b hb h => (List.nodup_cons.1 hout).1 (h ▸ hb)
  refine ⟨before.foldl step s, foldl_idle hrefl htrans (fun b hb => hidle b (by simp [hb])
    (hne b (by simp [hb]))) s, ?_⟩
  rw [List.foldl_append, List.foldl_cons]
  exact foldl_idle hrefl htrans (fun b hb => hidle b (by simp [hb]) (hne b (by simp [hb]))) _

/-- A loop in which two items do something, one after the other. -/
theorem foldl_two (hrefl : ∀ s, R s s) (htrans : ∀ s t u, R s t → R t u → R s u) {l m : List α}
    (heq : as = l ++ m) (ha : a ∈ l) (hb : b ∈ m) (hnodup : as.Nodup)
    (hidle : ∀ c ∈ as, c ≠ a → c ≠ b → ∀ s, R s (step s c)) (s : σ) :
    ∃ t u, R s t ∧ R (step t a) u ∧ R (step u b) (as.foldl step s) := by
  subst heq
  have hdisjoint := List.disjoint_of_nodup_append hnodup
  obtain ⟨t, hst, htl⟩ := foldl_one hrefl htrans ha hnodup.of_append_left
    (fun c hc hne => hidle c (List.mem_append_left m hc) hne fun h => hdisjoint hc (h ▸ hb)) s
  obtain ⟨u, hlu, hub⟩ := foldl_one hrefl htrans hb hnodup.of_append_right
    (fun c hc hne => hidle c (List.mem_append_right l hc) (fun h => hdisjoint ha (h ▸ hc)) hne)
    (l.foldl step s)
  exact ⟨t, u, hst, htrans _ _ _ htl hlu, by rwa [List.foldl_append]⟩

/-- Two members of a list are apart in it, in one order or the other. -/
theorem exists_cut (ha : a ∈ as) (hb : b ∈ as) (hne : a ≠ b) :
    (∃ l m, as = l ++ m ∧ a ∈ l ∧ b ∈ m) ∨ ∃ l m, as = l ++ m ∧ b ∈ l ∧ a ∈ m := by
  obtain ⟨l, m, rfl⟩ := List.append_of_mem ha
  rcases List.mem_append.1 hb with hb | hb
  · exact .inr ⟨l, a :: m, rfl, hb, List.mem_cons_self⟩
  · exact .inl ⟨l ++ [a], m, by simp, by simp, (List.mem_cons.1 hb).resolve_left (Ne.symm hne)⟩

end Idle

end Scan
