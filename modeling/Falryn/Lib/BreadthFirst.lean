import Mathlib

/-!
# Breadth-first walks through a forest

A walk that takes the next item from a queue, collects it and queues what lies directly below it.
Where the items form a forest, as many rounds as there are items are enough, and the walk collects
exactly what can be reached from the queue.

`visit x` is what lies directly below `x`, or `none` if the walk passes over `x` and everything below
it.
-/

namespace BreadthFirst

variable {α : Type*}

/-- The items collected from a queue in at most `n` rounds, in the order of their collection. -/
def sweep (visit : α → Option (List α)) : ℕ → List α → List α
  | 0, _ => []
  | _ + 1, [] => []
  | n + 1, x :: queue =>
    match visit x with
    | none => sweep visit n queue
    | some next => x :: sweep visit n (queue ++ next)

/-- The walk goes on from `x` to `y`. -/
def Edge (visit : α → Option (List α)) (x y : α) : Prop := ∃ next, visit x = some next ∧ y ∈ next

/-- The walk can get from `x` to `y`. -/
def Reaches (visit : α → Option (List α)) : α → α → Prop := Relation.ReflTransGen (Edge visit)

variable {visit : α → Option (List α)}

variable {x y : α} {n : ℕ} {queue : List α}

theorem Reaches.of_visit_eq_none (h : Reaches visit x y) (hx : visit x = none) : y = x := by
  rcases h.cases_head with rfl | ⟨z, ⟨next, hnext, _⟩, _⟩
  · rfl
  · rw [hx] at hnext
    cases hnext

/-- What a walk collects can be reached from its queue, and is not passed over. -/
theorem reaches_of_mem_sweep (h : x ∈ sweep visit n queue) :
    ∃ r ∈ queue, Reaches visit r x ∧ visit x ≠ none := by
  induction n generalizing queue with
  | zero => cases h
  | succ n ih =>
    rcases queue with _ | ⟨y, queue⟩
    · cases h
    · rw [sweep] at h
      split at h
      · obtain ⟨r, hr, hx⟩ := ih h
        exact ⟨r, .tail _ hr, hx⟩
      next next hnext =>
        rcases List.mem_cons.1 h with rfl | h
        · exact ⟨x, .head _, .refl, by rw [hnext]; exact Option.some_ne_none next⟩
        · obtain ⟨r, hr, hx, hvisit⟩ := ih h
          rcases List.mem_append.1 hr with hr | hr
          · exact ⟨r, .tail _ hr, hx, hvisit⟩
          · exact ⟨y, .head _, hx.head ⟨next, hnext, hr⟩, hvisit⟩

/-! ## Forests -/

/-- What lies below an item has it as its parent, has a higher rank, is listed once and is among
finitely many items. -/
structure Forest (visit : α → Option (List α)) (parent : α → Option α) (rank : α → ℕ)
    (items : Finset α) : Prop where
  /-- An item has at most one item above it. -/
  parent_eq : ∀ {x y}, Edge visit x y → parent y = some x
  /-- Ranks grow downwards. -/
  rank_lt : ∀ {x y}, Edge visit x y → rank x < rank y
  /-- The walk stays among the items. -/
  mem : ∀ {x y}, Edge visit x y → y ∈ items
  /-- Nothing is queued twice. -/
  nodup : ∀ {x next}, visit x = some next → next.Nodup

/-- A row of items directly below one item. -/
structure Row (parent : α → Option α) (rank : α → ℕ) (items : Finset α) (top : α)
    (row : List α) : Prop where
  parent_eq : ∀ {y}, y ∈ row → parent y = some top
  rank_lt : ∀ {y}, y ∈ row → rank top < rank y
  mem : ∀ {y}, y ∈ row → y ∈ items
  nodup : row.Nodup

/-- Neither of two items is reached from the other. -/
def Apart (visit : α → Option (List α)) (x y : α) : Prop :=
  ¬ Reaches visit x y ∧ ¬ Reaches visit y x

variable {parent : α → Option α} {rank : α → ℕ} {items : Finset α} {next : List α}

theorem Forest.row (h : Forest visit parent rank items)
    (hnext : visit x = some next) : Row parent rank items x next where
  parent_eq hy := h.parent_eq ⟨next, hnext, hy⟩
  rank_lt hy := h.rank_lt ⟨next, hnext, hy⟩
  mem hy := h.mem ⟨next, hnext, hy⟩
  nodup := h.nodup hnext

theorem Forest.rank_le (h : Forest visit parent rank items) (hxy : Reaches visit x y) :
    rank x ≤ rank y := by
  induction hxy with
  | refl => exact le_rfl
  | tail _ hedge ih => exact ih.trans (h.rank_lt hedge).le

variable {top : α}

/-- A walk that gets to an item below `top` starts there or passes `top`. -/
theorem Forest.reaches_top (h : Forest visit parent rank items)
    (hy : parent y = some top) (hxy : Reaches visit x y) : x = y ∨ Reaches visit x top := by
  rcases hxy.cases_tail with rfl | ⟨z, hxz, hedge⟩
  · exact .inl rfl
  · have hz : z = top := Option.some.inj ((h.parent_eq hedge).symm.trans hy)
    exact .inr (hz ▸ hxz)

variable {row : List α}

theorem Forest.not_reaches_top (h : Forest visit parent rank items)
    (hrow : Row parent rank items top row) (hy : y ∈ row) : ¬ Reaches visit y top :=
  fun hreach => absurd (h.rank_le hreach) (hrow.rank_lt hy).not_ge

/-- The items of a row are apart. -/
theorem Forest.row_apart (h : Forest visit parent rank items)
    (hrow : Row parent rank items top row) : row.Pairwise (Apart visit) := by
  have hnot : ∀ {x y}, x ∈ row → y ∈ row → x ≠ y → ¬ Reaches visit x y := by
    intro x y hx hy hne hreach
    rcases h.reaches_top (hrow.parent_eq hy) hreach with heq | htop
    · exact hne heq
    · exact h.not_reaches_top hrow hx htop
  refine hrow.nodup.pairwise_of_forall_ne fun x hx y hy hne => ?_
  exact ⟨hnot hx hy hne, hnot hy hx hne.symm⟩

/-- A queue stays apart when its first item gives way to what lies below it. -/
theorem Forest.queue_apart (h : Forest visit parent rank items)
    (hapart : (x :: queue).Pairwise (Apart visit)) (hnext : visit x = some next) :
    (queue ++ next).Pairwise (Apart visit) := by
  obtain ⟨hx, hqueue⟩ := List.pairwise_cons.1 hapart
  have hrow := h.row hnext
  refine List.pairwise_append.2 ⟨hqueue, h.row_apart hrow, fun a ha c hc => ?_⟩
  have hxc : Reaches visit x c := .single ⟨next, hnext, hc⟩
  constructor
  · intro hac
    rcases h.reaches_top (hrow.parent_eq hc) hac with rfl | hax
    · exact (hx a ha).1 hxc
    · exact (hx a ha).2 hax
  · intro hca
    exact (hx a ha).1 (hxc.trans hca)

section
open Classical

/-- The items that can be reached from a queue. -/
noncomputable def ahead (visit : α → Option (List α)) (items : Finset α) (queue : List α) :
    Finset α :=
  items.filter fun u => ∃ r ∈ queue, Reaches visit r u

variable {queue : List α}

theorem ahead_card_lt {queue' : List α} (hx : x ∈ items)
    (hsub : ∀ r ∈ queue', ∀ u, Reaches visit r u → ∃ r' ∈ x :: queue, Reaches visit r' u)
    (hnot : ∀ r ∈ queue', ¬ Reaches visit r x) :
    (ahead visit items queue').card < (ahead visit items (x :: queue)).card := by
  refine Finset.card_lt_card (Finset.ssubset_iff_of_subset ?_ |>.2 ⟨x, ?_, ?_⟩)
  · intro u hu
    obtain ⟨hu, r, hr, hru⟩ := Finset.mem_filter.1 hu
    exact Finset.mem_filter.2 ⟨hu, hsub r hr u hru⟩
  · exact Finset.mem_filter.2 ⟨hx, x, .head _, .refl⟩
  · intro hmem
    obtain ⟨-, r, hr, hrx⟩ := Finset.mem_filter.1 hmem
    exact hnot r hr hrx

theorem card_ahead_le (queue : List α) : (ahead visit items queue).card ≤ items.card :=
  Finset.card_le_card (Finset.filter_subset _ _)

/-- A walk with a round for each item ahead of it collects all of them that are not passed over. -/
theorem Forest.mem_sweep_of_reaches (h : Forest visit parent rank items)
    (hapart : queue.Pairwise (Apart visit)) (hqueue : ∀ r ∈ queue, r ∈ items)
    (hn : (ahead visit items queue).card ≤ n) {r : α} (hr : r ∈ queue)
    (hrx : Reaches visit r x) (hx : visit x ≠ none) : x ∈ sweep visit n queue := by
  induction n generalizing queue r with
  | zero =>
    have hmem : r ∈ ahead visit items queue := Finset.mem_filter.2 ⟨hqueue r hr, r, hr, .refl⟩
    rw [Nat.le_zero, Finset.card_eq_zero] at hn
    rw [hn] at hmem
    cases hmem
  | succ n ih =>
    rcases queue with _ | ⟨y, queue⟩
    · cases hr
    obtain ⟨hy, hrest⟩ := List.pairwise_cons.1 hapart
    have hitem : y ∈ items := hqueue y (.head _)
    have htail : ∀ r ∈ queue, r ∈ items := fun r hr => hqueue r (.tail _ hr)
    rw [sweep]
    split
    next hnone =>
      have hlt : (ahead visit items queue).card < (ahead visit items (y :: queue)).card :=
        ahead_card_lt hitem (fun r hr u hu => ⟨r, .tail _ hr, hu⟩) fun r hr => (hy r hr).2
      rcases List.mem_cons.1 hr with rfl | hr
      · exact absurd (hrx.of_visit_eq_none hnone ▸ hnone) hx
      · exact ih hrest htail (by omega) hr hrx
    next next hnext =>
      have hedge : ∀ c ∈ next, Edge visit y c := fun c hc => ⟨next, hnext, hc⟩
      have hlt : (ahead visit items (queue ++ next)).card <
          (ahead visit items (y :: queue)).card := by
        refine ahead_card_lt hitem (fun r hr u hu => ?_) fun r hr => ?_
        · rcases List.mem_append.1 hr with hr | hr
          · exact ⟨r, .tail _ hr, hu⟩
          · exact ⟨y, .head _, hu.head (hedge r hr)⟩
        · rcases List.mem_append.1 hr with hr | hr
          · exact (hy r hr).2
          · exact h.not_reaches_top (h.row hnext) hr
      have hitems : ∀ r ∈ queue ++ next, r ∈ items := by
        intro r hr
        rcases List.mem_append.1 hr with hr | hr
        · exact htail r hr
        · exact h.mem (hedge r hr)
      -- the walk to `x` starts in the rest of the queue, or at `y` and then ends or goes one down
      rcases List.mem_cons.1 hr with rfl | hr
      · rcases hrx.cases_head with rfl | ⟨c, ⟨next', hnext', hc⟩, hcx⟩
        · exact .head _
        · rw [hnext] at hnext'
          cases hnext'
          exact .tail _ (ih (h.queue_apart hapart hnext) hitems (by omega)
            (List.mem_append_right _ hc) hcx)
      · exact .tail _ (ih (h.queue_apart hapart hnext) hitems (by omega)
          (List.mem_append_left _ hr) hrx)

end

/-- **A walk with a round for each item collects what lies below a row, and nothing else.** -/
theorem Forest.mem_sweep (h : Forest visit parent rank items)
    (hrow : Row parent rank items top row) (hn : items.card ≤ n) :
    x ∈ sweep visit n row ↔ ∃ r ∈ row, Reaches visit r x ∧ visit x ≠ none := by
  constructor
  · exact reaches_of_mem_sweep
  · rintro ⟨r, hr, hrx, hx⟩
    exact h.mem_sweep_of_reaches (h.row_apart hrow) (fun r hr => hrow.mem hr)
      ((card_ahead_le row).trans hn) hr hrx hx

end BreadthFirst
