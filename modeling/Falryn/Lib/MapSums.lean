import Falryn.Lib.OrderedMap

/-!
# Sweeps and sums over an ordered map

A sweep goes through the entries and keeps, changes or drops each; a sum adds a number for each of
them.  What both do to one key is said here once, so that a loop over a map is read key by key.
-/

variable {κ ν β : Type*}

namespace OrderedMap

/-- The map with every entry kept in a new form or dropped. -/
def filterMap (m : OrderedMap κ ν) (f : κ → ν → Option β) : OrderedMap κ β where
  entries := m.entries.filterMap fun entry => (f entry.1 entry.2).map fun v => (entry.1, v)
  nodup := by
    have hsub : ∀ entries : List (κ × ν),
        ((entries.filterMap fun entry => (f entry.1 entry.2).map fun v => (entry.1, v)).map
          Prod.fst).Sublist (entries.map Prod.fst) := by
      intro entries
      induction entries with
      | nil => exact .slnil
      | cons entry entries ih =>
        rcases hf : f entry.1 entry.2 with _ | v
        · rw [List.filterMap_cons_none (by rw [hf]; rfl)]
          exact ih.cons entry.1
        · rw [List.filterMap_cons_some (by rw [hf]; rfl)]
          exact ih.cons_cons entry.1
    exact m.nodup.sublist (hsub m.entries)

/-- The sum of a number for each entry. -/
def sum (m : OrderedMap κ ν) (f : κ → ν → ℤ) : ℤ := (m.entries.map fun entry => f entry.1 entry.2).sum

@[simp] theorem sum_empty (f : κ → ν → ℤ) : (empty : OrderedMap κ ν).sum f = 0 := rfl

theorem sum_add (m : OrderedMap κ ν) (f g : κ → ν → ℤ) :
    m.sum (fun k v => f k v + g k v) = m.sum f + m.sum g := by
  rw [sum, sum, sum, List.sum_map_add]

/-- The entries a condition keeps and those it drops make up the sum. -/
theorem sum_filterMap_add (m : OrderedMap κ ν) (f : κ → ν → ℤ) (p : κ → ν → Bool) :
    (m.filterMap fun k v => if p k v then some v else none).sum f +
      (m.filterMap fun k v => if p k v then none else some v).sum f = m.sum f := by
  obtain ⟨entries, hnodup⟩ := m
  show ((entries.filterMap _).map _).sum + ((entries.filterMap _).map _).sum = (entries.map _).sum
  induction entries with
  | nil => rfl
  | cons entry entries ih =>
    rw [List.map_cons, List.nodup_cons] at hnodup
    have hrest := ih hnodup.2
    rw [List.map_cons, List.sum_cons]
    rcases hp : p entry.1 entry.2 with _ | _
    · rw [List.filterMap_cons_none (by simp [hp]), List.filterMap_cons_some (by simp [hp]; rfl),
        List.map_cons, List.sum_cons]
      omega
    · rw [List.filterMap_cons_some (by simp [hp]; rfl), List.filterMap_cons_none (by simp [hp]),
        List.map_cons, List.sum_cons]
      omega

section
variable [DecidableEq κ]

theorem get_filterMap (m : OrderedMap κ ν) (f : κ → ν → Option β) (k : κ) :
    (m.filterMap f).get k = (m.get k).bind (f k) := by
  obtain ⟨entries, hnodup⟩ := m
  show (entries.filterMap _).lookup k = (entries.lookup k).bind (f k)
  induction entries with
  | nil => rfl
  | cons entry entries ih =>
    obtain ⟨j, w⟩ := entry
    rw [List.map_cons, List.nodup_cons] at hnodup
    have hrest := ih hnodup.2
    by_cases hk : k = j
    · subst hk
      have hnone : entries.lookup k = none := by
        rw [← Option.not_isSome_iff_eq_none, lookup_isSome_iff]
        exact hnodup.1
      rcases hf : f k w with _ | v
      · rw [List.filterMap_cons_none (by simp [hf]), hrest, hnone, lookup_cons_eq, if_pos rfl]
        exact hf.symm
      · rw [List.filterMap_cons_some (by simp [hf]; rfl), lookup_cons_eq, if_pos rfl, lookup_cons_eq,
          if_pos rfl]
        exact hf.symm
    · rw [lookup_cons_eq, if_neg hk]
      rcases hf : f j w with _ | v
      · rw [List.filterMap_cons_none (by simp [hf]), hrest]
      · rw [List.filterMap_cons_some (by simp [hf]; rfl), lookup_cons_eq, if_neg hk, hrest]

/-! ## Sums -/

variable {m : OrderedMap κ ν} {f : κ → ν → ℤ}

theorem sum_congr {g : κ → ν → ℤ}
    (h : ∀ k v, m.get k = some v → f k v = g k v) : m.sum f = m.sum g := by
  refine congrArg List.sum (List.map_congr_left fun entry hentry => ?_)
  exact h entry.1 entry.2 (mem_entries.1 hentry)

theorem sum_nonneg (h : ∀ k v, m.get k = some v → 0 ≤ f k v) : 0 ≤ m.sum f := by
  refine List.sum_nonneg fun _ hx => ?_
  obtain ⟨entry, hentry, rfl⟩ := List.mem_map.1 hx
  exact h entry.1 entry.2 (mem_entries.1 hentry)

theorem sum_eq_zero (h : ∀ k v, m.get k = some v → f k v = 0) : m.sum f = 0 := by
  rw [sum_congr (g := fun _ _ => 0) h, sum, List.map_const', List.sum_replicate, smul_zero]

variable {k : κ}

/-- Each term is at most the sum when no term is negative. -/
theorem le_sum {v : ν}
    (h : ∀ k v, m.get k = some v → 0 ≤ f k v) (hget : m.get k = some v) : f k v ≤ m.sum f := by
  refine List.single_le_sum (fun _ hx => ?_) _
    (List.mem_map.2 ⟨(k, v), mem_entries.2 hget, rfl⟩)
  obtain ⟨entry, hentry, rfl⟩ := List.mem_map.1 hx
  exact h entry.1 entry.2 (mem_entries.1 hentry)

/-- A new entry adds its own term. -/
theorem sum_set_new (v : ν) (h : m.get k = none) : (m.set k v).sum f = m.sum f + f k v := by
  rw [set, dif_neg (get_eq_none.1 h)]
  simp [sum]

/-- A changed entry exchanges its old term for the new one. -/
theorem sum_set {old : ν} (v : ν)
    (h : m.get k = some old) : (m.set k v).sum f = m.sum f - f k old + f k v := by
  rw [set, dif_pos (mem_keys.2 ⟨old, h⟩)]
  obtain ⟨entries, hnodup⟩ := m
  show ((replaceIn k v entries).map _).sum = (entries.map _).sum - _ + _
  replace h : entries.lookup k = some old := h
  induction entries with
  | nil => cases h
  | cons entry entries ih =>
    obtain ⟨j, w⟩ := entry
    rw [List.map_cons, List.nodup_cons] at hnodup
    rw [lookup_cons_eq] at h
    by_cases hk : k = j
    · subst hk
      rw [if_pos rfl] at h
      cases h
      have hrest : replaceIn k v entries = entries := by
        refine (List.map_congr_left fun entry hentry => if_neg fun heq => hnodup.1 ?_).trans
          (List.map_id' entries)
        exact List.mem_map.2 ⟨entry, hentry, heq⟩
      have hcons : replaceIn k v ((k, old) :: entries) = (k, v) :: entries := by
        conv_rhs => rw [← hrest]
        simp [replaceIn]
      rw [hcons, List.map_cons, List.map_cons, List.sum_cons, List.sum_cons]
      dsimp only
      omega
    · rw [if_neg hk] at h
      have hcons : replaceIn k v ((j, w) :: entries) = (j, w) :: replaceIn k v entries := by
        simp [replaceIn, Ne.symm hk]
      rw [hcons, List.map_cons, List.map_cons, List.sum_cons, List.sum_cons, ih hnodup.2 h]
      omega

/-- A sum over one key alone. -/
theorem sum_single (m : OrderedMap κ ℤ) (k : κ) :
    m.sum (fun j n => if j = k then n else 0) = (m.get k).getD 0 := by
  rcases hget : m.get k with _ | n
  · refine sum_eq_zero fun j n hj => if_neg ?_
    rintro rfl
    rw [hget] at hj
    cases hj
  · have hdelete : m.sum (fun j n => if j = k then n else 0) =
        (m.set k n).sum (fun j n => if j = k then n else 0) := by
      rw [sum_set n hget]
      simp
    have hzero : (m.set k 0).sum (fun j n => if j = k then n else 0) = 0 := by
      refine sum_eq_zero fun j n hj => ?_
      by_cases hjk : j = k
      · rw [hjk, get_set_self] at hj
        cases hj
        exact if_pos hjk
      · exact if_neg hjk
    rw [sum_set 0 hget, if_pos rfl, if_pos rfl] at hzero
    rw [Option.getD_some]
    omega

/-! ## Loops that set the key they stand at -/

/-- A loop over distinct keys that sets each of them leaves every other key alone, and finds at each
key what was there before the loop. -/
theorem get_foldl_set {f : κ → β → Option ν → ν} (m : OrderedMap κ ν) (entries : List (κ × β))
    (hnodup : (entries.map Prod.fst).Nodup) (k : κ) :
    (entries.foldl (fun m entry => m.set entry.1 (f entry.1 entry.2 (m.get entry.1))) m).get k =
      match entries.lookup k with
      | none => m.get k
      | some b => some (f k b (m.get k)) := by
  induction entries generalizing m with
  | nil => rfl
  | cons entry entries ih =>
    obtain ⟨j, b⟩ := entry
    rw [List.map_cons, List.nodup_cons] at hnodup
    rw [List.foldl_cons, ih _ hnodup.2, lookup_cons_eq]
    by_cases hk : k = j
    · subst hk
      have hnone : entries.lookup k = none := by
        rw [← Option.not_isSome_iff_eq_none, lookup_isSome_iff]
        exact hnodup.1
      rw [hnone, if_pos rfl, get_set_self]
    · rw [if_neg hk, get_set_ne _ _ hk]

end

end OrderedMap
