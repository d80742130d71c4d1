import Mathlib

/-!
# Maps that remember the order of insertion

A finite map as a list of entries with distinct keys.  Setting a key that is there keeps its place,
setting a new one puts it last, and iterating goes through the entries from the oldest to the newest.
-/

variable {κ ν : Type*}

/-- A map whose entries are listed in the order in which their keys were first set. -/
structure OrderedMap (κ ν : Type*) where
  /-- The entries, oldest first. -/
  entries : List (κ × ν)
  /-- No key has two entries. -/
  nodup : (entries.map Prod.fst).Nodup

namespace OrderedMap

/-- The keys, oldest first. -/
def keys (m : OrderedMap κ ν) : List κ := m.entries.map Prod.fst

/-- The number of entries. -/
def size (m : OrderedMap κ ν) : ℕ := m.entries.length

/-- The map without entries. -/
def empty : OrderedMap κ ν := ⟨[], List.nodup_nil⟩

theorem nodup_keys (m : OrderedMap κ ν) : m.keys.Nodup := m.nodup

theorem length_keys (m : OrderedMap κ ν) : m.keys.length = m.size := List.length_map ..

section
variable [DecidableEq κ]

/-- The value under a key. -/
def get (m : OrderedMap κ ν) (k : κ) : Option ν := m.entries.lookup k

/-- The entries with the value of one key replaced. -/
def replaceIn (k : κ) (v : ν) (entries : List (κ × ν)) : List (κ × ν) :=
  entries.map fun entry => if entry.1 = k then (k, v) else entry

theorem map_fst_replaceIn (k : κ) (v : ν) (entries : List (κ × ν)) :
    (replaceIn k v entries).map Prod.fst = entries.map Prod.fst := by
  rw [replaceIn, List.map_map]
  refine List.map_congr_left fun entry _ => ?_
  by_cases h : entry.1 = k <;> simp [h]

/-- The map with a value put under a key: in place if the key is there, at the end if not. -/
def set (m : OrderedMap κ ν) (k : κ) (v : ν) : OrderedMap κ ν :=
  if h : k ∈ m.keys then
    ⟨replaceIn k v m.entries, by rw [map_fst_replaceIn]; exact m.nodup⟩
  else
    ⟨m.entries ++ [(k, v)], by
      rw [List.map_append, List.map_singleton]
      exact m.nodup.append (List.nodup_singleton k) (List.disjoint_singleton.2 h)⟩

/-- The map without the entry of a key. -/
def delete (m : OrderedMap κ ν) (k : κ) : OrderedMap κ ν :=
  ⟨m.entries.filter fun entry => entry.1 ≠ k, m.nodup.sublist (List.filter_sublist.map _)⟩

/-! ## Reading -/

theorem lookup_cons_eq (k j : κ) (w : ν) (entries : List (κ × ν)) :
    ((j, w) :: entries).lookup k = if k = j then some w else entries.lookup k := by
  by_cases h : k = j
  · rw [List.lookup_cons, if_pos h, beq_iff_eq.2 h]
  · rw [List.lookup_cons, if_neg h, beq_eq_false_iff_ne.2 h]

variable {k : κ}

theorem lookup_isSome_iff {entries : List (κ × ν)} :
    (entries.lookup k).isSome ↔ k ∈ entries.map Prod.fst := by
  induction entries with
  | nil => simp
  | cons entry entries ih =>
    obtain ⟨j, w⟩ := entry
    rw [lookup_cons_eq, List.map_cons, List.mem_cons]
    by_cases h : k = j
    · simp [h]
    · rw [if_neg h, ih, or_iff_right h]

variable {m : OrderedMap κ ν} {k' : κ}

theorem mem_keys : k ∈ m.keys ↔ ∃ v, m.get k = some v := by
  rw [keys, ← lookup_isSome_iff, Option.isSome_iff_exists, get]

theorem get_eq_none : m.get k = none ↔ k ∉ m.keys := by
  rw [mem_keys, not_exists, Option.eq_none_iff_forall_not_mem]
  rfl

theorem mem_entries {v : ν} : (k, v) ∈ m.entries ↔ m.get k = some v := by
  suffices h : ∀ entries : List (κ × ν), (entries.map Prod.fst).Nodup →
      ((k, v) ∈ entries ↔ entries.lookup k = some v) from h m.entries m.nodup
  intro entries
  induction entries with
  | nil => simp
  | cons entry entries ih =>
    obtain ⟨j, w⟩ := entry
    intro hnodup
    obtain ⟨hout, hnodup⟩ := List.nodup_cons.1 hnodup
    rw [lookup_cons_eq, List.mem_cons, ih hnodup, Prod.mk.injEq]
    by_cases h : k = j
    · have hnone : entries.lookup k ≠ some v := by
        intro hsome
        refine hout (h ▸ lookup_isSome_iff.1 ?_)
        rw [hsome, Option.isSome_some]
      rw [if_pos h, or_iff_left hnone, Option.some.injEq, eq_comm (a := v), and_iff_right h]
    · simp [h]

@[simp] theorem get_empty (k : κ) : (empty : OrderedMap κ ν).get k = none := rfl

/-! ## Writing -/

theorem lookup_replaceIn (k k' : κ) (v : ν) (entries : List (κ × ν)) :
    (replaceIn k v entries).lookup k' =
      if k' = k then (entries.lookup k').map fun _ => v else entries.lookup k' := by
  induction entries with
  | nil => simp [replaceIn]
  | cons entry entries ih =>
    obtain ⟨j, w⟩ := entry
    change List.lookup k' ((if j = k then (k, v) else (j, w)) :: replaceIn k v entries) = _
    by_cases hj : j = k
    · rw [if_pos hj, lookup_cons_eq, lookup_cons_eq, ih, hj]
      by_cases hk : k' = k <;> simp [hk]
    · rw [if_neg hj, lookup_cons_eq, lookup_cons_eq, ih]
      by_cases hk : k' = j
      · rw [if_pos hk, if_pos hk, if_neg (hk ▸ hj)]
      · rw [if_neg hk, if_neg hk]

@[simp] theorem get_set_self (m : OrderedMap κ ν) (k : κ) (v : ν) : (m.set k v).get k = some v := by
  rw [set]
  split
  next h =>
    obtain ⟨w, hw⟩ := mem_keys.1 h
    rw [get] at hw
    rw [get, lookup_replaceIn, if_pos rfl, hw, Option.map_some]
  next h =>
    have hnone := get_eq_none.2 h
    rw [get] at hnone
    rw [get, List.lookup_append, hnone, Option.none_or, lookup_cons_eq, if_pos rfl]

@[simp] theorem get_set_ne (m : OrderedMap κ ν) (v : ν) (h : k' ≠ k) :
    (m.set k v).get k' = m.get k' := by
  rw [set]
  split
  · rw [get, lookup_replaceIn, if_neg h, get]
  · rw [get, List.lookup_append, lookup_cons_eq, if_neg h, List.lookup_nil, Option.or_none, get]

theorem get_set (m : OrderedMap κ ν) (k k' : κ) (v : ν) :
    (m.set k v).get k' = if k' = k then some v else m.get k' := by
  by_cases h : k' = k
  · rw [h, get_set_self, if_pos rfl]
  · rw [get_set_ne m v h, if_neg h]

theorem get_delete (m : OrderedMap κ ν) (k k' : κ) :
    (m.delete k).get k' = if k' = k then none else m.get k' := by
  suffices h : ∀ entries : List (κ × ν), (entries.filter fun entry => entry.1 ≠ k).lookup k' =
      if k' = k then none else entries.lookup k' from h m.entries
  intro entries
  induction entries with
  | nil => simp
  | cons entry entries ih =>
    obtain ⟨j, w⟩ := entry
    by_cases hj : j = k
    · rw [List.filter_cons_of_neg (by simpa using hj), ih, lookup_cons_eq, hj]
      by_cases hk : k' = k <;> simp [hk]
    · rw [List.filter_cons_of_pos (by simpa using hj), lookup_cons_eq, ih, lookup_cons_eq]
      by_cases hk : k' = j
      · rw [if_pos hk, if_pos hk, if_neg (hk ▸ hj)]
      · rw [if_neg hk, if_neg hk]

@[simp] theorem get_delete_self (m : OrderedMap κ ν) (k : κ) : (m.delete k).get k = none := by
  rw [get_delete, if_pos rfl]

@[simp] theorem get_delete_ne (m : OrderedMap κ ν) (h : k' ≠ k) :
    (m.delete k).get k' = m.get k' := by
  rw [get_delete, if_neg h]

theorem keys_set_of_mem (v : ν) (h : k ∈ m.keys) : (m.set k v).keys = m.keys := by
  rw [set, dif_pos h]
  exact map_fst_replaceIn k v m.entries

theorem keys_set_of_not_mem (v : ν) (h : k ∉ m.keys) : (m.set k v).keys = m.keys ++ [k] := by
  rw [set, dif_neg h]
  exact List.map_append

theorem mem_keys_set_self (m : OrderedMap κ ν) (k : κ) (v : ν) : k ∈ (m.set k v).keys :=
  mem_keys.2 ⟨v, get_set_self m k v⟩

/-- Of two values set under one key the last one stays. -/
theorem set_set (m : OrderedMap κ ν) (k : κ) (v w : ν) : (m.set k v).set k w = m.set k w := by
  have hset : ∀ (m : OrderedMap κ ν) (h : k ∈ m.keys), (m.set k w).entries = replaceIn k w m.entries :=
    fun m h => by rw [set, dif_pos h]
  have hentries : ((m.set k v).set k w).entries = (m.set k w).entries := by
    rw [hset _ (mem_keys_set_self m k v)]
    by_cases h : k ∈ m.keys
    · rw [hset m h, set, dif_pos h]
      simp only [replaceIn, List.map_map]
      refine List.map_congr_left fun entry _ => ?_
      by_cases hk : entry.1 = k <;> simp [hk]
    · rw [set, dif_neg h, set, dif_neg h]
      show replaceIn k w (m.entries ++ [(k, v)]) = _
      rw [replaceIn, List.map_append, List.map_singleton, if_pos rfl]
      have hother : ∀ entry ∈ m.entries, (if entry.1 = k then (k, w) else entry) = entry := by
        intro entry hentry
        refine if_neg fun hk => h ?_
        rw [← hk]
        exact List.mem_map_of_mem hentry
      rw [List.map_congr_left hother, List.map_id']
  rcases hleft : (m.set k v).set k w with ⟨entries, hnodup⟩
  rcases hright : m.set k w with ⟨entries', hnodup'⟩
  rw [hleft, hright] at hentries
  cases hentries
  rfl

theorem keys_delete (m : OrderedMap κ ν) (k : κ) :
    (m.delete k).keys = m.keys.filter fun k' => k' ≠ k := by
  rw [keys, keys, List.filter_map]
  rfl

end

end OrderedMap
