import Mathlib

/-!
# Lock tables

A table counts, for every key, how many times it is held.  Each owner holds a list of keys, a key
possibly more than once.  `Accounts` ties the counts to the owners and bounds them; `acquire` and
`release` are the two ways the owners change, and each of them keeps the books.
-/

namespace LockTable

variable {κ : Type*} [DecidableEq κ]

/-- Count every key of the list once more. -/
def acquire (held : κ → ℕ) (keys : List κ) : κ → ℕ :=
  keys.foldl (fun held key => Function.update held key (held key + 1)) held

/-- Count every key of the list once less, and never below zero. -/
def release (held : κ → ℕ) (keys : List κ) : κ → ℕ :=
  keys.foldl (fun held key => Function.update held key (held key - 1)) held

theorem acquire_apply (keys : List κ) : ∀ (held : κ → ℕ) (k : κ),
    acquire held keys k = held k + keys.count k := by
  induction keys with
  | nil => intro held k; simp [acquire]
  | cons key keys ih =>
    intro held k
    have h := ih (Function.update held key (held key + 1)) k
    rw [acquire, List.foldl_cons]
    rw [acquire] at h
    rw [h, List.count_cons]
    by_cases hk : k = key
    · subst hk
      simp
      omega
    · simp [hk, Ne.symm hk]

theorem release_apply (keys : List κ) : ∀ (held : κ → ℕ) (k : κ),
    release held keys k = held k - keys.count k := by
  induction keys with
  | nil => intro held k; simp [release]
  | cons key keys ih =>
    intro held k
    have h := ih (Function.update held key (held key - 1)) k
    rw [release, List.foldl_cons]
    rw [release] at h
    rw [h, List.count_cons]
    by_cases hk : k = key
    · subst hk
      simp
      omega
    · simp [hk, Ne.symm hk]

/-- The counts of the table are those of its owners, and neither the owners nor the holders of one
key are more than they may be. -/
structure Accounts (owners : List (List κ)) (held : κ → ℕ) (running : ℤ)
    (maxConcurrent maxPerKey : ℕ) : Prop where
  held_eq : ∀ k, held k = (owners.map fun keys => keys.count k).sum
  running_eq : running = owners.length
  running_le : running ≤ maxConcurrent
  holders_le : ∀ k, owners.countP (fun keys => k ∈ keys) ≤ maxPerKey

variable {owners owners' : List (List κ)} {held : κ → ℕ} {running : ℤ}
  {maxConcurrent maxPerKey : ℕ} {keys : List κ}

theorem accounts_nil : Accounts ([] : List (List κ)) (fun _ => 0) 0 maxConcurrent maxPerKey :=
  ⟨fun _ => rfl, rfl, by simp, fun _ => Nat.zero_le _⟩

theorem Accounts.perm (h : Accounts owners held running maxConcurrent maxPerKey)
    (hp : owners.Perm owners') : Accounts owners' held running maxConcurrent maxPerKey :=
  ⟨fun k => (h.held_eq k).trans (hp.map _).sum_eq, by rw [h.running_eq, hp.length_eq],
    h.running_le, fun k => hp.countP_eq _ ▸ h.holders_le k⟩

/-- Whoever holds a key counts towards it. -/
theorem countP_mem_le_sum (owners : List (List κ)) (k : κ) :
    owners.countP (fun keys => k ∈ keys) ≤ (owners.map fun keys => keys.count k).sum := by
  induction owners with
  | nil => exact le_rfl
  | cons keys owners =>
    rw [List.countP_cons, List.map_cons, List.sum_cons]
    split
    · rename_i hk
      have := List.count_pos_iff.2 (of_decide_eq_true hk)
      omega
    · omega

theorem Accounts.holders_le_held (h : Accounts owners held running maxConcurrent maxPerKey)
    (k : κ) : owners.countP (fun keys => k ∈ keys) ≤ held k := by
  rw [h.held_eq k]
  exact countP_mem_le_sum owners k

/-- **A new owner** that found a free place and every key of its list below its bound. -/
theorem Accounts.acquire (h : Accounts owners held running maxConcurrent maxPerKey) (hroom : running < maxConcurrent) (hfree : ∀ k ∈ keys, held k < maxPerKey) :
    Accounts (keys :: owners) (acquire held keys) (running + 1) maxConcurrent maxPerKey := by
  refine ⟨fun k => ?_, ?_, by omega, fun k => ?_⟩
  · rw [acquire_apply, h.held_eq k, List.map_cons, List.sum_cons, add_comm]
  · rw [h.running_eq, List.length_cons]
    push_cast
    rfl
  · rw [List.countP_cons]
    split
    · rename_i hk
      have hlt := hfree k (of_decide_eq_true hk)
      have hle := h.holders_le_held k
      omega
    · exact h.holders_le k

/-- **An owner leaves.** -/
theorem Accounts.release (h : Accounts (keys :: owners) held running maxConcurrent maxPerKey) :
    Accounts owners (release held keys) (running - 1) maxConcurrent maxPerKey := by
  refine ⟨fun k => ?_, ?_, ?_, fun k => ?_⟩
  · rw [release_apply, h.held_eq k, List.map_cons, List.sum_cons, Nat.add_sub_cancel_left]
  · rw [h.running_eq, List.length_cons]
    push_cast
    ring
  · have := h.running_le
    omega
  · have hle := h.holders_le k
    rw [List.countP_cons] at hle
    omega

/-- Without owners nothing is held. -/
theorem Accounts.eq_zero (h : Accounts ([] : List (List κ)) held running maxConcurrent maxPerKey) :
    (∀ k, held k = 0) ∧ running = 0 :=
  ⟨fun k => h.held_eq k, h.running_eq⟩

end LockTable
