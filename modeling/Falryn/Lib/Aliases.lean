import Falryn.Lib.OrderedMap

/-!
# Names joined into classes

A map from names to the names they stand for, without cycles.  The root of a name is where following
the links ends, two names belong together when their roots are the same, and joining two classes
points the root of one at the root of the other.
-/

variable {κ : Type*} [DecidableEq κ]

namespace OrderedMap

/-- The name reached from `k` by following at most `n` links. -/
def follow (links : OrderedMap κ κ) : ℕ → κ → κ
  | 0, k => k
  | n + 1, k =>
    match links.get k with
    | none => k
    | some next => follow links n next

variable {links : OrderedMap κ κ}

theorem follow_of_get_none {k : κ} (h : links.get k = none) (n : ℕ) : links.follow n k = k := by
  rcases n with _ | n
  · rfl
  · unfold follow
    rw [h]

/-- A link from one end to another: the names that ended in the first now end in the second. -/
theorem follow_set {a b : κ} (ha : links.get a = none)
    (hb : links.get b = none) (hne : a ≠ b) {n : ℕ} :
    ∀ {k : κ}, links.get (links.follow n k) = none →
      (links.set b a).follow (n + 1) k =
        if links.follow n k = b then a else links.follow n k := by
  have ha' : (links.set b a).get a = none := by rw [get_set_ne links a hne, ha]
  have hend : ∀ {k : κ} (n : ℕ), links.get k = none →
      (links.set b a).follow (n + 1) k = if k = b then a else k := by
    intro k n hk
    by_cases hkb : k = b
    · rw [if_pos hkb, hkb]
      unfold follow
      rw [get_set_self]
      exact follow_of_get_none ha' n
    · rw [if_neg hkb]
      refine follow_of_get_none ?_ (n + 1)
      rw [get_set_ne links a hkb, hk]
  induction n with
  | zero => exact fun hk => hend 0 hk
  | succ n ih =>
    intro k hk
    rcases hget : links.get k with _ | next
    · rw [follow_of_get_none hget]
      exact hend (n + 1) hget
    · have hkb : k ≠ b := by
        rintro rfl
        rw [hb] at hget
        cases hget
      have hfollow : links.follow (n + 1) k = links.follow n next := by
        conv_lhs => unfold follow
        rw [hget]
      have hfollow' : (links.set b a).follow (n + 1 + 1) k = (links.set b a).follow (n + 1) next := by
        conv_lhs => unfold follow
        rw [get_set_ne links a hkb, hget]
      rw [hfollow] at hk
      rw [hfollow, hfollow', ih hk]

end OrderedMap

/-- Links between names that lead nowhere in a circle. -/
structure Aliases (κ : Type*) [DecidableEq κ] where
  /-- Which name each joined name stands for. -/
  links : OrderedMap κ κ
  /-- Every walk along the links ends before it runs out of them. -/
  ends : ∀ k, links.get (links.follow links.size k) = none

namespace Aliases

/-- No name stands for another. -/
def empty : Aliases κ := ⟨.empty, fun _ => rfl⟩

/-- The name that stands for the class of a name. -/
def root (aliases : Aliases κ) (k : κ) : κ := aliases.links.follow aliases.links.size k

@[simp] theorem root_empty (k : κ) : (empty : Aliases κ).root k = k := rfl

@[simp] theorem root_root (aliases : Aliases κ) (k : κ) :
    aliases.root (aliases.root k) = aliases.root k :=
  OrderedMap.follow_of_get_none (aliases.ends k) _

variable {aliases : Aliases κ} {a b : κ}

/-- A root has no link. -/
theorem get_of_root {k : κ} (h : aliases.root k = k) : aliases.links.get k = none := by
  rw [← h]
  exact aliases.ends k

/-- How the walks end once `b` points at `a`. -/
theorem follow_link (ha : aliases.root a = a) (hb : aliases.root b = b) (hne : a ≠ b) (k : κ) :
    (aliases.links.set b a).follow (aliases.links.set b a).size k =
      if aliases.root k = b then a else aliases.root k := by
  have hsize : (aliases.links.set b a).size = aliases.links.size + 1 := by
    have hkeys := OrderedMap.keys_set_of_not_mem a (OrderedMap.get_eq_none.1 (get_of_root hb))
    rw [← OrderedMap.length_keys, hkeys, List.length_append, OrderedMap.length_keys]
    rfl
  rw [hsize]
  exact OrderedMap.follow_set (get_of_root ha) (get_of_root hb) hne (aliases.ends k)

/-- The class of the root `b` joined to the class of the root `a`. -/
def join (aliases : Aliases κ) (a b : κ) (ha : aliases.root a = a) (hb : aliases.root b = b)
    (hne : a ≠ b) : Aliases κ where
  links := aliases.links.set b a
  ends k := by
    rw [follow_link ha hb hne]
    by_cases hk : aliases.root k = b
    · rw [if_pos hk, OrderedMap.get_set_ne _ _ hne, get_of_root ha]
    · rw [if_neg hk, OrderedMap.get_set_ne _ _ hk, get_of_root (root_root aliases k)]

/-- **Joining moves one class.**  The names whose root was `b` now have the root `a`. -/
theorem root_join (ha : aliases.root a = a) (hb : aliases.root b = b) (hne : a ≠ b) (k : κ) :
    (aliases.join a b ha hb hne).root k = if aliases.root k = b then a else aliases.root k :=
  follow_link ha hb hne k

end Aliases
