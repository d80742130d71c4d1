import Falryn.Orchestration.OrderKeys
import Falryn.Orchestration.WorkForestSteps

/-!
# The order of siblings

Siblings stand in the order of their keys, and of their ids where keys tie.  A list of siblings is
determined by its members, so a node that gets a new key stands where that key splits the others, and
siblings that are respaced keep their order.
-/

namespace Falryn.Orchestration.WorkQueues
namespace WorkTables

/-! ## Sorted lists of siblings -/

variable {a b : WorkChild}

theorem childLE_antisymm (h : childLE a b) (h' : childLE b a) : a = b := by
  obtain ⟨id, order⟩ := a
  obtain ⟨id', order'⟩ := b
  rcases h with hlt | ⟨heq, hle⟩
  · rcases h' with hlt' | ⟨heq', -⟩
    · exact absurd hlt (not_lt_of_gt hlt')
    · exact absurd heq' (ne_of_gt hlt)
  · rcases h' with hlt' | ⟨-, hle'⟩
    · exact absurd heq (ne_of_gt hlt')
    · obtain rfl : order = order' := heq
      obtain rfl : id = id' := le_antisymm hle hle'
      rfl

instance : Std.Total childLE where
  total a b := by
    rcases lt_trichotomy a.order b.order with hlt | heq | hgt
    · exact .inl (.inl hlt)
    · rcases le_total a.id b.id with hle | hle
      · exact .inl (.inr ⟨heq, hle⟩)
      · exact .inr (.inr ⟨heq.symm, hle⟩)
    · exact .inr (.inl hgt)

instance : IsTrans WorkChild childLE where
  trans a b c h h' := by
    rcases h with hlt | ⟨heq, hle⟩
    · rcases h' with hlt' | ⟨heq', -⟩
      · exact .inl (hlt.trans hlt')
      · exact .inl (heq' ▸ hlt)
    · rcases h' with hlt' | ⟨heq', hle'⟩
      · exact .inl (heq ▸ hlt')
      · exact .inr ⟨heq.trans heq', hle.trans hle'⟩

theorem childLE.order_le (h : childLE a b) : a.order ≤ b.order := by
  rcases h with hlt | ⟨heq, -⟩
  · exact hlt.le
  · exact heq.le

variable {t : WorkTables} {parent : Option WorkItemId} {node : WorkItemId}

theorem pairwise_siblings (t : WorkTables) (parent : Option WorkItemId) :
    (t.siblings parent).Pairwise childLE :=
  List.pairwise_insertionSort childLE _

/-- **The siblings under a parent are determined by who they are.** -/
theorem siblings_eq {children : List WorkChild} (hsorted : children.Pairwise childLE)
    (hnodup : children.Nodup) (hmem : ∀ child, child ∈ children ↔ child ∈ t.siblings parent) :
    t.siblings parent = children := by
  refine List.Perm.eq_of_pairwise (fun _ _ _ _ => childLE_antisymm) (t.pairwise_siblings parent) hsorted ?_
  refine (List.perm_ext_iff_of_nodup (t.nodup_siblings parent).of_map hnodup).2 fun child => ?_
  exact (hmem child).symm

/-- The siblings of a parent but for one node. -/
def others (t : WorkTables) (parent : Option WorkItemId) (node : WorkItemId) : List WorkChild :=
  (t.siblings parent).filter fun child => child.id ≠ node

variable {child : WorkChild}

theorem mem_others :
    child ∈ t.others parent node ↔ child ∈ t.siblings parent ∧ child.id ≠ node := by
  rw [others, List.mem_filter, decide_eq_true_iff]

theorem pairwise_others (t : WorkTables) (parent : Option WorkItemId) (node : WorkItemId) :
    (t.others parent node).Pairwise childLE :=
  (t.pairwise_siblings parent).filter _

theorem nodup_others (t : WorkTables) (parent : Option WorkItemId) (node : WorkItemId) :
    (t.others parent node).Nodup :=
  (t.nodup_siblings parent).of_map.filter _

theorem map_id_others (t : WorkTables) (parent : Option WorkItemId) (node : WorkItemId) :
    (t.others parent node).map WorkChild.id =
      ((t.siblings parent).map WorkChild.id).filter (· ≠ node) := by
  rw [others, List.filter_map]
  rfl

variable {lower upper : List WorkChild}

/-- What comes before and after a sibling compares so with it. -/
theorem compare_of_split (hsplit : t.siblings parent = lower ++ child :: upper) :
    (∀ a ∈ lower, childLE a child ∧ ¬ childLE child a) ∧
      ∀ b ∈ upper, childLE child b ∧ ¬ childLE b child := by
  have hsorted := t.pairwise_siblings parent
  have hnodup := (t.nodup_siblings parent).of_map
  rw [hsplit] at hsorted hnodup
  obtain ⟨-, hupper, hcross⟩ := List.pairwise_append.1 hsorted
  obtain ⟨-, hnot, hdisjoint⟩ := List.nodup_append.1 hnodup
  refine ⟨fun a ha => ?_, fun b hb => ?_⟩
  · have hle := hcross a ha child List.mem_cons_self
    exact ⟨hle, fun hge => hdisjoint a ha child List.mem_cons_self (childLE_antisymm hle hge)⟩
  · have hle := (List.pairwise_cons.1 hupper).1 b hb
    refine ⟨hle, fun hge => ?_⟩
    obtain rfl := childLE_antisymm hle hge
    exact (List.nodup_cons.1 hnot).1 hb

/-- The siblings from one on. -/
theorem filter_after (hsplit : t.siblings parent = lower ++ child :: upper) :
    ((t.siblings parent).filter fun b => ¬ childLE b child) = upper := by
  obtain ⟨hbelow, habove⟩ := compare_of_split hsplit
  have hnone : lower.filter (fun a => ¬ childLE a child) = [] := by
    refine List.filter_eq_nil_iff.2 fun a ha => ?_
    simp [(hbelow a ha).1]
  have hall : upper.filter (fun b => ¬ childLE b child) = upper := by
    refine List.filter_eq_self.2 fun b hb => ?_
    simp [(habove b hb).2]
  have hself : childLE child child := .inr ⟨rfl, le_rfl⟩
  rw [hsplit, List.filter_append, List.filter_cons, hnone, hall]
  simp [hself]

/-- The siblings before one, the nearest first. -/
theorem filter_before (hsplit : t.siblings parent = lower ++ child :: upper) :
    ((t.siblings parent).reverse.filter fun a => (some child).all fun sibling => ¬ childLE sibling a) =
      lower.reverse := by
  obtain ⟨hbelow, habove⟩ := compare_of_split hsplit
  have hnone : upper.reverse.filter
      (fun b => (some child).all fun sibling => ¬ childLE sibling b) = [] := by
    refine List.filter_eq_nil_iff.2 fun b hb => ?_
    simp [(habove b (List.mem_reverse.1 hb)).1]
  have hall : lower.reverse.filter
      (fun a => (some child).all fun sibling => ¬ childLE sibling a) = lower.reverse := by
    refine List.filter_eq_self.2 fun a ha => ?_
    simp [(hbelow a (List.mem_reverse.1 ha)).2]
  have hself : childLE child child := .inr ⟨rfl, le_rfl⟩
  rw [hsplit, List.reverse_append, List.reverse_cons, List.filter_append, List.filter_append, hnone, hall]
  simp [hself]

/-! ## A node with a new key -/

variable {placement : WorkPlacement} {x : WorkItemId}

theorem sited_setPlacement : (t.setPlacement node placement).Sited x ↔ x = node ∨ t.Sited x := by
  by_cases hsame : x = node
  · subst hsame
    exact iff_of_true (.inl ⟨placement, OrderedMap.get_set_self _ _ _⟩) (.inl rfl)
  · have hget : (t.setPlacement node placement).placements.get x = t.placements.get x :=
      OrderedMap.get_set_ne _ _ hsame
    rw [Sited, Sited, hget, or_iff_right hsame]
    rfl

theorem mem_siblings_setPlacement : child ∈ (t.setPlacement node placement).siblings parent ↔
      (child = ⟨node, placement.order⟩ ∧ placement.parent = parent) ∨ child ∈ t.others parent node := by
  obtain ⟨id, order⟩ := child
  rw [mem_siblings, sited_setPlacement, parentOf_setPlacement, orderOf_setPlacement, mem_others,
    mem_siblings, WorkChild.mk.injEq]
  dsimp only
  split_ifs with hsame
  · subst hsame
    simp only [true_or, true_and, ne_eq, not_true, and_false, or_false]
    rw [and_comm, eq_comm (a := order)]
  · simp [hsame]

/-- A key splits the siblings of a node. -/
structure Splits (t : WorkTables) (parent : Option WorkItemId) (node : WorkItemId) (key : String)
    (lower upper : List WorkChild) : Prop where
  others : t.others parent node = lower ++ upper
  below : ∀ child ∈ lower, child.order < key
  above : ∀ child ∈ upper, key < child.order

/-- **A node stands where its key splits the others.** -/
theorem Splits.siblings {key : String} (h : t.Splits parent node key lower upper) :
    (t.setPlacement node { parent, order := key }).siblings parent =
      lower ++ ⟨node, key⟩ :: upper := by
  have hsorted := t.pairwise_others parent node
  have hnodup := t.nodup_others parent node
  have hnot : (⟨node, key⟩ : WorkChild) ∉ lower ++ upper := fun hmem => by
    rw [← h.others] at hmem
    exact (mem_others.1 hmem).2 rfl
  rw [h.others] at hsorted hnodup
  refine siblings_eq ?_ (List.nodup_middle.2 (List.nodup_cons.2 ⟨hnot, hnodup⟩)) fun child => ?_
  · obtain ⟨hlower, hupper, hcross⟩ := List.pairwise_append.1 hsorted
    refine List.pairwise_append.2 ⟨hlower, List.pairwise_cons.2 ⟨fun child hchild => ?_, hupper⟩,
      fun a ha b hb => ?_⟩
    · exact .inl (h.above child hchild)
    · rcases List.mem_cons.1 hb with rfl | hb
      · exact .inl (h.below a ha)
      · exact hcross a ha b hb
  · rw [mem_siblings_setPlacement, h.others]
    simp only [List.mem_append, List.mem_cons, and_true]
    tauto

/-- Under other parents the node is gone. -/
theorem siblings_setPlacement_ne (hne : placement.parent ≠ parent) :
    (t.setPlacement node placement).siblings parent = t.others parent node := by
  refine siblings_eq (t.pairwise_others parent node) (t.nodup_others parent node) fun _ => ?_
  rw [mem_siblings_setPlacement, or_iff_right fun h => hne h.2]

/-! ## Siblings respaced -/

/-- The loop of `respace` gives each sibling the key at its place, and no other node a new one. -/
theorem orderOf_foldl_setPlacement (keys : List String) : ∀ (entries : List (WorkChild × ℕ))
    (s : WorkTables), (entries.map fun entry => entry.1.id).Nodup → ∀ x,
      (entries.foldl (fun tables entry => tables.setPlacement entry.1.id
        { parent, order := (keys[entry.2]?).getD entry.1.order }) s).orderOf x =
      ((entries.find? fun entry => entry.1.id = x).map fun entry =>
        (keys[entry.2]?).getD entry.1.order).getD (s.orderOf x) := by
  intro entries
  induction entries with
  | nil => exact fun s _ x => rfl
  | cons entry entries ih =>
    intro s hnodup x
    obtain ⟨hnot, hnodup⟩ := List.nodup_cons.1 hnodup
    rw [List.foldl_cons, ih _ hnodup, List.find?_cons, orderOf_setPlacement]
    by_cases hsame : entry.1.id = x
    · have hnone : entries.find? (fun entry => entry.1.id = x) = none := by
        refine List.find?_eq_none.2 fun other hother hid => hnot ?_
        exact List.mem_map.2 ⟨other, hother, (of_decide_eq_true hid).trans hsame.symm⟩
      rw [hnone, if_pos hsame.symm, decide_eq_true hsame]
      rfl
    · rw [if_neg (Ne.symm hsame), decide_eq_false hsame]

theorem sited_respaced : (t.respaced parent).Sited x ↔ t.Sited x := by
  constructor
  · rintro (⟨placement, hplacement⟩ | ⟨item, hitem⟩)
    · exact sited_of_respaced hplacement
    · rw [respaced_items] at hitem
      exact .inr ⟨item, hitem⟩
  · rintro (hplaced | ⟨item, hitem⟩)
    · refine .inl (respaced_preserves (P := fun s => ∃ placement, s.placements.get x = some placement)
        (fun s id placement _ => ?_) t parent hplaced)
      by_cases hsame : x = id
      · exact ⟨placement, hsame ▸ OrderedMap.get_set_self _ _ _⟩
      · rwa [show (s.setPlacement id placement).placements.get x = s.placements.get x from
          OrderedMap.get_set_ne _ _ hsame]
    · exact .inr ⟨item, by rwa [respaced_items]⟩

theorem map_id_zipIdx (children : List WorkChild) :
    (children.zipIdx.map fun entry => entry.1.id) = children.map WorkChild.id :=
  (List.map_map ..).symm.trans (congrArg _ (List.zipIdx_map_fst 0 _))

theorem nodup_zipIdx_siblings (t : WorkTables) (parent : Option WorkItemId) :
    (((t.siblings parent).zipIdx).map fun entry => entry.1.id).Nodup := by
  rw [map_id_zipIdx]
  exact t.nodup_siblings parent

/-- A node that is no sibling keeps its key. -/
theorem orderOf_respaced_ne (hne : t.parentOf x ≠ parent) :
    (t.respaced parent).orderOf x = t.orderOf x := by
  rw [respaced, orderOf_foldl_setPlacement _ _ _ (t.nodup_zipIdx_siblings parent)]
  have hnone : ((t.siblings parent).zipIdx).find? (fun entry => entry.1.id = x) = none := by
    refine List.find?_eq_none.2 fun entry hentry hid => hne ?_
    rw [← of_decide_eq_true hid]
    exact (mem_siblings.1 (List.fst_mem_of_mem_zipIdx hentry)).2.1
  rw [hnone]
  rfl

/-- Each sibling gets the key at its place. -/
theorem orderOf_respaced {index : ℕ} (h : (t.siblings parent)[index]? = some child) :
    (t.respaced parent).orderOf child.id =
      keyOfCodes (spreadCodes (t.siblings parent).length index) := by
  have hindex := (List.getElem?_eq_some_iff.1 h).1
  rw [respaced, orderOf_foldl_setPlacement _ _ _ (t.nodup_zipIdx_siblings parent)]
  have hmem : (child, index) ∈ (t.siblings parent).zipIdx := by
    rw [List.mem_zipIdx_iff_getElem?]
    exact h
  rcases hfind : ((t.siblings parent).zipIdx).find? (fun entry => entry.1.id = child.id) with _ | entry
  · exact absurd (decide_eq_true rfl) (List.find?_eq_none.1 hfind _ hmem)
  · have hid : entry.1.id = child.id := by simpa using List.find?_some hfind
    have hsame := List.inj_on_of_nodup_map (t.nodup_zipIdx_siblings parent)
      (List.mem_of_find?_eq_some hfind) hmem hid
    subst hsame
    rw [hfind, Option.map_some, Option.getD_some, getElem?_spreadOrderKeys hindex, Option.getD_some]

/-- The siblings respaced, in the order they had. -/
theorem siblings_respaced (t : WorkTables) (parent : Option WorkItemId) :
    (t.respaced parent).siblings parent = ((t.siblings parent).zipIdx).map fun entry =>
      ⟨entry.1.id, keyOfCodes (spreadCodes (t.siblings parent).length entry.2)⟩ := by
  refine siblings_eq ?_ ?_ fun child => ?_
  · rw [List.pairwise_map, List.pairwise_iff_getElem]
    intro i j hi hj hlt
    rw [List.length_zipIdx] at hi hj
    left
    have hkeys := List.pairwise_iff_getElem.1 (pairwise_spreadOrderKeys (t.siblings parent).length) i j
      (by rwa [length_spreadOrderKeys]) (by rwa [length_spreadOrderKeys]) hlt
    simpa [spreadOrderKeys_eq] using hkeys
  · refine List.Nodup.of_map WorkChild.id ?_
    rw [List.map_map]
    exact t.nodup_zipIdx_siblings parent
  · rw [mem_siblings, sited_respaced, parentOf_respaced]
    constructor
    · intro hmem
      obtain ⟨⟨old, index⟩, hentry, rfl⟩ := List.mem_map.1 hmem
      obtain ⟨hsited, hparent, -⟩ := mem_siblings.1 (List.fst_mem_of_mem_zipIdx hentry)
      have hindex : (t.siblings parent)[index]? = some old := List.mem_zipIdx_iff_getElem?.1 hentry
      have horder := orderOf_respaced hindex
      exact ⟨hsited, hparent, horder⟩
    · rintro ⟨hsited, hparent, horder⟩
      have hmem : (⟨child.id, t.orderOf child.id⟩ : WorkChild) ∈ t.siblings parent :=
        mem_siblings.2 ⟨hsited, hparent, rfl⟩
      obtain ⟨index, hindex⟩ := List.getElem?_of_mem hmem
      refine List.mem_map.2 ⟨(⟨child.id, t.orderOf child.id⟩, index),
        List.mem_zipIdx_iff_getElem?.2 hindex, ?_⟩
      have hkey := (orderOf_respaced hindex).symm.trans horder
      exact congrArg (WorkChild.mk child.id) hkey

theorem siblings_respaced_ne {other : Option WorkItemId} (hne : other ≠ parent) :
    (t.respaced parent).siblings other = t.siblings other := by
  refine siblings_eq (t.pairwise_siblings other) (t.nodup_siblings other).of_map fun _ => ?_
  rw [mem_siblings, mem_siblings, sited_respaced, parentOf_respaced]
  refine and_congr_right fun _ => and_congr_right fun hparent => ?_
  rw [orderOf_respaced_ne (hparent.trans_ne hne)]

/-- **Siblings respaced keep their order**, under every parent. -/
theorem map_id_siblings_respaced (t : WorkTables) (parent other : Option WorkItemId) :
    ((t.respaced parent).siblings other).map WorkChild.id = (t.siblings other).map WorkChild.id := by
  by_cases hne : other = parent
  · subst hne
    rw [siblings_respaced, List.map_map]
    exact map_id_zipIdx _
  · rw [siblings_respaced_ne hne]

end WorkTables
end Falryn.Orchestration.WorkQueues
