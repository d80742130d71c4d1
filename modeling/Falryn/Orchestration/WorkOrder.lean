import Falryn.Orchestration.WorkSiblings

/-!
# Placing a node

A node is placed where it was asked for (`queue_places`).  The key it gets lies strictly between those of
its new neighbours: in the alphabet of the keys there is room between any two keys that differ, and where
keys tie or grow too long the siblings are respaced first, which leaves their order as it was.
-/

namespace Falryn.Orchestration.WorkQueues

open WorkTables

variable {t t' : WorkTables} {parent : Option WorkItemId} {node id : WorkItemId}

/-! ## Keys of a queue -/

theorem toNat_le_toNat {a b : Char} (h : a ≤ b) : a.toNat ≤ b.toNat := h

/-- The characters of an id lie above the lowest character of a key. -/
theorem reference_codes {c : Char} (h : isReferencePart c = true) : 45 ≤ c.toNat ∧ c.toNat ≤ 122 := by
  simp only [isReferencePart, isReferenceStart, Bool.or_eq_true, Bool.and_eq_true, decide_eq_true_eq,
    List.contains_eq_mem, List.mem_cons, List.not_mem_nil, or_false] at h
  rcases h with ((⟨hlow, hhigh⟩ | ⟨hlow, hhigh⟩) | ⟨hlow, hhigh⟩) | h
  · have hlow : 97 ≤ c.toNat := toNat_le_toNat hlow
    have hhigh : c.toNat ≤ 122 := toNat_le_toNat hhigh
    omega
  · have hlow : 65 ≤ c.toNat := toNat_le_toNat hlow
    have hhigh : c.toNat ≤ 90 := toNat_le_toNat hhigh
    omega
  · have hlow : 48 ≤ c.toNat := toNat_le_toNat hlow
    have hhigh : c.toNat ≤ 57 := toNat_le_toNat hhigh
    omega
  · rcases h with rfl | rfl | rfl | rfl | rfl | rfl
    all_goals decide

/-- An id a client may give is a key: it orders the task among the roots. -/
theorem orderKey_of_reference (h : isWorkReference id = true) : OrderKey id := by
  have hcodes : ∀ code ∈ id.toList.map Char.toNat, 45 ≤ code ∧ code ≤ 122 := by
    intro code hcode
    obtain ⟨c, hc, rfl⟩ := List.mem_map.1 hcode
    refine reference_codes ?_
    unfold isWorkReference at h
    rw [Bool.and_eq_true] at h
    rcases hlist : id.toList with _ | ⟨first, rest⟩
    · rw [hlist] at hc
      exact absurd hc List.not_mem_nil
    · rw [hlist] at hc h
      obtain ⟨hfirst, hrest⟩ := Bool.and_eq_true_iff.1 h.2
      rcases List.mem_cons.1 hc with rfl | hc
      · rw [isReferencePart, hfirst, Bool.true_or]
      · exact List.all_eq_true.1 hrest c hc
  refine ⟨fun hnil => ?_, fun code hcode => ?_, fun hlast => ?_⟩
  · unfold isWorkReference at h
    rw [List.map_eq_nil_iff.1 hnil, Bool.and_false] at h
    cases h
  · have hrange := hcodes code hcode
    exact show 33 ≤ code ∧ code ≤ 126 by omega
  · have hrange := hcodes keyMin (List.mem_of_getLast? hlast)
    rw [keyMin] at hrange
    omega

/-- Everything siblings are ordered by is a key. -/
structure KeysFit (t : WorkTables) : Prop where
  placed : ∀ {id placement}, t.placements.get id = some placement → OrderKey placement.order
  items : ∀ {id item}, t.items.get id = some item → OrderKey id

theorem keysFit_empty : KeysFit .empty where
  placed h := nomatch h
  items h := nomatch h

variable {child : WorkChild}

theorem KeysFit.of_mem_siblings (h : KeysFit t) (hmem : child ∈ t.siblings parent) :
    OrderKey child.order := by
  obtain ⟨hsited, -, horder⟩ := mem_siblings.1 hmem
  rw [← horder]
  unfold WorkTables.orderOf
  rcases hget : t.placements.get child.id with _ | placement
  · rcases hsited with ⟨placement, hplacement⟩ | ⟨item, hitem⟩
    · rw [hget] at hplacement
      cases hplacement
    · exact h.items hitem
  · exact h.placed hget

theorem KeysFit.setPlacement (h : KeysFit t) {placement : WorkPlacement} (hkey : OrderKey placement.order) :
    KeysFit (t.setPlacement id placement) where
  placed := by
    intro x found hfound
    have hfound : (t.placements.set id placement).get x = some found := hfound
    rw [OrderedMap.get_set] at hfound
    split_ifs at hfound with hsame
    · cases hfound
      exact hkey
    · exact h.placed hfound
  items := h.items

theorem KeysFit.respaced (h : KeysFit t) (parent : Option WorkItemId) : KeysFit (t.respaced parent) := by
  unfold WorkTables.respaced
  have hkeys : ∀ entry ∈ (t.siblings parent).zipIdx,
      OrderKey (((spreadOrderKeys (t.siblings parent).length)[entry.2]?).getD entry.1.order) := by
    rintro ⟨child, index⟩ hentry
    rcases hkey : (spreadOrderKeys (t.siblings parent).length)[index]? with _ | key
    · exact h.of_mem_siblings (List.fst_mem_of_mem_zipIdx hentry)
    · exact orderKey_of_mem_spread (List.mem_of_getElem? hkey)
  revert hkeys
  generalize spreadOrderKeys (t.siblings parent).length = keys
  generalize (t.siblings parent).zipIdx = entries
  induction entries generalizing t with
  | nil => exact fun _ => h
  | cons entry entries ih =>
    intro hkeys
    obtain ⟨hkey, hkeys⟩ := List.forall_mem_cons.1 hkeys
    exact ih (h.setPlacement hkey) hkeys

/-! ## Keys between siblings -/

variable {lower : List WorkChild} {key : String}

/-- Siblings up to the last are below a key above the last. -/
theorem order_lt_of_getLast (hsorted : lower.Pairwise childLE)
    (h : ∀ low ∈ lower.getLast?.map WorkChild.order, low < key) :
    ∀ child ∈ lower, child.order < key := by
  intro child hchild
  rcases List.eq_nil_or_concat lower with rfl | ⟨rest, last, rfl⟩
  · exact absurd hchild List.not_mem_nil
  · rw [List.concat_eq_append] at hchild hsorted h
    have hlast : last.order < key := h last.order (by rw [List.getLast?_concat]; rfl)
    rcases List.mem_append.1 hchild with hrest | hlast'
    · exact ((List.pairwise_append.1 hsorted).2.2 child hrest last
        (List.mem_singleton_self _)).order_le.trans_lt hlast
    · rwa [List.mem_singleton.1 hlast']

variable {upper : List WorkChild}

/-- Siblings from the first on are above a key below the first. -/
theorem lt_order_of_head (hsorted : upper.Pairwise childLE)
    (h : ∀ high ∈ upper.head?.map WorkChild.order, key < high) :
    ∀ child ∈ upper, key < child.order := by
  intro child hchild
  rcases upper with _ | ⟨first, rest⟩
  · exact absurd hchild List.not_mem_nil
  · have hfirst : key < first.order := h first.order rfl
    rcases List.mem_cons.1 hchild with rfl | hrest
    · exact hfirst
    · exact hfirst.trans_le ((List.pairwise_cons.1 hsorted).1 child hrest).order_le

/-- **A key between the last of some siblings and the first of the rest splits them there.** -/
theorem splits_between (h : KeysFit t) (hothers : t.others parent node = lower ++ upper)
    (hroom : noRoom (lower.getLast?.map WorkChild.order) (upper.head?.map WorkChild.order) = false) :
    t.Splits parent node (orderKeyBetween (lower.getLast?.map WorkChild.order)
        (upper.head?.map WorkChild.order)) lower upper ∧
      OrderKey (orderKeyBetween (lower.getLast?.map WorkChild.order)
        (upper.head?.map WorkChild.order)) := by
  have hsorted := t.pairwise_others parent node
  rw [hothers] at hsorted
  obtain ⟨hlower, hupper, -⟩ := List.pairwise_append.1 hsorted
  have hfits : ∀ child ∈ lower ++ upper, OrderKey child.order := fun child hchild => by
    rw [← hothers] at hchild
    exact h.of_mem_siblings (mem_others.1 hchild).1
  have hlowKey : ∀ key ∈ lower.getLast?.map WorkChild.order, OrderKey key := by
    intro key hmem
    obtain ⟨child, hchild, rfl⟩ := Option.map_eq_some_iff.1 hmem
    exact hfits child (List.mem_append_left _ (List.mem_of_getLast? hchild))
  have hhighKey : ∀ key ∈ upper.head?.map WorkChild.order, OrderKey key := by
    intro key hmem
    obtain ⟨child, hchild, rfl⟩ := Option.map_eq_some_iff.1 hmem
    exact hfits child (List.mem_append_right _ (List.mem_of_head? hchild))
  have hlt : ∀ low ∈ lower.getLast?.map WorkChild.order, ∀ high ∈ upper.head?.map WorkChild.order,
      low < high := by
    intro low hmem high hmem'
    rw [Option.mem_def.1 hmem, Option.mem_def.1 hmem'] at hroom
    exact not_le.1 (of_decide_eq_false hroom)
  obtain ⟨hkey, hlow, hhigh⟩ := orderKeyBetween_spec hlowKey hhighKey hlt
  exact ⟨⟨hothers, order_lt_of_getLast hlower hlow, lt_order_of_head hupper hhigh⟩, hkey⟩

/-! ## Neighbours -/

theorem otherOrder_take {children : List WorkChild} (hnodup : (children.map WorkChild.id).Nodup) :
    otherOrder node (children.take 2) =
      (children.filter fun child => child.id ≠ node).head?.map WorkChild.order := by
  unfold otherOrder
  rcases children with _ | ⟨first, _ | ⟨second, rest⟩⟩
  · rfl
  · rw [List.take_of_length_le (by simp), List.head?_filter]
  · rw [List.head?_filter, List.find?_cons, List.take_succ_cons, List.find?_cons]
    by_cases hfirst : first.id = node
    · have hsecond : second.id ≠ node := fun hsecond =>
        (List.nodup_cons.1 hnodup).1 (hfirst.trans hsecond.symm ▸ List.mem_cons_self)
      simp [hfirst, hsecond]
    · simp [hfirst]

/-- The siblings before and after one of them. -/
theorem split_siblings (hmem : child ∈ t.siblings parent) :
    ∃ lower upper, t.siblings parent = lower ++ child :: upper ∧
      t.childrenBefore parent (some child) 2 = lower.reverse.take 2 ∧
      t.childrenAfter parent child 2 = upper.take 2 := by
  obtain ⟨lower, upper, hsplit⟩ := List.append_of_mem hmem
  exact ⟨lower, upper, hsplit, congrArg (List.take 2) (filter_before hsplit),
    congrArg (List.take 2) (filter_after hsplit)⟩

/-- What holds of the sibling a position names. -/
theorem siblingKey_ok (h : siblingKey t parent node id = .ok child) :
    child.id = id ∧ id ≠ node ∧ t.NodeAt id ∧ child ∈ t.siblings parent := by
  obtain ⟨_, hne, h⟩ := except_bind_ok.1 h
  rcases hnode : t.workNode id with _ | found
  · rw [hnode] at h
    cases h
  · rw [hnode] at h
    obtain ⟨_, hdeleted, h⟩ := except_bind_ok.1 h
    obtain ⟨placement, hplacement, h⟩ := except_bind_ok.1 h
    obtain ⟨_, hparent, h⟩ := except_bind_ok.1 h
    cases h
    obtain ⟨hparentOf, horderOf⟩ := placementOf_ok hplacement
    refine ⟨rfl, refuseIf_ok.1 hne, ⟨found, hnode, Bool.eq_false_iff.2 (refuseIf_ok.1 hdeleted)⟩,
      mem_siblings.2 ⟨?_, hparentOf.symm.trans (not_not.1 (refuseIf_ok.1 hparent)), horderOf.symm⟩⟩
    cases found with
    | task item => exact .inr ⟨item, workNode_eq_task.1 hnode⟩
    | group group =>
      -- A group without a row is corruption.
      left
      unfold placementOf at hplacement
      rcases hget : t.placements.get id with _ | row
      · rw [hget, (workNode_eq_group.1 hnode).2] at hplacement
        cases hplacement
      · exact ⟨row, rfl⟩

/-- What a position says of the siblings before and after it. -/
def WorkPosition.Between : WorkPosition → List WorkChild → List WorkChild → Prop
  | .atEnd, _, upper => upper = []
  | .before sibling, _, upper => ∃ child rest, upper = child :: rest ∧ child.id = sibling
  | .after sibling, lower, _ => ∃ rest child, lower = rest ++ [child] ∧ child.id = sibling

variable {position : WorkPosition}

/-- **The keys a position lies between are those of its neighbours.** -/
theorem positionBounds_ok {low high : Option String}
    (h : positionBounds t parent node position = .ok (low, high)) :
    (∀ sibling ∈ position.ids, t.NodeAt sibling) ∧ ∃ lower upper,
      t.others parent node = lower ++ upper ∧ position.Between lower upper ∧
      low = lower.getLast?.map WorkChild.order ∧ high = upper.head?.map WorkChild.order := by
  have hnodup := t.nodup_siblings parent
  cases position with
  | atEnd =>
    cases h
    refine ⟨nofun, t.others parent node, [],
      (List.append_nil _).symm, rfl, ?_, rfl⟩
    have hall : ((t.siblings parent).reverse.filter fun child =>
        (none : Option WorkChild).all fun sibling => ¬ childLE sibling child) =
          (t.siblings parent).reverse :=
      List.filter_eq_self.2 fun _ _ => rfl
    unfold childrenBefore
    rw [hall, otherOrder_take, others, List.filter_reverse, List.head?_reverse]
    rw [List.map_reverse]
    exact List.nodup_reverse.2 hnodup
  | before sibling =>
    obtain ⟨child, hchild, h⟩ := except_bind_ok.1 h
    cases h
    obtain ⟨hid, hne, hlive, hmem⟩ := siblingKey_ok hchild
    obtain ⟨lower, upper, hsplit, hbefore, -⟩ := split_siblings hmem
    refine ⟨List.forall_mem_singleton.2 hlive, lower.filter fun child => child.id ≠ node,
      child :: upper.filter fun child => child.id ≠ node, ?_, ⟨child, _, rfl, hid⟩, ?_, rfl⟩
    · rw [others, hsplit, List.filter_append, List.filter_cons_of_pos]
      exact decide_eq_true (hid ▸ hne)
    · rw [hsplit, List.map_append] at hnodup
      rw [hbefore, otherOrder_take, List.filter_reverse, List.head?_reverse]
      rw [List.map_reverse]
      exact List.nodup_reverse.2 (List.nodup_append.1 hnodup).1
  | after sibling =>
    obtain ⟨child, hchild, h⟩ := except_bind_ok.1 h
    cases h
    obtain ⟨hid, hne, hlive, hmem⟩ := siblingKey_ok hchild
    obtain ⟨lower, upper, hsplit, -, hafter⟩ := split_siblings hmem
    refine ⟨List.forall_mem_singleton.2 hlive, (lower.filter fun child => child.id ≠ node) ++ [child],
      upper.filter fun child => child.id ≠ node, ?_, ⟨_, child, rfl, hid⟩, ?_, ?_⟩
    · rw [others, hsplit, List.filter_append, List.filter_cons_of_pos, List.append_assoc,
        List.singleton_append]
      exact decide_eq_true (hid ▸ hne)
    · rw [List.getLast?_concat]
      rfl
    · rw [hsplit, List.map_append, List.map_cons] at hnodup
      rw [hafter, otherOrder_take]
      exact (List.nodup_cons.1 (List.nodup_append.1 hnodup).2.1).2

/-- **The key of a position splits the siblings there.** -/
theorem positionKey_ok (hfit : KeysFit t)
    (h : positionKey t parent node position = .ok (some key)) :
    OrderKey key ∧ (∀ sibling ∈ position.ids, t.NodeAt sibling) ∧ ∃ lower upper,
      t.Splits parent node key lower upper ∧ position.Between lower upper := by
  obtain ⟨⟨low, high⟩, hbounds, h⟩ := except_bind_ok.1 h
  obtain ⟨hlive, lower, upper, hothers, hbetween, rfl, rfl⟩ := positionBounds_ok hbounds
  dsimp only at h
  split_ifs at h with hroom hlong
  · cases h
  · cases h
  · cases h
    obtain ⟨hsplits, hkey⟩ := splits_between hfit hothers (Bool.eq_false_iff.2 hroom)
    exact ⟨hkey, hlive, lower, upper, hsplits, hbetween⟩

/-! ## Where a node stands -/

/-- A list is another with a node put where a position says. -/
def PlacedAt (node : WorkItemId) : WorkPosition → List WorkItemId → List WorkItemId → Prop
  | .atEnd, others, after => after = others ++ [node]
  | .before sibling, others, after => ∃ lower upper,
      others = lower ++ sibling :: upper ∧ after = lower ++ node :: sibling :: upper
  | .after sibling, others, after => ∃ lower upper,
      others = lower ++ sibling :: upper ∧ after = lower ++ sibling :: node :: upper

theorem PlacedAt.filter {others after : List WorkItemId}
    (h : PlacedAt node position others after) {p : WorkItemId → Bool} (hnode : p node = true)
    (hsibling : ∀ sibling ∈ position.ids, p sibling = true) :
    PlacedAt node position (others.filter p) (after.filter p) := by
  cases position with
  | atEnd =>
    obtain rfl : after = others ++ [node] := h
    exact (List.filter_append ..).trans (by rw [List.filter_cons_of_pos hnode]; rfl)
  | before sibling =>
    obtain ⟨lower, upper, rfl, rfl⟩ := h
    have hsibling : p sibling = true := hsibling sibling (List.mem_singleton_self _)
    refine ⟨lower.filter p, upper.filter p, ?_, ?_⟩
    · rw [List.filter_append, List.filter_cons_of_pos hsibling]
    · rw [List.filter_append, List.filter_cons_of_pos hnode, List.filter_cons_of_pos hsibling]
  | after sibling =>
    obtain ⟨lower, upper, rfl, rfl⟩ := h
    have hsibling : p sibling = true := hsibling sibling (List.mem_singleton_self _)
    refine ⟨lower.filter p, upper.filter p, ?_, ?_⟩
    · rw [List.filter_append, List.filter_cons_of_pos hsibling]
    · rw [List.filter_append, List.filter_cons_of_pos hsibling, List.filter_cons_of_pos hnode]

/-- The ids under a parent in order, deleted ones included. -/
def WorkTables.childIds (t : WorkTables) (parent : Option WorkItemId) : List WorkItemId :=
  (t.siblings parent).map WorkChild.id

theorem placedAt_of_splits
    (h : t.Splits parent node key lower upper) (hbetween : position.Between lower upper) :
    PlacedAt node position ((t.childIds parent).filter (· ≠ node))
      ((t.setPlacement node { parent, order := key }).childIds parent) := by
  rw [childIds, childIds, ← map_id_others, h.others, h.siblings, List.map_append, List.map_append,
    List.map_cons]
  cases position with
  | atEnd =>
    obtain rfl : upper = [] := hbetween
    rw [List.map_nil, List.append_nil]
    rfl
  | before sibling =>
    obtain ⟨child, rest, rfl, rfl⟩ := hbetween
    exact ⟨_, _, rfl, rfl⟩
  | after sibling =>
    obtain ⟨rest, child, rfl, rfl⟩ := hbetween
    refine ⟨rest.map WorkChild.id, upper.map WorkChild.id, ?_, ?_⟩
    · rw [List.map_append, List.map_singleton, List.append_assoc, List.singleton_append]
    · rw [List.map_append, List.map_singleton, List.append_assoc, List.singleton_append]

/-- **A node placed stands where its position says, and is gone from everywhere else.** -/
theorem childIds_placed (hfit : KeysFit t) (h : t.Placed node parent position t') :
    (∀ sibling ∈ position.ids, t.NodeAt sibling) ∧
      PlacedAt node position ((t.childIds parent).filter (· ≠ node)) (t'.childIds parent) ∧
      ∀ other ≠ parent, t'.childIds other = (t.childIds other).filter (· ≠ node) := by
  have hother : ∀ (s : WorkTables) (key : String), ∀ other ≠ parent,
      (s.setPlacement node { parent, order := key }).childIds other =
        (s.childIds other).filter (· ≠ node) := by
    intro s key other hne
    rw [childIds, childIds, ← map_id_others, siblings_setPlacement_ne (Ne.symm hne)]
  cases h with
  | direct key hkey =>
    obtain ⟨-, hlive, lower, upper, hsplits, hbetween⟩ := positionKey_ok hfit hkey
    exact ⟨hlive, placedAt_of_splits hsplits hbetween, hother t key⟩
  | respaced key _ hkey =>
    obtain ⟨-, hlive, lower, upper, hsplits, hbetween⟩ := positionKey_ok (hfit.respaced parent) hkey
    have hsame : ∀ other, (t.respaced parent).childIds other = t.childIds other :=
      t.map_id_siblings_respaced parent
    refine ⟨fun sibling hsibling => ?_, ?_, fun other hne => ?_⟩
    · have hlive := hlive sibling hsibling
      rwa [NodeAt, workNode_congr (respaced_items t parent) (respaced_groups t parent)] at hlive
    · rw [← hsame parent]
      exact placedAt_of_splits hsplits hbetween
    · rw [← hsame other]
      exact hother _ key other hne

theorem KeysFit.of_placed (hfit : KeysFit t)
    (h : t.Placed node parent position t') : KeysFit t' := by
  cases h with
  | direct key hkey => exact hfit.setPlacement (positionKey_ok hfit hkey).1
  | respaced key _ hkey =>
    have hfit := hfit.respaced parent
    exact hfit.setPlacement (positionKey_ok hfit hkey).1

/-! ## Every operation -/

theorem KeysFit.putGroup (h : KeysFit t) (group : WorkGroup) : KeysFit (t.putGroup id group) where
  placed := h.placed
  items := h.items

variable {tx tx' : WorkTransaction} {revision : ℕ} {call : WorkCall}

theorem keysFit_applyWorkMutation {ctx : WorkContext} {op : WorkMutation}
    (h : KeysFit tx.tables) (hformed : ∀ id ∈ op.ids, isWorkReference id = true)
    (happly : applyWorkMutation ctx tx op = .ok tx') : KeysFit tx'.tables where
  placed := by
    rw [(tasksOnly_applyWorkMutation happly).placements]
    exact h.placed
  items := by
    intro x item hget
    rcases named_of_new happly hget with ⟨item, hget⟩ | hnamed
    · exact h.items hget
    · exact orderKey_of_reference (hformed x hnamed)

/-- The keys of a queue stay keys. -/
theorem keysFit_applyOperation (h : KeysFit tx.tables) (hformed : call.operation.WellFormed)
    (happly : applyOperation revision tx call = .ok tx') : KeysFit tx'.tables := by
  unfold applyOperation at happly
  rcases hcall : call.operation with operation | operation
  · rw [hcall] at happly hformed
    exact keysFit_applyWorkMutation h hformed happly
  · rw [hcall] at happly hformed
    rcases applyHierarchyMutation_cases happly with
      ⟨id, subject, parent, position, depth, height, -, -, -, -, -, -, hplaced⟩ |
      ⟨id, parent, position, node, depth, height, -, -, -, -, -, -, hplaced⟩ |
      ⟨id, subject, group, -, -, -, htables⟩ | ⟨id, group, -, -, -, -, htables⟩ |
      ⟨id, reviewed, plan, ancestors, -, -, -, -, hremove⟩
    · exact (h.putGroup _).of_placed hplaced
    · exact h.of_placed hplaced
    · rw [htables]
      exact h.putGroup _
    · rw [htables]
      exact h.putGroup _
    · refine foldlM_ok_invariant (P := fun t => KeysFit t.tables) (fun t node _ _ ht hstep => ?_) h hremove
      rcases removePlanned_cases hstep with ⟨-, group, -, -, htables⟩ | ⟨-, hdelete⟩
      · rw [htables]
        exact ht.putGroup _
      · refine ⟨fun {x placement} hplacement => ?_, fun {x item} hget => ?_⟩
        · rw [(tasksOnly_applyWorkMutation hdelete).placements] at hplacement
          exact ht.placed hplacement
        · obtain ⟨item, hget⟩ := AddsNone.delete hdelete x item hget
          exact ht.items hget

/-! ## Children -/

/-- Whether a node is live. -/
def WorkTables.isLive (t : WorkTables) (id : WorkItemId) : Bool :=
  (t.workNode id).any fun node => !node.deleted

theorem WorkTables.NodeAt.isLive (h : t.NodeAt id) : t.isLive id = true := by
  obtain ⟨node, hnode, hdeleted⟩ := h
  rw [WorkTables.isLive, hnode, Option.any_some, hdeleted]
  rfl

/-- The ids of children. -/
def childNames (children : List (WorkChild × WorkNode)) : List WorkItemId :=
  children.map fun child => child.1.id

theorem childNames_liveSiblings (t : WorkTables) (parent : Option WorkItemId) :
    childNames (t.liveSiblings parent) = (t.childIds parent).filter t.isLive := by
  unfold childNames liveSiblings childIds
  induction t.siblings parent with
  | nil => rfl
  | cons child siblings ih =>
    rw [List.filterMap_cons, List.map_cons, List.filter_cons, ← ih, liveNode, WorkTables.isLive]
    rcases t.workNode child.id with _ | node
    · rfl
    · by_cases hdeleted : node.deleted = true
      · simp [hdeleted]
      · simp [hdeleted]

/-- The tables in which the node of an operation is placed, and what they are afterwards. -/
theorem placed_of_operation (hcall : call.operation = .hierarchy (.place node parent position) ∨
      ∃ subject, call.operation = .hierarchy (.group node subject parent position))
    (happly : applyOperation revision tx call = .ok tx') :
    ∃ s : WorkTables, s.placements = tx.tables.placements ∧ s.items = tx.tables.items ∧
      (∀ x ≠ node, s.workNode x = tx.tables.workNode x) ∧ s.NodeAt node ∧
      s.Placed node parent position tx'.tables := by
  unfold applyOperation at happly
  rcases hcall with hcall | ⟨subject, hcall⟩
  · rw [hcall] at happly
    rcases applyHierarchyMutation_cases happly with
      ⟨_, _, _, _, _, _, h, -⟩ | ⟨id, parent, position, found, _, _, h, hnode, hdeleted, -, -, -, hplaced⟩ |
      ⟨_, _, _, h, -⟩ | ⟨_, _, h, -⟩ | ⟨_, _, _, _, h, -⟩
    all_goals cases h
    exact ⟨tx.tables, rfl, rfl, fun _ _ => rfl, ⟨found, hnode, hdeleted⟩, hplaced⟩
  · rw [hcall] at happly
    rcases applyHierarchyMutation_cases happly with
      ⟨id, subject, parent, position, _, _, h, hitem, -, -, -, -, hplaced⟩ | ⟨_, _, _, _, _, _, h, -⟩ |
      ⟨_, _, _, h, -⟩ | ⟨_, _, h, -⟩ | ⟨_, _, _, _, h, -⟩
    all_goals cases h
    exact ⟨tx.tables.putGroup node (newGroup _ subject), rfl, rfl, fun x hne => workNode_putGroup_ne hne,
      ⟨_, workNode_putGroup_self hitem, rfl⟩, hplaced⟩

/-- **A node is placed where it was asked for.**  Whatever operations of a batch came before, an accepted
`place` or `group` leaves under the parent it names the live children there were, without the node, and
the node put last, right before or right after the sibling named; under every other parent it leaves the
live children there were, without the node. -/
theorem queue_places {q : WorkQueueState} (hq : Reachable q) {earlier : List WorkCall}
    (hformed : ∀ call ∈ earlier, call.operation.WellFormed) {tx tx' : WorkTransaction}
    (hearlier : applyBatch q earlier = .ok tx) {call : WorkCall} {position : WorkPosition}
    (hcall : call.operation = .hierarchy (.place node parent position) ∨
      ∃ subject, call.operation = .hierarchy (.group node subject parent position))
    (happly : applyOperation q.revision tx call = .ok tx') (list : Option WorkItemId) :
    ∃ before after, tx.tables.liveChildren list = .ok before ∧ tx'.tables.liveChildren list = .ok after ∧
      if list = parent then
        PlacedAt node position ((childNames before).filter (· ≠ node)) (childNames after)
      else childNames after = (childNames before).filter (· ≠ node) := by
  have hforest : tx.tables.Forest :=
    hq.invariant_within forest_empty (fun ht _ happly => forest_applyOperation ht happly) hformed hearlier
  have hfit : KeysFit tx.tables := hq.invariant_within keysFit_empty keysFit_applyOperation hformed hearlier
  have hforest' := forest_applyOperation hforest happly
  obtain ⟨s, hplacements, hitems, hnodes, hlive, hplaced⟩ := placed_of_operation hcall happly
  have hfits : KeysFit s := ⟨by rw [hplacements]; exact hfit.placed, by rw [hitems]; exact hfit.items⟩
  have hids : ∀ other, s.childIds other = tx.tables.childIds other := by
    intro other
    unfold childIds siblings childRows
    rw [hplacements, hitems]
  have hlive' : ∀ x, tx'.tables.isLive x = s.isLive x := by
    intro x
    unfold WorkTables.isLive
    rw [workNode_congr (Placed_items hplaced) (Placed_groups hplaced)]
  -- Of the nodes that were there, all but the one that is placed are as live as they were.
  have hothers : ∀ other, ((childNames (tx.tables.liveSiblings other)).filter (· ≠ node)) =
      ((s.childIds other).filter (· ≠ node)).filter s.isLive := by
    intro other
    rw [childNames_liveSiblings, hids, List.filter_filter, List.filter_filter]
    refine List.filter_congr fun x _ => ?_
    by_cases hsame : x = node
    · simp [hsame]
    · unfold WorkTables.isLive
      rw [hnodes x hsame]
      simp [hsame]
  obtain ⟨hsiblings, hparent, hother⟩ := childIds_placed hfits hplaced
  refine ⟨_, _, hforest.toRooted.liveChildren_eq list, hforest'.toRooted.liveChildren_eq list, ?_⟩
  have hafter : childNames (tx'.tables.liveSiblings list) = (tx'.tables.childIds list).filter s.isLive := by
    rw [childNames_liveSiblings]
    exact List.filter_congr fun x _ => hlive' x
  rw [hothers, hafter]
  split_ifs with hsame
  · rw [hsame]
    exact hparent.filter hlive.isLive fun sibling hsibling => (hsiblings sibling hsibling).isLive
  · rw [hother list hsame]

/-- Two tasks, the roots of a queue. -/
def rootsBatch : List WorkCall := [taskCall (.add "a" (plainFields "a")), taskCall (.add "b" (plainFields "b"))]

/-- The second root is placed before the first. -/
theorem queue_places_before : ∃ (q : WorkQueueState) (tx' : WorkTransaction),
    applyOperation q.revision (opened q.tables) (hierarchyCall (.place "b" none (.before "a"))) = .ok tx' ∧
    ∃ before after, q.tables.liveChildren none = .ok before ∧ tx'.tables.liveChildren none = .ok after ∧
      PlacedAt "b" (.before "a") ((childNames before).filter (· ≠ "b")) (childNames after) := by
  obtain ⟨q, hq, hp⟩ := reachable_of_any [rootsBatch] (fun q => (applyOperation q.revision (opened q.tables)
    (hierarchyCall (.place "b" none (.before "a")))).isOk) (by decide +kernel)
  rcases happly : applyOperation q.revision (opened q.tables)
      (hierarchyCall (.place "b" none (.before "a"))) with _ | tx'
  · rw [happly] at hp
    cases hp
  · obtain ⟨before, after, hbefore, hafter, hplaced⟩ := @queue_places none "b" q hq []
      (fun _ h => absurd h List.not_mem_nil) (opened q.tables) tx' rfl _ (.before "a") (.inl rfl) happly none
    rw [if_pos rfl] at hplaced
    exact ⟨q, tx', happly, before, after, hbefore, hafter, hplaced⟩

end Falryn.Orchestration.WorkQueues
