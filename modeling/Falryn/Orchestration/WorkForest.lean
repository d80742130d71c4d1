import Falryn.Orchestration.WorkHierarchySteps

/-!
# The forest of a queue

What the placements of a queue are: a forest in which every live node sits under live groups.  A node
has a chain of parents up to a root (`ParentChain`); chains are unique, so none of them comes back to a
node it has passed.
-/

namespace Falryn.Orchestration.WorkQueues

namespace WorkTables

/-! ## Nodes -/

/-- There is a node under an id. -/
def IsNode (t : WorkTables) (id : WorkItemId) : Prop := ∃ node, t.workNode id = some node

/-- The node under an id is not deleted. -/
def NodeAt (t : WorkTables) (id : WorkItemId) : Prop :=
  ∃ node, t.workNode id = some node ∧ node.deleted = false

variable {t t' : WorkTables} {id : WorkItemId} {item : WorkItem}

theorem workNode_of_item (h : t.items.get id = some item) : t.workNode id = some (.task item) := by
  rw [workNode, h]

variable {group : WorkGroup}

theorem workNode_of_group (hnone : t.items.get id = none)
    (h : t.groups.get id = some group) : t.workNode id = some (.group group) := by
  rw [workNode, hnone, h]
  rfl

theorem workNode_eq_task : t.workNode id = some (.task item) ↔ t.items.get id = some item := by
  unfold workNode
  rcases t.items.get id with _ | found
  · rcases t.groups.get id with _ | group
    · exact ⟨nofun, nofun⟩
    · exact ⟨nofun, nofun⟩
  · constructor
    · intro h
      cases h
      rfl
    · intro h
      cases h
      rfl

theorem workNode_eq_group :
    t.workNode id = some (.group group) ↔ t.items.get id = none ∧ t.groups.get id = some group := by
  unfold workNode
  rcases t.items.get id with _ | found
  · rcases t.groups.get id with _ | found
    · exact ⟨nofun, fun h => (nomatch h.2)⟩
    · constructor
      · intro h
        cases h
        exact ⟨rfl, rfl⟩
      · rintro ⟨-, h⟩
        cases h
        rfl
  · exact ⟨nofun, fun h => (nomatch h.1)⟩

theorem workNode_congr (hitems : t'.items = t.items) (hgroups : t'.groups = t.groups)
    (id : WorkItemId) : t'.workNode id = t.workNode id := by
  rw [workNode, workNode, hitems, hgroups]

variable {x : WorkItemId}

theorem workNode_putGroup_ne (hne : x ≠ id) : (t.putGroup id group).workNode x = t.workNode x := by
  have hget : (t.putGroup id group).groups.get x = t.groups.get x := OrderedMap.get_set_ne _ _ hne
  rw [workNode, workNode, hget]
  rfl

theorem workNode_putGroup_self (hnone : t.items.get id = none) :
    (t.putGroup id group).workNode id = some (.group group) :=
  workNode_of_group hnone (OrderedMap.get_set_self _ _ _)

theorem NodeAt.isNode (h : t.NodeAt id) : t.IsNode id := by
  obtain ⟨node, hnode, -⟩ := h
  exact ⟨node, hnode⟩

/-! ## Chains of parents -/

/-- The parents above a node, the nearest first. -/
inductive ParentChain (t : WorkTables) : WorkItemId → List WorkItemId → Prop where
  | root {id : WorkItemId} (h : t.parentOf id = none) : ParentChain t id []
  | under {id parent : WorkItemId} {chain : List WorkItemId} (h : t.parentOf id = some parent)
      (habove : ParentChain t parent chain) : ParentChain t id (parent :: chain)

variable {chain : List WorkItemId} {parent : Option WorkItemId}

theorem ParentChain.unique {chain' : List WorkItemId} (h : t.ParentChain id chain)
    (h' : t.ParentChain id chain') : chain = chain' := by
  induction h generalizing chain' with
  | root hnone =>
    cases h' with
    | root => rfl
    | under hsome => rw [hnone] at hsome; cases hsome
  | under hsome _ ih =>
    cases h' with
    | root hnone => rw [hsome] at hnone; cases hnone
    | under hsome' habove =>
      rw [hsome] at hsome'
      cases hsome'
      rw [ih habove]

/-- What comes after a parent in a chain is the chain of that parent. -/
theorem ParentChain.above : ∀ {lower upper : List WorkItemId} {id : WorkItemId},
    t.ParentChain id (lower ++ x :: upper) → t.ParentChain x upper := by
  intro lower
  induction lower with
  | nil =>
    intro upper id h
    cases h with
    | under _ habove => exact habove
  | cons _ lower ih =>
    intro upper id h
    cases h with
    | under _ habove => exact ih habove

theorem ParentChain.not_mem (h : t.ParentChain id chain) : id ∉ chain := by
  intro hmem
  obtain ⟨lower, upper, rfl⟩ := List.append_of_mem hmem
  have hlength := congrArg List.length (h.unique h.above)
  rw [List.length_append, List.length_cons] at hlength
  omega

/-- A chain never comes back to a node. -/
theorem ParentChain.nodup (h : t.ParentChain id chain) : (id :: chain).Nodup := by
  induction h with
  | root => exact List.nodup_singleton _
  | under hsome habove ih => exact List.nodup_cons.2 ⟨(ParentChain.under hsome habove).not_mem, ih⟩

/-- A chain that avoids every node whose parent changes is a chain still. -/
theorem ParentChain.transport (h : t.ParentChain id chain)
    (hsame : ∀ x ∈ id :: chain, t'.parentOf x = t.parentOf x) : t'.ParentChain id chain := by
  induction h with
  | root hnone => exact .root ((hsame _ List.mem_cons_self).trans hnone)
  | under hsome _ ih =>
    exact .under ((hsame _ List.mem_cons_self).trans hsome)
      (ih fun x hx => hsame x (List.mem_cons_of_mem _ hx))

/-! ## Siblings -/

/-- Whether a list of siblings has the node. -/
def Sited (t : WorkTables) (id : WorkItemId) : Prop :=
  (∃ placement, t.placements.get id = some placement) ∨ ∃ item, t.items.get id = some item

theorem mem_siblings {child : WorkChild} : child ∈ t.siblings parent ↔
      t.Sited child.id ∧ t.parentOf child.id = parent ∧ t.orderOf child.id = child.order := by
  obtain ⟨id, order⟩ := child
  rw [siblings, List.mem_insertionSort, childRows, List.mem_append, Sited, parentOf, orderOf]
  rcases hget : t.placements.get id with _ | placement
  · have hnot : ∀ entry ∈ t.placements.entries, entry.1 ≠ id := by
      rintro ⟨key, value⟩ hentry rfl
      rw [OrderedMap.mem_entries, hget] at hentry
      cases hentry
    constructor
    · rintro (hmem | hmem)
      · obtain ⟨entry, hentry, heq⟩ := List.mem_map.1 hmem
        cases heq
        exact absurd rfl (hnot entry (List.mem_filter.1 hentry).1)
      · split_ifs at hmem with hparent
        · obtain ⟨key, hkey, heq⟩ := List.mem_map.1 hmem
          cases heq
          exact ⟨.inr (OrderedMap.mem_keys.1 (List.mem_filter.1 hkey).1), hparent.symm, rfl⟩
        · cases hmem
    · rintro ⟨hplaced | hitem, hparent, horder⟩
      · obtain ⟨placement, hplacement⟩ := hplaced
        cases hplacement
      · right
        have hparent : parent = none := hparent.symm
        have horder : id = order := horder
        rw [if_pos hparent]
        refine List.mem_map.2 ⟨id, List.mem_filter.2 ⟨OrderedMap.mem_keys.2 hitem, ?_⟩, ?_⟩
        · rw [hget]
          rfl
        · rw [horder]
  · have hentry : (id, placement) ∈ t.placements.entries := OrderedMap.mem_entries.2 hget
    constructor
    · rintro (hmem | hmem)
      · obtain ⟨⟨key, value⟩, hfound, heq⟩ := List.mem_map.1 hmem
        obtain ⟨hfound, hparent⟩ := List.mem_filter.1 hfound
        cases heq
        rw [OrderedMap.mem_entries, hget] at hfound
        cases hfound
        exact ⟨.inl ⟨_, rfl⟩, of_decide_eq_true hparent, rfl⟩
      · split_ifs at hmem
        · obtain ⟨key, hkey, heq⟩ := List.mem_map.1 hmem
          cases heq
          have hnone := (List.mem_filter.1 hkey).2
          rw [hget] at hnone
          cases hnone
        · cases hmem
    · rintro ⟨-, hparent, horder⟩
      refine .inl (List.mem_map.2 ⟨(id, placement), List.mem_filter.2 ⟨hentry, ?_⟩, ?_⟩)
      · exact decide_eq_true hparent
      · exact congrArg (WorkChild.mk id) horder

/-- Respacing siblings moves none of them. -/
@[simp] theorem parentOf_respaced (t : WorkTables) (parent : Option WorkItemId) (x : WorkItemId) :
    (t.respaced parent).parentOf x = t.parentOf x := by
  suffices h : ∀ (keys : List String) (entries : List (WorkChild × ℕ)) (s : WorkTables),
      (∀ entry ∈ entries, t.parentOf entry.1.id = parent) → (∀ x, s.parentOf x = t.parentOf x) →
      (entries.foldl (fun tables entry => tables.setPlacement entry.1.id
        { parent, order := (keys[entry.2]?).getD entry.1.order }) s).parentOf x = t.parentOf x by
    refine h _ _ t (fun entry hentry => ?_) fun _ => rfl
    exact (mem_siblings.1 (List.fst_mem_of_mem_zipIdx hentry)).2.1
  intro keys entries
  induction entries with
  | nil => exact fun s _ hs => hs x
  | cons entry entries ih =>
    intro s hparents hs
    obtain ⟨hparent, hparents⟩ := List.forall_mem_cons.1 hparents
    refine ih _ hparents fun y => ?_
    rw [parentOf_setPlacement]
    split_ifs with hy
    · rw [hy, hparent]
    · exact hs y

/-- Only siblings get new rows when they are respaced. -/
theorem sited_of_respaced {placement : WorkPlacement}
    (h : (t.respaced parent).placements.get x = some placement) : t.Sited x := by
  revert h
  suffices h : ∀ (keys : List String) (entries : List (WorkChild × ℕ)) (s : WorkTables),
      (∀ entry ∈ entries, t.Sited entry.1.id) →
      (∀ placement, s.placements.get x = some placement → t.Sited x) →
      (entries.foldl (fun tables entry => tables.setPlacement entry.1.id
        { parent, order := (keys[entry.2]?).getD entry.1.order }) s).placements.get x =
          some placement → t.Sited x by
    refine h _ _ t (fun entry hentry => ?_) fun placement hplacement => .inl ⟨placement, hplacement⟩
    exact (mem_siblings.1 (List.fst_mem_of_mem_zipIdx hentry)).1
  intro keys entries
  induction entries with
  | nil => exact fun s _ hs h => hs placement h
  | cons entry entries ih =>
    intro s hsited hs
    obtain ⟨hentry, hsited⟩ := List.forall_mem_cons.1 hsited
    refine ih _ hsited fun found hfound => ?_
    by_cases hx : x = entry.1.id
    · exact hx ▸ hentry
    · exact hs found ((OrderedMap.get_set_ne _ _ hx).symm.trans hfound)

/-! ## The forest -/

/-- A forest, but for groups that are not placed yet. -/
structure Rooted (t : WorkTables) : Prop where
  /-- No id is of a task and of a group. -/
  disjoint : ∀ {id item}, t.items.get id = some item → t.groups.get id = none
  /-- Only nodes are placed. -/
  node : ∀ {id placement}, t.placements.get id = some placement → t.IsNode id
  /-- What is live sits under live groups. -/
  parent : ∀ {id parent}, t.NodeAt id → t.parentOf id = some parent → t.GroupAt parent
  /-- Parents lead to a root. -/
  rooted : ∀ id, ∃ chain, t.ParentChain id chain

/-- A forest. -/
structure Forest (t : WorkTables) : Prop extends Rooted t where
  /-- Every group is placed. -/
  placed : ∀ {id group}, t.groups.get id = some group → ∃ placement, t.placements.get id = some placement

theorem forest_empty : Forest .empty where
  disjoint h := nomatch h
  node h := nomatch h
  parent _ h := nomatch h
  rooted _ := ⟨[], .root rfl⟩
  placed h := nomatch h

theorem Rooted.isNode_of_sited (h : t.Rooted) (hsited : t.Sited id) : t.IsNode id := by
  rcases hsited with ⟨placement, hplacement⟩ | ⟨item, hitem⟩
  · exact h.node hplacement
  · exact ⟨_, workNode_of_item hitem⟩

theorem Rooted.nodeAt_group (h : t.Rooted) : t.GroupAt id → t.NodeAt id := by
  rintro ⟨group, hgroup, hdeleted⟩
  refine ⟨_, workNode_of_group ?_ hgroup, hdeleted⟩
  rcases hitem : t.items.get id with _ | item
  · rfl
  · have hnone := h.disjoint hitem
    rw [hgroup] at hnone
    cases hnone

theorem Forest.sited_of_isNode (h : t.Forest) (hnode : t.IsNode id) : t.Sited id := by
  obtain ⟨node, hnode⟩ := hnode
  cases node with
  | task item => exact .inr ⟨item, workNode_eq_task.1 hnode⟩
  | group group => exact .inl (h.placed (workNode_eq_group.1 hnode).2)

/-- The chain of a live node goes through live groups. -/
theorem Rooted.groupAt_of_mem_chain (h : t.Rooted)
    (hchain : t.ParentChain id chain) (hlive : t.NodeAt id) : ∀ x ∈ chain, t.GroupAt x := by
  induction hchain with
  | root => nofun
  | under hsome _ ih =>
    have hgroup := h.parent hlive hsome
    intro x hx
    rcases List.mem_cons.1 hx with rfl | hx
    · exact hgroup
    · exact ih (h.nodeAt_group hgroup) x hx

end WorkTables

end Falryn.Orchestration.WorkQueues
