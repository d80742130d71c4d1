import Falryn.Orchestration.WorkSubtrees
import Falryn.Orchestration.WorkLifecycle

/-!
# Every operation keeps the forest

Operations on tasks only mark tasks deleted or add new roots.  Groups are made where nothing is, nodes
are placed under a live group that is not below them, and a group is deleted once nothing under it is
live: alone because it is hollow, in a subtree because its children come before it.
-/

namespace Falryn.Orchestration.WorkQueues

open WorkTables

variable {t t' : WorkTables} {id : WorkItemId} {a b c : WorkTables} {old item : WorkItem}

/-! ## Operations on tasks -/

/-- Only tasks change: none goes, none comes back from deletion, and a new one has an id of its own. -/
structure TasksOnly (t t' : WorkTables) : Prop where
  groups : t'.groups = t.groups
  placements : t'.placements = t.placements
  kept : ∀ {id item}, t.items.get id = some item →
    ∃ item', t'.items.get id = some item' ∧ (item.deleted = true → item'.deleted = true)
  fresh : ∀ {id item'}, t'.items.get id = some item' → t.items.get id = none → t.groups.get id = none

theorem TasksOnly.refl (t : WorkTables) : TasksOnly t t where
  groups := rfl
  placements := rfl
  kept h := ⟨_, h, fun h => h⟩
  fresh h hnone := by rw [hnone] at h; cases h

theorem TasksOnly.trans (h : TasksOnly a b) (h' : TasksOnly b c) : TasksOnly a c where
  groups := h'.groups.trans h.groups
  placements := h'.placements.trans h.placements
  kept hget := by
    obtain ⟨item', hget', hdeleted⟩ := h.kept hget
    obtain ⟨item'', hget'', hdeleted'⟩ := h'.kept hget'
    exact ⟨item'', hget'', fun hgone => hdeleted' (hdeleted hgone)⟩
  fresh := by
    intro id item hget hnone
    rcases hb : b.items.get id with _ | found
    · rw [← h.groups]
      exact h'.fresh hget hb
    · exact h.fresh hb hnone

/-- A task is rewritten. -/
theorem tasksOnly_write (hitems : t'.items = t.items.set id item)
    (hgroups : t'.groups = t.groups) (hplacements : t'.placements = t.placements)
    (hget : t.items.get id = some old) (hdeleted : old.deleted = true → item.deleted = true) :
    TasksOnly t t' where
  groups := hgroups
  placements := hplacements
  kept := by
    intro other found hfound
    rw [hitems, OrderedMap.get_set]
    split_ifs with hsame
    · rw [hsame, hget] at hfound
      cases hfound
      exact ⟨item, rfl, hdeleted⟩
    · exact ⟨found, hfound, fun h => h⟩
  fresh := by
    intro other found hfound hnone
    rw [hitems, OrderedMap.get_set] at hfound
    split_ifs at hfound with hsame
    · rw [hsame, hget] at hnone
      cases hnone
    · rw [hnone] at hfound
      cases hfound

variable {ctx : WorkContext} {tx tx' : WorkTransaction} {op : WorkMutation}
  {chain : List WorkItemId}

theorem tasksOnly_detachDependent {dependent : WorkItemId}
    (h : detachDependent ctx id tx dependent = .ok tx') : TasksOnly tx.tables tx'.tables := by
  obtain ⟨item, hget, -, -, -, htables⟩ := detachDependent_ok h
  rw [htables]
  exact tasksOnly_write rfl rfl rfl hget fun hgone => hgone

theorem tasksOnly_applyWorkMutation
    (h : applyWorkMutation ctx tx op = .ok tx') : TasksOnly tx.tables tx'.tables := by
  rcases applyWorkMutation_cases h with ⟨id, fields, -, hfresh, hgroup, htables⟩ |
    ⟨id, old, item, hget, -, hrevised, htables⟩ | ⟨id, dependency, old, -, hget, -, -, -, -, -, htables⟩ |
    ⟨id, dependency, old, unresolved, -, hget, -, -, htables⟩ |
    ⟨id, old, tx₁, -, hget, -, -, hdetach, htables⟩
  · rw [htables]
    refine ⟨rfl, rfl, fun {other found} hfound => ?_, fun {other found} hfound hnone => ?_⟩
    · refine ⟨found, (OrderedMap.get_set_ne _ _ ?_).trans hfound, fun hgone => hgone⟩
      rintro rfl
      rw [hfresh] at hfound
      cases hfound
    · by_cases hsame : other = id
      · rw [hsame]
        exact hgroup
      · have hget := (OrderedMap.get_set_ne _ _ hsame).symm.trans hfound
        rw [hnone] at hget
        cases hget
  · rw [htables]
    exact tasksOnly_write rfl rfl rfl hget fun hgone => hrevised.deleted.trans hgone
  · rw [htables]
    exact tasksOnly_write rfl rfl rfl hget fun hgone => hgone
  · rw [htables]
    exact tasksOnly_write rfl rfl rfl hget fun hgone => hgone
  · have hfold : TasksOnly tx.tables tx₁.tables :=
      foldlM_ok_invariant (P := fun s => TasksOnly tx.tables s.tables)
        (fun _ _ _ _ hs hstep => hs.trans (tasksOnly_detachDependent hstep)) (.refl _) hdetach
    obtain ⟨found, hfound, -⟩ := hfold.kept hget
    rw [htables]
    have hitems : ((withoutDependencies tx₁.tables id).putItem id
        (stamped ctx { old with deleted := true })).items =
          tx₁.tables.items.set id (stamped ctx { old with deleted := true }) := by
      show (withoutDependencies tx₁.tables id).items.set id _ = _
      rw [withoutDependencies_items]
    exact hfold.trans (tasksOnly_write hitems (withoutDependencies_groups tx₁.tables id)
      (withoutDependencies_placements tx₁.tables id) hfound fun _ => rfl)

section
variable (h : TasksOnly t t')
include h

theorem TasksOnly.parentOf_eq (x : WorkItemId) : t'.parentOf x = t.parentOf x := by
  rw [parentOf, parentOf, h.placements]

variable {x : WorkItemId}

theorem TasksOnly.groupAt_iff : t'.GroupAt x ↔ t.GroupAt x := by
  rw [GroupAt, GroupAt, h.groups]

theorem TasksOnly.isNode (hnode : t.IsNode x) : t'.IsNode x := by
  obtain ⟨node, hnode⟩ := hnode
  cases node with
  | task item =>
    obtain ⟨item', hget, -⟩ := h.kept (workNode_eq_task.1 hnode)
    exact ⟨_, workNode_of_item hget⟩
  | group group =>
    rw [IsNode, workNode, h.groups, (workNode_eq_group.1 hnode).2]
    rcases t'.items.get x with _ | item
    · exact ⟨_, rfl⟩
    · exact ⟨_, rfl⟩

/-- A node that is live now was live, or is new. -/
theorem TasksOnly.nodeAt (hlive : t'.NodeAt x) : t.NodeAt x ∨ ¬ t.IsNode x := by
  obtain ⟨node, hnode, hdeleted⟩ := hlive
  cases node with
  | task item' =>
    have hget' := workNode_eq_task.1 hnode
    rcases hget : t.items.get x with _ | item
    · right
      rintro ⟨found, hfound⟩
      rw [workNode, hget, h.fresh hget' hget] at hfound
      cases hfound
    · left
      obtain ⟨found, hfound, hgone⟩ := h.kept hget
      rw [hget'] at hfound
      cases hfound
      refine ⟨_, workNode_of_item hget, ?_⟩
      by_contra hdead
      have hdead : item'.deleted = true := hgone (by simpa [WorkNode.deleted] using hdead)
      rw [WorkNode.deleted, hdead] at hdeleted
      cases hdeleted
  | group group =>
    obtain ⟨hnone', hgroup⟩ := workNode_eq_group.1 hnode
    rw [h.groups] at hgroup
    left
    refine ⟨_, workNode_of_group ?_ hgroup, hdeleted⟩
    rcases hget : t.items.get x with _ | item
    · rfl
    · obtain ⟨found, hfound, -⟩ := h.kept hget
      rw [hnone'] at hfound
      cases hfound

theorem TasksOnly.forest (hforest : t.Forest) : t'.Forest where
  disjoint := by
    intro x item' hget'
    rw [h.groups]
    rcases hget : t.items.get x with _ | item
    · exact h.fresh hget' hget
    · exact hforest.disjoint hget
  node := by
    intro x placement hplacement
    rw [h.placements] at hplacement
    exact h.isNode (hforest.node hplacement)
  parent := by
    intro x parent hlive hparent
    rw [h.parentOf_eq] at hparent
    rw [h.groupAt_iff]
    rcases h.nodeAt hlive with hlive | hnew
    · exact hforest.parent hlive hparent
    · -- A new task is not placed anywhere.
      rcases hplacement : t.placements.get x with _ | placement
      · rw [parentOf, hplacement] at hparent
        cases hparent
      · exact absurd (hforest.node hplacement) hnew
  rooted := by
    intro x
    obtain ⟨chain, hchain⟩ := hforest.rooted x
    exact ⟨chain, hchain.transport fun y _ => h.parentOf_eq y⟩
  placed := by
    intro x group hgroup
    rw [h.groups] at hgroup
    rw [h.placements]
    exact hforest.placed hgroup

end

/-! ## Ancestors -/

theorem ancestorsFrom_ok : ∀ {fuel : ℕ} {above ancestors : List WorkItemId} {parent : Option WorkItemId},
    t.ancestorsFrom fuel above parent = .ok ancestors → ∃ rest, ancestors = above ++ rest ∧
      ∀ x, t.parentOf x = parent → t.ParentChain x rest := by
  intro fuel
  induction fuel with
  | zero =>
    intro above ancestors parent h
    rcases parent with _ | parent
    · cases h
      exact ⟨[], (List.append_nil _).symm, fun x hx => .root hx⟩
    · cases h
  | succ fuel ih =>
    intro above ancestors parent h
    rcases parent with _ | parent
    · cases h
      exact ⟨[], (List.append_nil _).symm, fun x hx => .root hx⟩
    · rw [ancestorsFrom] at h
      rcases hgroup : t.groups.get parent with _ | group
      · rw [hgroup] at h
        cases h
      · rw [hgroup] at h
        dsimp only at h
        split_ifs at h
        obtain ⟨placement, hplacement, h⟩ := except_bind_ok.1 h
        obtain ⟨rest, hrest, hchain⟩ := ih h
        refine ⟨parent :: rest, by rw [hrest, List.append_assoc]; rfl, fun x hx => ?_⟩
        exact .under hx (hchain parent (placementOf_ok hplacement).1.symm)

/-- The ancestors of a node are its chain of parents. -/
theorem ancestorsOf_ok {ancestors : List WorkItemId} (h : t.ancestorsOf id = .ok ancestors) :
    t.ParentChain id ancestors := by
  obtain ⟨placement, hplacement, h⟩ := except_bind_ok.1 h
  obtain ⟨rest, hrest, hchain⟩ := ancestorsFrom_ok h
  rw [List.nil_append] at hrest
  rw [hrest]
  exact hchain id (placementOf_ok hplacement).1.symm

theorem WorkTables.Forest.placementOf_ok (h : t.Forest) (id : WorkItemId) :
    ∃ placement, t.placementOf id = .ok placement ∧ placement.parent = t.parentOf id ∧
      placement.order = t.orderOf id := by
  have hdefined : ∃ placement, t.placementOf id = .ok placement := by
    unfold placementOf
    rcases hget : t.placements.get id with _ | placement
    · rcases hgroup : t.groups.get id with _ | group
      · exact ⟨_, rfl⟩
      · obtain ⟨placement, hplacement⟩ := h.placed hgroup
        rw [hget] at hplacement
        cases hplacement
    · exact ⟨placement, rfl⟩
  obtain ⟨placement, hplacement⟩ := hdefined
  exact ⟨placement, hplacement, WorkTables.placementOf_ok hplacement⟩

theorem WorkTables.Forest.ancestorsFrom_eq (h : t.Forest) : ∀ {fuel : ℕ} {above rest : List WorkItemId}
    {x : WorkItemId}, fuel + above.length = depthLimit + 1 → above.length ≤ depthLimit →
      t.ParentChain x rest → (∀ y ∈ rest, t.GroupAt y) → (above ++ rest).Nodup →
      t.ancestorsFrom fuel above (t.parentOf x) =
        if (above ++ rest).length ≤ depthLimit then .ok (above ++ rest) else .error (refusal .corrupt) := by
  intro fuel
  induction fuel with
  | zero =>
    intro above rest x hfuel hlength
    omega
  | succ fuel ih =>
    intro above rest x hfuel hlength hchain hgroups hnodup
    cases hchain with
    | root hnone =>
      rw [hnone, List.append_nil, if_pos hlength]
      rfl
    | @under _ parent rest hsome habove =>
      obtain ⟨⟨group, hgroup, hdeleted⟩, hgroups⟩ := List.forall_mem_cons.1 hgroups
      obtain ⟨placement, hplacement, hparent, -⟩ := h.placementOf_ok parent
      have hnot : parent ∉ above := fun hmem =>
        (List.nodup_append.1 hnodup).2.2 parent hmem parent List.mem_cons_self rfl
      have hsplit : above ++ parent :: rest = (above ++ [parent]) ++ rest := by simp
      rw [hsome, ancestorsFrom, hgroup]
      dsimp only
      rw [if_neg (by simp [hdeleted])]
      by_cases hroom : depthLimit ≤ above.length
      · rw [if_pos (.inr hroom), if_neg]
        rw [List.length_append, List.length_cons]
        omega
      · rw [if_neg (by tauto), hplacement, hsplit]
        show t.ancestorsFrom fuel (above ++ [parent]) placement.parent = _
        rw [hparent]
        refine ih ?_ ?_ habove hgroups (hsplit ▸ hnodup)
        · rw [List.length_append, List.length_singleton]
          omega
        · rw [List.length_append, List.length_singleton]
          omega

/-- **The ancestors of a live node.**  They are its chain of parents, unless that is too long. -/
theorem WorkTables.Forest.ancestorsOf_eq (h : t.Forest) (hlive : t.NodeAt id)
    (hchain : t.ParentChain id chain) :
    t.ancestorsOf id =
      if chain.length ≤ depthLimit then .ok chain else .error (refusal .corrupt) := by
  obtain ⟨placement, hplacement, hparent, -⟩ := h.placementOf_ok id
  unfold ancestorsOf
  rw [hplacement]
  show t.ancestorsFrom (depthLimit + 1) [] placement.parent = _
  rw [hparent]
  exact h.ancestorsFrom_eq rfl (Nat.zero_le _) hchain (h.groupAt_of_mem_chain hchain hlive)
    (List.nodup_cons.1 hchain.nodup).2

/-! ## Groups -/

section
variable {group old : WorkGroup}

theorem not_item_of_group (h : t.Forest) (hget : t.groups.get id = some old) : t.items.get id = none := by
  rcases hitem : t.items.get id with _ | item
  · rfl
  · rw [h.disjoint hitem] at hget
    cases hget

variable {x : WorkItemId}

theorem nodeAt_putGroup (h : t.Forest) (hget : t.groups.get id = some old) (hdeleted : old.deleted = false) (hlive : (t.putGroup id group).NodeAt x) : t.NodeAt x := by
  by_cases hsame : x = id
  · exact hsame ▸ h.nodeAt_group ⟨old, hget, hdeleted⟩
  · obtain ⟨node, hnode, hlive⟩ := hlive
    rw [workNode_putGroup_ne hsame] at hnode
    exact ⟨node, hnode, hlive⟩

theorem isNode_putGroup (hnone : t.items.get id = none) (h : t.IsNode x) :
    (t.putGroup id group).IsNode x := by
  by_cases hsame : x = id
  · subst hsame
    exact ⟨_, workNode_putGroup_self hnone⟩
  · rw [IsNode, workNode_putGroup_ne hsame]
    exact h

theorem groupAt_putGroup (h : t.GroupAt x) (hne : group.deleted = false ∨ x ≠ id) :
    (t.putGroup id group).GroupAt x := by
  obtain ⟨found, hfound, hlive⟩ := h
  by_cases hsame : x = id
  · subst hsame
    rcases hne with hne | hne
    · exact ⟨group, OrderedMap.get_set_self _ _ _, hne⟩
    · exact absurd rfl hne
  · exact ⟨found, (OrderedMap.get_set_ne _ _ hsame).trans hfound, hlive⟩

theorem groupAt_of_putGroup (hget : t.groups.get id = some old) (hdeleted : old.deleted = false) (h : (t.putGroup id group).GroupAt x) : t.GroupAt x := by
  obtain ⟨found, hfound, hlive⟩ := h
  by_cases hsame : x = id
  · subst hsame
    exact ⟨old, hget, hdeleted⟩
  · exact ⟨found, (OrderedMap.get_set_ne _ _ hsame).symm.trans hfound, hlive⟩

/-- A live group may be rewritten, and deleted once nothing under it is live. -/
theorem WorkTables.Forest.putGroup (h : t.Forest) (hget : t.groups.get id = some old)
    (hdeleted : old.deleted = false)
    (hhollow : group.deleted = false ∨ ∀ x, t.NodeAt x → t.parentOf x ≠ some id) :
    (t.putGroup id group).Forest where
  disjoint := by
    intro x item hitem
    replace hitem : t.items.get x = some item := hitem
    refine (OrderedMap.get_set_ne _ _ ?_).trans (h.disjoint hitem)
    rintro rfl
    rw [not_item_of_group h hget] at hitem
    cases hitem
  node hplacement := isNode_putGroup (not_item_of_group h hget) (h.node hplacement)
  parent := by
    intro x parent hlive hparent
    replace hlive := nodeAt_putGroup h hget hdeleted hlive
    replace hparent : t.parentOf x = some parent := hparent
    refine groupAt_putGroup (h.parent hlive hparent) (hhollow.imp_right fun hhollow => ?_)
    rintro rfl
    exact hhollow x hlive hparent
  rooted x := by
    obtain ⟨chain, hchain⟩ := h.rooted x
    exact ⟨chain, hchain.transport fun _ _ => rfl⟩
  placed := by
    intro x found hfound
    by_cases hsame : x = id
    · subst hsame
      exact h.placed hget
    · exact h.placed ((OrderedMap.get_set_ne _ _ hsame).symm.trans hfound)

/-- A group where nothing was; it is not placed yet. -/
theorem WorkTables.Forest.newGroup (h : t.Forest) (hitem : t.items.get id = none)
    (hnone : t.groups.get id = none) : (t.putGroup id group).Rooted := by
  have hne : ∀ {y : WorkItemId}, t.IsNode y → y ≠ id := by
    rintro y ⟨node, hnode⟩ rfl
    rw [workNode, hitem, hnone] at hnode
    cases hnode
  refine ⟨fun {x item} hget => ?_, fun hplacement => isNode_putGroup hitem (h.node hplacement),
    fun {x parent} hlive hparent => ?_, fun x => ?_⟩
  · have hget : t.items.get x = some item := hget
    exact (OrderedMap.get_set_ne _ _ (hne ⟨_, workNode_of_item hget⟩)).trans (h.disjoint hget)
  · obtain ⟨placement, hplacement, -⟩ := Option.bind_eq_some_iff.1 hparent
    have hparent : t.parentOf x = some parent := hparent
    rw [NodeAt, workNode_putGroup_ne (hne (h.node hplacement))] at hlive
    have hgroup := h.parent hlive hparent
    exact groupAt_putGroup hgroup (.inr (hne (h.nodeAt_group hgroup).isNode))
  · obtain ⟨chain, hchain⟩ := h.rooted x
    exact ⟨chain, hchain.transport fun _ _ => rfl⟩

end

/-! ## Places -/

variable {parent : Option WorkItemId} {position : WorkPosition}

/-- What a placement comes to: a row for the node over tables in which its siblings may be respaced. -/
theorem placed_cases
    (h : t.Placed id parent position t') : ∃ (s : WorkTables) (order : String), t' = s.setPlacement id { parent, order } ∧
      s.items = t.items ∧ s.groups = t.groups ∧ (∀ x, s.parentOf x = t.parentOf x) ∧
      (∀ x placement, s.placements.get x = some placement → t.Sited x) ∧
      ∀ x placement, t.placements.get x = some placement → ∃ placement', s.placements.get x = some placement' := by
  cases h with
  | direct order hkey =>
    exact ⟨t, order, rfl, rfl, rfl, fun _ => rfl, fun _ placement h => .inl ⟨placement, h⟩,
      fun _ placement h => ⟨placement, h⟩⟩
  | respaced order _ hkey =>
    refine ⟨t.respaced parent, order, rfl, respaced_items t parent, respaced_groups t parent,
      parentOf_respaced t parent, fun _ _ h => sited_of_respaced h, ?_⟩
    refine respaced_preserves (P := fun s => ∀ x placement, t.placements.get x = some placement →
      ∃ placement', s.placements.get x = some placement') (fun s y placement hs x found hfound => ?_) t parent
      (fun _ placement h => ⟨placement, h⟩)
    by_cases hsame : x = y
    · exact ⟨placement, hsame ▸ OrderedMap.get_set_self _ _ _⟩
    · obtain ⟨placement', hplacement'⟩ := hs x found hfound
      exact ⟨placement', (OrderedMap.get_set_ne _ _ hsame).trans hplacement'⟩

theorem parentOf_placed (h : t.Placed id parent position t') (x : WorkItemId) :
    t'.parentOf x = if x = id then parent else t.parentOf x := by
  obtain ⟨s, order, rfl, -, -, hparents, -, -⟩ := placed_cases h
  rw [parentOf_setPlacement, hparents]

variable {x : WorkItemId} {depth : ℕ}

/-- A chain that led to the node before it was moved leads to its new parents now. -/
theorem WorkTables.ParentChain.moved
    (hparents : ∀ x, t'.parentOf x = if x = id then parent else t.parentOf x)
    {upper : List WorkItemId} (hupper : t'.ParentChain id upper) (hchain : t.ParentChain x chain) :
    ∃ chain', t'.ParentChain x chain' := by
  induction hchain with
  | @root x hnone =>
    by_cases hsame : x = id
    · exact ⟨upper, hsame ▸ hupper⟩
    · exact ⟨[], .root ((hparents x).trans ((if_neg hsame).trans hnone))⟩
  | @under x above chain hsome _ ih =>
    by_cases hsame : x = id
    · exact ⟨upper, hsame ▸ hupper⟩
    · obtain ⟨chain', hchain'⟩ := ih
      exact ⟨above :: chain', .under ((hparents x).trans ((if_neg hsame).trans hsome)) hchain'⟩

/-- The chain of a node just placed. -/
theorem chain_placed
    (hdepth : depthUnder t id parent = .ok depth) (hplaced : t.Placed id parent position t') :
    ∃ upper, t'.ParentChain id upper ∧ upper.length + 1 = depth ∧
      ∀ above, parent = some above → t.GroupAt above ∧ ∃ rest, upper = above :: rest ∧
        t.ParentChain above rest := by
  have hparents := parentOf_placed hplaced
  rcases depthUnder_ok hdepth with ⟨rfl, rfl⟩ | ⟨above, ancestors, rfl, hne, hgroup, hancestors, hnot, rfl⟩
  · refine ⟨[], .root ((hparents id).trans (if_pos rfl)), rfl, nofun⟩
  · have hchain := ancestorsOf_ok hancestors
    refine ⟨above :: ancestors, .under ((hparents id).trans (if_pos rfl)) (hchain.transport fun x hx => ?_),
      rfl, fun _ h => ?_⟩
    · refine (hparents x).trans (if_neg ?_)
      rintro rfl
      rcases List.mem_cons.1 hx with heq | hx
      · exact hne heq.symm
      · exact hnot hx
    · cases h
      exact ⟨hgroup, ancestors, rfl, hchain⟩

/-- A live node moved under a live group that is not below it. -/
theorem WorkTables.Rooted.placed (h : t.Rooted) (hlive : t.NodeAt id) (hdepth : depthUnder t id parent = .ok depth)
    (hplaced : t.Placed id parent position t') : t'.Rooted := by
  have hparents := parentOf_placed hplaced
  obtain ⟨upper, hupper, -, habove⟩ := chain_placed hdepth hplaced
  obtain ⟨s, order, rfl, hitems, hgroups, -, hsited, -⟩ := placed_cases hplaced
  have hnodes : ∀ x, (s.setPlacement id { parent, order }).workNode x = t.workNode x :=
    workNode_congr hitems hgroups
  refine ⟨fun {x item} hget => ?_, fun {x placement} hplacement => ?_, fun {x above} hnode hparent => ?_,
    fun x => ?_⟩
  · rw [setPlacement_groups, hgroups]
    rw [setPlacement_items, hitems] at hget
    exact h.disjoint hget
  · rw [IsNode, hnodes]
    have hplacement : (s.placements.set id { parent, order }).get x = some placement := hplacement
    rw [OrderedMap.get_set] at hplacement
    split_ifs at hplacement with hsame
    · exact hsame ▸ hlive.isNode
    · exact h.isNode_of_sited (hsited x placement hplacement)
  · rw [NodeAt, hnodes] at hnode
    rw [hparents] at hparent
    have hgroup : t.GroupAt above := by
      split_ifs at hparent with hsame
      · exact (habove above hparent).1
      · exact h.parent hnode hparent
    rw [GroupAt, setPlacement_groups, hgroups]
    exact hgroup
  · obtain ⟨chain, hchain⟩ := h.rooted x
    exact ParentChain.moved hparents hupper hchain

/-- Every group stays placed. -/
theorem placed_stays (h : t.Placed id parent position t')
    (hx : x = id ∨ ∃ placement, t.placements.get x = some placement) :
    ∃ placement, t'.placements.get x = some placement := by
  obtain ⟨s, order, rfl, -, -, -, -, hkept⟩ := placed_cases h
  by_cases hsame : x = id
  · subst hsame
    exact ⟨_, OrderedMap.get_set_self _ _ _⟩
  · obtain ⟨placement, hplacement⟩ := hx.resolve_left hsame
    obtain ⟨placement', hplacement'⟩ := hkept x placement hplacement
    exact ⟨placement', (OrderedMap.get_set_ne _ _ hsame).trans hplacement'⟩

/-! ## Removing a subtree -/

/-- What removing nodes leaves of a forest: no node moves, and none comes back. -/
structure Shrinks (t t' : WorkTables) : Prop where
  parents : ∀ x, t'.parentOf x = t.parentOf x
  live : ∀ x, t'.NodeAt x → t.NodeAt x
  groups : ∀ x, t'.GroupAt x → t.GroupAt x

theorem Shrinks.refl (t : WorkTables) : Shrinks t t := ⟨fun _ => rfl, fun _ h => h, fun _ h => h⟩

theorem Shrinks.trans (h : Shrinks a b) (h' : Shrinks b c) : Shrinks a c :=
  ⟨fun x => (h'.parents x).trans (h.parents x), fun x hx => h.live x (h'.live x hx),
    fun x hx => h.groups x (h'.groups x hx)⟩

/-- No task is new. -/
def AddsNone (t t' : WorkTables) : Prop :=
  ∀ x item', t'.items.get x = some item' → ∃ item, t.items.get x = some item

theorem AddsNone.write {s : WorkTables} (h : AddsNone t s)
    (hget : s.items.get id = some old) (hitems : t'.items = s.items.set id item) : AddsNone t t' := by
  intro x item' hitem'
  rw [hitems, OrderedMap.get_set] at hitem'
  split_ifs at hitem' with hsame
  · exact h x old (hsame ▸ hget)
  · exact h x item' hitem'

theorem AddsNone.delete
    (h : applyWorkMutation ctx tx (.delete id) = .ok tx') : AddsNone tx.tables tx'.tables := by
  obtain ⟨old, tx₁, hget, -, -, hdetach, htables⟩ := delete_ok h
  have hfold : AddsNone tx.tables tx₁.tables ∧ TasksOnly tx.tables tx₁.tables := by
    refine foldlM_ok_invariant (P := fun s => AddsNone tx.tables s.tables ∧ TasksOnly tx.tables s.tables)
      (fun s _ _ _ hs hstep => ?_) ⟨fun _ item h => ⟨item, h⟩, .refl _⟩ hdetach
    obtain ⟨item, hitem, -, -, -, hstables⟩ := detachDependent_ok hstep
    exact ⟨hs.1.write hitem (by rw [hstables]; rfl), hs.2.trans (tasksOnly_detachDependent hstep)⟩
  obtain ⟨found, hfound, -⟩ := hfold.2.kept hget
  exact hfold.1.write hfound (by
    rw [htables, ← withoutDependencies_items tx₁.tables id]
    rfl)

/-- A task that an operation makes new is one it names. -/
theorem named_of_new (h : applyWorkMutation ctx tx op = .ok tx') {item' : WorkItem}
    (hget' : tx'.tables.items.get x = some item') :
    (∃ item, tx.tables.items.get x = some item) ∨ x ∈ op.ids := by
  have hkept : AddsNone tx.tables tx.tables := fun x item h => ⟨item, h⟩
  rcases applyWorkMutation_cases h with ⟨id, fields, rfl, -, -, htables⟩ |
    ⟨id, old, item, hget, -, -, htables⟩ | ⟨id, dependency, old, -, hget, -, -, -, -, -, htables⟩ |
    ⟨id, dependency, old, unresolved, -, hget, -, -, htables⟩ | ⟨id, -, -, rfl, -⟩
  · have hget' : (tx.tables.items.set id (addedItem ctx fields)).get x = some item' := by
      rw [htables] at hget'
      exact hget'
    rw [OrderedMap.get_set] at hget'
    split_ifs at hget' with hsame
    · exact .inr (hsame ▸ List.mem_singleton_self _)
    · exact .inl ⟨item', hget'⟩
  · exact .inl (hkept.write hget (by rw [htables]; rfl) x item' hget')
  · exact .inl (hkept.write hget (by rw [htables]; rfl) x item' hget')
  · exact .inl (hkept.write hget (by rw [htables]; rfl) x item' hget')
  · exact .inl (AddsNone.delete h x item' hget')

/-- A deletion only takes nodes away. -/
theorem shrinks_delete (h : applyWorkMutation ctx tx (.delete id) = .ok tx') :
    Shrinks tx.tables tx'.tables ∧ ¬ tx'.tables.NodeAt id := by
  obtain ⟨old, tx₁, -, -, -, -, htables⟩ := delete_ok h
  have honly := tasksOnly_applyWorkMutation h
  have hnone := AddsNone.delete h
  have hdeleted : tx'.tables.items.get id = some (stamped ctx { old with deleted := true }) := by
    rw [htables]
    exact OrderedMap.get_set_self _ _ _
  refine ⟨⟨honly.parentOf_eq, fun x hlive => (honly.nodeAt hlive).resolve_right fun hnew => hnew ?_,
    fun x => honly.groupAt_iff.1⟩, ?_⟩
  · obtain ⟨node, hnode, -⟩ := hlive
    cases node with
    | task item =>
      obtain ⟨item, hitem⟩ := hnone x item (workNode_eq_task.1 hnode)
      exact ⟨_, workNode_of_item hitem⟩
    | group group =>
      have hgroup := (workNode_eq_group.1 hnode).2
      rw [honly.groups] at hgroup
      rw [IsNode, workNode, hgroup]
      rcases tx.tables.items.get x with _ | item
      · exact ⟨_, rfl⟩
      · exact ⟨_, rfl⟩
  · rintro ⟨node, hnode, hlive⟩
    rw [workNode_of_item hdeleted] at hnode
    cases hnode
    cases hlive

theorem shrinks_removePlanned {ctx : HierarchyContext} {node : PlannedNode}
    (hforest : tx.tables.Forest)
    (hchildren : node.isGroup = true → ∀ x, tx.tables.NodeAt x → tx.tables.parentOf x ≠ some node.id)
    (h : removePlanned ctx tx node = .ok tx') :
    tx'.tables.Forest ∧ Shrinks tx.tables tx'.tables ∧ ¬ tx'.tables.NodeAt node.id := by
  rcases removePlanned_cases h with ⟨hkind, group, hget, hdeleted, htables⟩ | ⟨-, hdelete⟩
  · rw [htables]
    refine ⟨hforest.putGroup hget hdeleted (.inr (hchildren hkind)), ⟨fun _ => rfl, fun x =>
      nodeAt_putGroup hforest hget hdeleted, fun x => groupAt_of_putGroup hget hdeleted⟩, ?_⟩
    rintro ⟨found, hfound, hlive⟩
    rw [workNode_putGroup_self (not_item_of_group hforest hget)] at hfound
    cases hfound
    cases hlive
  · exact ⟨(tasksOnly_applyWorkMutation hdelete).forest hforest, shrinks_delete hdelete⟩

/-- **Removing nodes, children first, keeps the forest.** -/
theorem forest_removal {ctx : HierarchyContext} : ∀ {plan : List PlannedNode} {seen : List WorkItemId}
    {tx tx' : WorkTransaction}, tx.tables.Forest → Shrinks t tx.tables →
      (∀ x ∈ seen, ¬ tx.tables.NodeAt x) → t.ChildrenFirst seen plan →
      plan.foldlM (removePlanned ctx) tx = .ok tx' →
      tx'.tables.Forest ∧ Shrinks t tx'.tables ∧
        ∀ x ∈ plan.map PlannedNode.id ++ seen, ¬ tx'.tables.NodeAt x := by
  intro plan
  induction plan with
  | nil =>
    intro seen tx tx' hforest hshrinks hseen _ h
    cases h
    exact ⟨hforest, hshrinks, hseen⟩
  | cons node plan ih =>
    intro seen tx tx' hforest hshrinks hseen hfirst h
    rw [List.foldlM_cons] at h
    obtain ⟨tx₁, hstep, hrest⟩ := except_bind_ok.1 h
    have hhollow : node.isGroup = true → ∀ x, tx.tables.NodeAt x →
        tx.tables.parentOf x ≠ some node.id := by
      intro hkind x hlive hparent
      rw [hshrinks.parents] at hparent
      exact hseen x (hfirst.1 hkind x (hshrinks.live x hlive) hparent) hlive
    obtain ⟨hforest', hshrinks', hgone⟩ := shrinks_removePlanned hforest hhollow hstep
    have hseen' : ∀ x ∈ node.id :: seen, ¬ tx₁.tables.NodeAt x := by
      intro x hx hlive
      rcases List.mem_cons.1 hx with rfl | hx
      · exact hgone hlive
      · exact hseen x hx (hshrinks'.live x hlive)
    obtain ⟨hforest'', hshrinks'', hall⟩ := ih hforest' (hshrinks.trans hshrinks') hseen' hfirst.2 hrest
    refine ⟨hforest'', hshrinks'', fun x hx => hall x ?_⟩
    rw [List.map_cons, List.cons_append, List.mem_cons, List.mem_append] at hx
    rw [List.mem_append, List.mem_cons]
    tauto

/-! ## All operations -/

/-- **Every operation keeps the forest.** -/
theorem forest_applyOperation {revision : ℕ} {call : WorkCall}
    (h : tx.tables.Forest) (happly : applyOperation revision tx call = .ok tx') : tx'.tables.Forest := by
  unfold applyOperation at happly
  rcases hcall : call.operation with operation | operation
  · rw [hcall] at happly
    exact (tasksOnly_applyWorkMutation happly).forest h
  · rw [hcall] at happly
    rcases applyHierarchyMutation_cases happly with
      ⟨id, subject, parent, position, depth, height, -, hitem, hgroup, hdepth, -, -, hplaced⟩ |
      ⟨id, parent, position, node, depth, height, -, hnode, hdeleted, hdepth, -, -, hplaced⟩ |
      ⟨id, subject, group, -, hget, hdeleted, htables⟩ | ⟨id, group, -, hget, hdeleted, hhollow, htables⟩ |
      ⟨id, reviewed, plan, ancestors, -, hgroup, hplan, -, hremove⟩
    · have hrooted : (tx.tables.putGroup id (newGroup (call.context revision) subject)).Rooted :=
        h.newGroup hitem hgroup
      refine ⟨hrooted.placed ⟨_, workNode_putGroup_self hitem, rfl⟩ hdepth hplaced, fun {x found} hfound => ?_⟩
      refine placed_stays hplaced ?_
      rw [Placed_groups hplaced] at hfound
      by_cases hsame : x = id
      · exact .inl hsame
      · exact .inr (h.placed ((OrderedMap.get_set_ne _ _ hsame).symm.trans hfound))
    · refine ⟨h.toRooted.placed ⟨node, hnode, hdeleted⟩ hdepth hplaced, fun {x found} hfound => ?_⟩
      rw [Placed_groups hplaced] at hfound
      exact placed_stays hplaced (.inr (h.placed hfound))
    · rw [htables]
      exact h.putGroup hget hdeleted (.inl hdeleted)
    · rw [htables]
      refine h.putGroup hget hdeleted (.inr fun x hlive hparent => ?_)
      obtain ⟨node, hnode, hlive⟩ := hlive
      obtain ⟨found, hfound, hdead⟩ := hhollow ⟨x, tx.tables.orderOf x⟩
        (mem_siblings.2 ⟨h.sited_of_isNode ⟨node, hnode⟩, hparent, rfl⟩)
      have hfound : tx.tables.workNode x = some found := hfound
      rw [hnode] at hfound
      cases hfound
      rw [hlive] at hdead
      cases hdead
    · obtain ⟨hnodes, henough, -⟩ := removalVisit_ok hplan
      rw [List.nil_append] at hnodes
      have hstart : (affect tx ancestors).tables.Forest := h
      refine (forest_removal hstart (.refl _) (fun x hx => absurd hx List.not_mem_nil) ?_ hremove).1
      rw [hnodes]
      exact h.childrenFirst_postOrder hgroup henough

theorem Reachable.forest {q : WorkQueueState} (h : Reachable q) : q.tables.Forest :=
  h.invariant forest_empty fun ht _ happly => forest_applyOperation ht happly

/-- **The hierarchy of a queue.**  Following placement parents from any node never comes back to one it
passed; a live node with a parent has a live group as its parent; so the ancestors of a live node are
its parents up to the root, and are refused only if they are too many. -/
theorem queue_forest {q : WorkQueueState} (h : Reachable q) :
    (∀ id, ∃ chain, q.tables.ParentChain id chain ∧ (id :: chain).Nodup) ∧
    (∀ id parent, q.tables.NodeAt id → q.tables.parentOf id = some parent → q.tables.GroupAt parent) ∧
    ∀ id chain, q.tables.NodeAt id → q.tables.ParentChain id chain →
      q.tables.ancestorsOf id =
        if chain.length ≤ depthLimit then .ok chain else .error (refusal .corrupt) := by
  have hforest := h.forest
  refine ⟨fun id => ?_, fun id parent => hforest.parent, fun id chain hlive => hforest.ancestorsOf_eq hlive⟩
  obtain ⟨chain, hchain⟩ := hforest.rooted id
  exact ⟨chain, hchain, hchain.nodup⟩

/-- Whether a node of a queue sits right under another. -/
def sitsUnder (q : WorkQueueState) (id parent : WorkItemId) : Bool :=
  decide (q.tables.parentOf id = some parent)

/-- A group is made under another, and a task is added and placed in it. -/
def nestingBatch : List WorkCall :=
  [hierarchyCall (.group "outer" "Outer" none .atEnd),
    hierarchyCall (.group "inner" "Inner" (some "outer") .atEnd), taskCall (.add "a" (plainFields "a")),
    hierarchyCall (.place "a" (some "inner") .atEnd)]

theorem queue_forest_nested : ∃ q : WorkQueueState,
    (q.tables.parentOf "a" = some "inner" ∧ q.tables.parentOf "inner" = some "outer") ∧
    (∀ id, ∃ chain, q.tables.ParentChain id chain ∧ (id :: chain).Nodup) ∧
    (∀ id parent, q.tables.NodeAt id → q.tables.parentOf id = some parent → q.tables.GroupAt parent) ∧
    ∀ id chain, q.tables.NodeAt id → q.tables.ParentChain id chain →
      q.tables.ancestorsOf id =
        if chain.length ≤ depthLimit then .ok chain else .error (refusal .corrupt) := by
  obtain ⟨q, hq, hp⟩ := reachable_of_any [nestingBatch]
    (fun q => sitsUnder q "a" "inner" && sitsUnder q "inner" "outer") (by decide +kernel)
  rw [Bool.and_eq_true] at hp
  exact ⟨q, ⟨of_decide_eq_true hp.1, of_decide_eq_true hp.2⟩, queue_forest hq⟩

end Falryn.Orchestration.WorkQueues
