import Falryn.Orchestration.WorkForestSteps

/-!
# How deep the hierarchy goes

Moving a group checks the height of its subtree, which counts the groups in it and not the tasks.  So
groups stay within the limit whatever is moved where; tasks do as well as long as every group that is
moved leaves room for the tasks below it, and sink one level below the limit when one does not.
-/

namespace Falryn.Orchestration.WorkQueues

open WorkTables

variable {t t' : WorkTables} {id : WorkItemId}

/-! ## Moving a subtree -/

variable {parent : Option WorkItemId}

/-- Where a node's chain of parents goes once another node is moved. -/
theorem moved_chain (hparents : ∀ x, t'.parentOf x = if x = id then parent else t.parentOf x)
    {old upper : List WorkItemId} (hold : t.ParentChain id old) (hupper : t'.ParentChain id upper)
    {x : WorkItemId} {chain : List WorkItemId} (hchain : t.ParentChain x chain) :
    ∃ chain', t'.ParentChain x chain' ∧
      ((t.Within id x ∧ chain'.length + old.length = chain.length + upper.length) ∨
        (¬ t.Within id x ∧ chain' = chain)) := by
  induction hchain with
  | @root x hnone =>
    by_cases hsame : x = id
    · subst hsame
      refine ⟨upper, hupper, .inl ⟨.refl, ?_⟩⟩
      rw [hold.unique (.root hnone), List.length_nil]
      omega
    · refine ⟨[], .root ((hparents x).trans ((if_neg hsame).trans hnone)), .inr ⟨?_, rfl⟩⟩
      rw [(ParentChain.root hnone).within_iff, List.mem_singleton]
      exact fun h => hsame h.symm
  | @under x above chain hsome habove ih =>
    by_cases hsame : x = id
    · subst hsame
      refine ⟨upper, hupper, .inl ⟨.refl, ?_⟩⟩
      rw [hold.unique (.under hsome habove)]
      omega
    · obtain ⟨chain', hchain', hcase⟩ := ih
      refine ⟨above :: chain', .under ((hparents x).trans ((if_neg hsame).trans hsome)) hchain', ?_⟩
      rcases hcase with ⟨hwithin, hlength⟩ | ⟨hnot, rfl⟩
      · refine .inl ⟨.head hsome hwithin, ?_⟩
        rw [List.length_cons, List.length_cons]
        omega
      · refine .inr ⟨?_, rfl⟩
        rw [(ParentChain.under hsome habove).within_iff, List.mem_cons]
        rintro (heq | hmem)
        · exact hsame heq.symm
        · exact hnot (habove.within_iff.2 hmem)

/-! ## The height of a subtree -/

variable {height : ℕ} {fuel depth revision : ℕ} {root : WorkItemId} {position : WorkPosition}
  {tx tx' : WorkTransaction} {call : WorkCall}

/-- The loop over the children ends above where it starts and above every group. -/
theorem foldlM_heightStep {visit : WorkItemId → Except WorkQueueError ℕ} :
    ∀ {children : List (WorkChild × WorkNode)} {start : ℕ},
      children.foldlM (heightStep visit) start = .ok height →
      start ≤ height ∧ ∀ child group, (child, .group group) ∈ children →
        ∃ below, visit child.id = .ok below ∧ 1 + below ≤ height := by
  intro children
  induction children with
  | nil =>
    intro start h
    cases h
    exact ⟨le_rfl, nofun⟩
  | cons first children ih =>
    intro start h
    rw [List.foldlM_cons] at h
    obtain ⟨next, hstep, hrest⟩ := except_bind_ok.1 h
    obtain ⟨hle, hall⟩ := ih hrest
    obtain ⟨firstChild, node⟩ := first
    cases node with
    | task =>
      cases hstep
      refine ⟨hle, fun child group hmem => hall child group ?_⟩
      exact (List.mem_cons.1 hmem).resolve_left nofun
    | group =>
      obtain ⟨below, hbelow, hstep⟩ := except_bind_ok.1 hstep
      have hnext : next = max start (1 + below) := except_pure_ok.1 hstep
      refine ⟨by omega, fun child group hmem => ?_⟩
      rcases List.mem_cons.1 hmem with heq | hmem
      · cases heq
        exact ⟨below, hbelow, by omega⟩
      · exact hall child group hmem

/-- The height is at least one, and more than that of every group right below. -/
theorem subtreeHeight_succ (h : t.subtreeHeight (fuel + 1) root = .ok height) :
    1 ≤ height ∧ ∀ child group, (child, .group group) ∈ t.liveSiblings (some root) →
      ∃ below, t.subtreeHeight fuel child.id = .ok below ∧ 1 + below ≤ height := by
  rw [subtreeHeight] at h
  obtain ⟨children, hchildren, h⟩ := except_bind_ok.1 h
  rw [← liveChildren_ok hchildren]
  exact foldlM_heightStep h

theorem one_le_subtreeHeight (h : t.subtreeHeight fuel root = .ok height) : 1 ≤ height := by
  cases fuel with
  | zero => cases h
  | succ fuel => exact (subtreeHeight_succ h).1

/-- The height of a subtree reaches every live group in it. -/
theorem subtreeHeight_ok (h : t.Forest) : ∀ {fuel : ℕ} {root : WorkItemId} {height : ℕ},
    t.subtreeHeight fuel root = .ok height → ∀ x above chain, t.GroupAt x → t.Within root x →
      t.ParentChain root above → t.ParentChain x chain → chain.length + 1 ≤ above.length + height := by
  intro fuel
  induction fuel with
  | zero =>
    intro root height heq
    cases heq
  | succ fuel ih =>
    intro root height heq x above chain hgroup hwithin habove hchain
    obtain ⟨hone, hall⟩ := subtreeHeight_succ heq
    rcases h.within_cases (h.nodeAt_group hgroup) hwithin with rfl | ⟨child, node, hmem, hwithin⟩
    · rw [hchain.unique habove]
      omega
    · obtain ⟨hget, hdeleted, hparent, -⟩ := h.mem_liveSiblings.1 hmem
      have hchild : t.ParentChain child.id (root :: above) := .under hparent habove
      cases node with
      | task item =>
        -- The group would be below a task.
        have hitem := workNode_eq_task.1 hget
        have hsame := h.eq_of_within_task hitem (h.nodeAt_group hgroup) hwithin
        obtain ⟨group, hgroup, -⟩ := hgroup
        rw [hsame, h.disjoint hitem] at hgroup
        cases hgroup
      | group group =>
        obtain ⟨below, hbelow, hle⟩ := hall child group hmem
        have hreach := ih hbelow x _ _ hgroup hwithin hchild hchain
        rw [List.length_cons] at hreach
        omega

/-! ## Groups stay within the limit -/

/-- Every live group is within the depth limit. -/
def GroupsWithin (t : WorkTables) : Prop :=
  ∀ x chain, t.GroupAt x → t.ParentChain x chain → chain.length + 1 ≤ depthLimit

/-- Every live node is within the depth limit. -/
def NodesWithin (t : WorkTables) : Prop :=
  ∀ x chain, t.NodeAt x → t.ParentChain x chain → chain.length + 1 ≤ depthLimit

/-- Where no node moves and no group is new, groups stay where they are. -/
theorem GroupsWithin.of_same (h : GroupsWithin t) (hforest : t.Forest)
    (hparents : ∀ x, t'.parentOf x = t.parentOf x) (hgroups : ∀ x, t'.GroupAt x → t.GroupAt x) :
    GroupsWithin t' := by
  intro x chain' hgroup hchain'
  obtain ⟨chain, hchain⟩ := hforest.rooted x
  rw [hchain'.unique (hchain.transport fun y _ => hparents y)]
  exact h x chain (hgroups x hgroup) hchain

/-- A node is moved: the groups in its subtree fit, since its height was checked. -/
theorem GroupsWithin.placed (h : GroupsWithin t) (hrooted : t.Rooted) (hdepth : depthUnder t id parent = .ok depth)
    (hreach : ∀ x old chain, t.GroupAt x → t.Within id x → t.ParentChain id old → t.ParentChain x chain →
      chain.length + 1 ≤ old.length + height)
    (hfits : depth + height - 1 ≤ depthLimit) (hplaced : t.Placed id parent position t') :
    GroupsWithin t' := by
  intro x chain' hgroup hchain'
  have hgroup : t.GroupAt x := by
    rw [GroupAt, Placed_groups hplaced] at hgroup
    exact hgroup
  obtain ⟨chain, hchain⟩ := hrooted.rooted x
  obtain ⟨old, hold⟩ := hrooted.rooted id
  obtain ⟨upper, hupper, hlength, -⟩ := chain_placed hdepth hplaced
  obtain ⟨chain'', hchain'', hcase⟩ := moved_chain (parentOf_placed hplaced) hold hupper hchain
  rw [hchain'.unique hchain'']
  rcases hcase with ⟨hwithin, hlengths⟩ | ⟨-, rfl⟩
  · have hle := hreach x old chain hgroup hwithin hold hchain
    omega
  · exact h x _ hgroup hchain

/-- Nothing is below a group just made. -/
theorem within_newGroup (h : t.Forest) (hnone : ¬ t.IsNode id) {group : WorkGroup} {x : WorkItemId}
    (hlive : (t.putGroup id group).GroupAt x) (hwithin : (t.putGroup id group).Within id x) : x = id := by
  by_contra hne
  have hlive' : t.GroupAt x := by
    obtain ⟨found, hfound, hdeleted⟩ := hlive
    exact ⟨found, (OrderedMap.get_set_ne _ _ hne).symm.trans hfound, hdeleted⟩
  have hwithin' : t.Within id x := hwithin
  exact hnone (h.nodeAt_group (h.groupAt_of_within (h.nodeAt_group hlive') hwithin' hne)).isNode

theorem groupsWithin_applyOperation (hforest : tx.tables.Forest) (h : GroupsWithin tx.tables)
    (happly : applyOperation revision tx call = .ok tx') : GroupsWithin tx'.tables := by
  unfold applyOperation at happly
  rcases hcall : call.operation with operation | operation
  · rw [hcall] at happly
    have honly := tasksOnly_applyWorkMutation happly
    exact h.of_same hforest honly.parentOf_eq fun x => honly.groupAt_iff.1
  · rw [hcall] at happly
    rcases applyHierarchyMutation_cases happly with
      ⟨id, subject, parent, position, depth, height, -, hitem, hgroup, hdepth, hheight, hfits, hplaced⟩ |
      ⟨id, parent, position, node, depth, height, -, hnode, hdeleted, hdepth, hheight, hfits, hplaced⟩ |
      ⟨id, subject, group, -, hget, hdeleted, htables⟩ | ⟨id, group, -, hget, hdeleted, -, htables⟩ |
      ⟨id, reviewed, plan, ancestors, -, hgroup, hplan, -, hremove⟩
    · have hnone : ¬ tx.tables.IsNode id := by
        rintro ⟨node, hnode⟩
        rw [workNode, hitem, hgroup] at hnode
        cases hnode
      have halone := @within_newGroup tx.tables id hforest hnone (newGroup (call.context revision) subject)
      refine GroupsWithin.placed (fun x chain hlive hchain => ?_) (hforest.newGroup hitem hgroup) hdepth
        (fun x old chain hlive hwithin hold hchain => ?_) hfits hplaced
      · by_cases hsame : x = id
        · subst hsame
          have hroot : tx.tables.parentOf x = none := by
            rcases hplacement : tx.tables.placements.get x with _ | placement
            · rw [parentOf, hplacement]
              rfl
            · exact absurd (hforest.node hplacement) hnone
          rw [hchain.unique (.root hroot)]
          exact Nat.le_add_left 1 31
        · obtain ⟨found, hfound, hdeleted⟩ := hlive
          exact h x chain ⟨found, (OrderedMap.get_set_ne _ _ hsame).symm.trans hfound, hdeleted⟩
            (hchain.transport fun _ _ => rfl)
      · have hsame := halone hlive hwithin
        subst hsame
        have hone := one_le_subtreeHeight hheight
        rw [hchain.unique hold]
        omega
    · refine h.placed hforest.toRooted hdepth (fun x old chain hlive hwithin hold hchain => ?_) hfits hplaced
      cases node with
      | group group => exact subtreeHeight_ok hforest hheight x old chain hlive hwithin hold hchain
      | task =>
        have hitem := workNode_eq_task.1 hnode
        have hsame := hforest.eq_of_within_task hitem (hforest.nodeAt_group hlive) hwithin
        obtain ⟨group, hgroup, -⟩ := hlive
        rw [hsame, hforest.disjoint hitem] at hgroup
        cases hgroup
    · rw [htables]
      exact h.of_same hforest (fun _ => rfl) fun x => groupAt_of_putGroup hget hdeleted
    · rw [htables]
      exact h.of_same hforest (fun _ => rfl) fun x => groupAt_of_putGroup hget hdeleted
    · obtain ⟨hnodes, henough, -⟩ := removalVisit_ok hplan
      rw [List.nil_append] at hnodes
      have hstart : (affect tx ancestors).tables.Forest := hforest
      have hshrinks := (forest_removal hstart (.refl _) (fun x hx => absurd hx List.not_mem_nil)
        (hnodes ▸ hforest.childrenFirst_postOrder hgroup henough) hremove).2.1
      exact h.of_same hforest hshrinks.parents hshrinks.groups

theorem Reachable.groupsWithin {q : WorkQueueState} (h : Reachable q) : GroupsWithin q.tables := by
  have hempty : GroupsWithin .empty := fun _ _ hgroup => by
    obtain ⟨group, hgroup, -⟩ := hgroup
    cases hgroup
  exact (h.invariant (I := fun t => t.Forest ∧ GroupsWithin t) ⟨forest_empty, hempty⟩ fun ht _ happly =>
    ⟨forest_applyOperation ht.1 happly, groupsWithin_applyOperation ht.1 ht.2 happly⟩).2

/-! ## Tasks -/

/-- The parents a node would have under a parent. -/
def ChainUnder (t : WorkTables) (parent : Option WorkItemId) (chain : List WorkItemId) : Prop :=
  match parent with
  | none => chain = []
  | some above => ∃ rest, chain = above :: rest ∧ t.ParentChain above rest

/-- The live tasks below a node leave room for it under a parent: as many levels as they are below it,
and as many as there are above the place. -/
def TasksFit (t : WorkTables) (id : WorkItemId) (parent : Option WorkItemId) : Prop :=
  ∀ x item lower old upper, t.items.get x = some item → item.deleted = false →
    t.ParentChain x (lower ++ id :: old) → ChainUnder t parent upper →
    lower.length + 1 + upper.length + 1 ≤ depthLimit

/-- Whether an operation moves a node only where the live tasks below it fit. -/
def MovesFit (t : WorkTables) (operation : WorkOperation) : Prop :=
  ∀ id parent position, operation = .hierarchy (.place id parent position) → TasksFit t id parent

/-- Where no node moves and new nodes are roots, nodes stay where they are. -/
theorem NodesWithin.of_same (h : NodesWithin t) (hforest : t.Forest)
    (hparents : ∀ x, t'.parentOf x = t.parentOf x)
    (hlive : ∀ x, t'.NodeAt x → t.NodeAt x ∨ t.parentOf x = none) : NodesWithin t' := by
  intro x chain' hnode hchain'
  rcases hlive x hnode with hnode | hroot
  · obtain ⟨chain, hchain⟩ := hforest.rooted x
    rw [hchain'.unique (hchain.transport fun y _ => hparents y)]
    exact h x chain hnode hchain
  · rw [hchain'.unique (.root ((hparents x).trans hroot))]
    exact Nat.le_add_left 1 31

/-- What is not there has no parent. -/
theorem parentOf_of_not_isNode (h : t.Rooted) (hnone : ¬ t.IsNode id) : t.parentOf id = none := by
  rcases hplacement : t.placements.get id with _ | placement
  · rw [parentOf, hplacement]
    rfl
  · exact absurd (h.node hplacement) hnone

/-- **A move keeps the tasks within the limit exactly if those below the node fit.** -/
theorem nodesWithin_placed_iff (h : NodesWithin t) (hrooted : t.Rooted) (hdepth : depthUnder t id parent = .ok depth)
    (hfits : depth ≤ depthLimit) (hplaced : t.Placed id parent position t')
    (hgroups : GroupsWithin t') : NodesWithin t' ↔ TasksFit t id parent := by
  obtain ⟨old, hold⟩ := hrooted.rooted id
  obtain ⟨upper, hupper, hlength, habove⟩ := chain_placed hdepth hplaced
  have hnodes := workNode_congr (Placed_items hplaced) (Placed_groups hplaced)
  have hunder : ∀ upper', ChainUnder t parent upper' → upper' = upper := by
    intro upper' hupper'
    rcases parent with _ | above
    · have hroot : t'.parentOf id = none := (parentOf_placed hplaced id).trans (if_pos rfl)
      rw [hupper.unique (.root hroot)]
      exact hupper'
    · obtain ⟨rest', rfl, hrest'⟩ := hupper'
      obtain ⟨-, rest, rfl, hrest⟩ := habove above rfl
      rw [hrest'.unique hrest]
  have hself : ChainUnder t parent upper := by
    rcases parent with _ | above
    · have hroot : t'.parentOf id = none := (parentOf_placed hplaced id).trans (if_pos rfl)
      exact hupper.unique (.root hroot)
    · exact (habove above rfl).2
  -- A task below the node comes to lie as far below it as before.
  have hmoved : ∀ x lower old', t.ParentChain x (lower ++ id :: old') →
      ∃ chain', t'.ParentChain x chain' ∧ chain'.length = lower.length + 1 + upper.length := by
    intro x lower old' hchain
    obtain ⟨chain', hchain', hcase⟩ := moved_chain (parentOf_placed hplaced) hold hupper hchain
    refine ⟨chain', hchain', ?_⟩
    have hwithin : t.Within id x := hchain.within_iff.2 (by simp)
    rcases hcase with ⟨-, hlengths⟩ | ⟨hnot, -⟩
    · rw [hold.unique hchain.above, List.length_append, List.length_cons] at hlengths
      omega
    · exact absurd hwithin hnot
  constructor
  · intro hwithin x item lower old' upper' hget hdeleted hchain hupper'
    obtain ⟨chain', hchain', hlengths⟩ := hmoved x lower old' hchain
    have hlive : t'.NodeAt x := ⟨_, (hnodes x).trans (workNode_of_item hget), hdeleted⟩
    have hle := hwithin x chain' hlive hchain'
    rw [hunder upper' hupper']
    omega
  · intro hroom x chain' hlive hchain'
    obtain ⟨node, hnode, hdeleted⟩ := hlive
    cases node with
    | group group => exact hgroups x chain' ⟨group, (workNode_eq_group.1 hnode).2, hdeleted⟩ hchain'
    | task item =>
      rw [hnodes] at hnode
      obtain ⟨chain, hchain⟩ := hrooted.rooted x
      obtain ⟨chain'', hchain'', hcase⟩ := moved_chain (parentOf_placed hplaced) hold hupper hchain
      rw [hchain'.unique hchain'']
      rcases hcase with ⟨hwithin, hlengths⟩ | ⟨-, rfl⟩
      · rcases List.mem_cons.1 (hchain.within_iff.1 hwithin) with rfl | hmem
        · rw [hold.unique hchain] at hlengths
          omega
        · obtain ⟨lower, old', rfl⟩ := List.append_of_mem hmem
          have hle := hroom x item lower old' upper (workNode_eq_task.1 hnode) hdeleted hchain hself
          rw [hold.unique hchain.above, List.length_append, List.length_cons] at hlengths
          omega
      · exact h x _ ⟨_, hnode, hdeleted⟩ hchain

/-- **Every operation keeps the nodes within the limit exactly if it moves them where they fit.** -/
theorem nodesWithin_applyOperation_iff
    (hforest : tx.tables.Forest) (hgroups : GroupsWithin tx.tables) (h : NodesWithin tx.tables)
    (happly : applyOperation revision tx call = .ok tx') :
    NodesWithin tx'.tables ↔ MovesFit tx.tables call.operation := by
  have hgroups' := groupsWithin_applyOperation hforest hgroups happly
  unfold applyOperation at happly
  rcases hcall : call.operation with operation | operation
  · rw [hcall] at happly
    have honly := tasksOnly_applyWorkMutation happly
    refine iff_of_true (h.of_same hforest honly.parentOf_eq fun x hlive => ?_)
      fun _ _ _ heq => by cases heq
    exact (honly.nodeAt hlive).imp_right (parentOf_of_not_isNode hforest.toRooted)
  · rw [hcall] at happly
    rcases applyHierarchyMutation_cases happly with
      ⟨id, subject, parent, position, depth, height, rfl, hitem, hgroup, hdepth, hheight, hfits, hplaced⟩ |
      ⟨id, parent, position, node, depth, height, rfl, hnode, hdeleted, hdepth, hheight, hfits, hplaced⟩ |
      ⟨id, subject, group, rfl, hget, hdeleted, htables⟩ | ⟨id, group, rfl, hget, hdeleted, -, htables⟩ |
      ⟨id, reviewed, plan, ancestors, rfl, hgroup, hplan, -, hremove⟩
    · have hnone : ¬ tx.tables.IsNode id := by
        rintro ⟨node, hnode⟩
        rw [workNode, hitem, hgroup] at hnode
        cases hnode
      have hone := one_le_subtreeHeight hheight
      have hrooted : (tx.tables.putGroup id (newGroup (call.context revision) subject)).Rooted :=
        hforest.newGroup hitem hgroup
      refine iff_of_true ((nodesWithin_placed_iff ?_ hrooted hdepth (by omega) hplaced hgroups').2 ?_)
        fun _ _ _ heq => by cases heq
      · refine h.of_same hforest (fun _ => rfl) fun x hlive => ?_
        by_cases hsame : x = id
        · exact .inr (parentOf_of_not_isNode hforest.toRooted (hsame ▸ hnone))
        · rw [NodeAt, workNode_putGroup_ne hsame] at hlive
          exact .inl hlive
      · -- Nothing is below a group just made.
        intro x item lower old upper hget hdeleted hchain _
        have hchain : tx.tables.ParentChain x (lower ++ id :: old) := hchain.transport fun _ _ => rfl
        have hmem : id ∈ lower ++ id :: old := by simp
        exact absurd (hforest.nodeAt_group (hforest.groupAt_of_mem_chain hchain
          ⟨_, workNode_of_item hget, hdeleted⟩ id hmem)).isNode hnone
    · have hone : 1 ≤ height := by
        cases node with
        | group group => exact one_le_subtreeHeight hheight
        | task item => cases hheight; exact le_rfl
      rw [nodesWithin_placed_iff h hforest.toRooted hdepth (by omega) hplaced hgroups']
      refine ⟨fun hfit _ _ _ heq => ?_, fun hfit => hfit id parent position rfl⟩
      cases heq
      exact hfit
    · rw [htables]
      exact iff_of_true (h.of_same hforest (fun _ => rfl) fun x hlive =>
        .inl (nodeAt_putGroup hforest hget hdeleted hlive)) fun _ _ _ heq => by cases heq
    · rw [htables]
      exact iff_of_true (h.of_same hforest (fun _ => rfl) fun x hlive =>
        .inl (nodeAt_putGroup hforest hget hdeleted hlive)) fun _ _ _ heq => by cases heq
    · obtain ⟨hnodes, henough, -⟩ := removalVisit_ok hplan
      rw [List.nil_append] at hnodes
      have hstart : (affect tx ancestors).tables.Forest := hforest
      have hshrinks := (forest_removal hstart (.refl _) (fun x hx => absurd hx List.not_mem_nil)
        (hnodes ▸ hforest.childrenFirst_postOrder hgroup henough) hremove).2.1
      exact iff_of_true (h.of_same hforest hshrinks.parents fun x hlive => .inl (hshrinks.live x hlive))
        fun _ _ _ heq => by cases heq

/-- **The depth of the hierarchy.**  In every run whose moves leave room for the tasks below the node
they move, every live node of the queue reached is within the limit. -/
theorem queue_depth {batches : List (List WorkCall)} {q : WorkQueueState}
    (hrun : StateMachine.run batchStep createdQueue batches = some q)
    (hfits : Throughout MovesFit createdQueue batches) :
    ∀ id chain, q.tables.NodeAt id → q.tables.ParentChain id chain → chain.length + 1 ≤ depthLimit := by
  have hgroups : GroupsWithin .empty := fun x chain hgroup => by
    obtain ⟨group, hgroup, -⟩ := hgroup
    cases hgroup
  have hnodes : NodesWithin .empty := fun x chain hnode => by
    obtain ⟨node, hnode, -⟩ := hnode
    cases hnode
  exact (throughout_preserves (I := fun t => t.Forest ∧ GroupsWithin t ∧ NodesWithin t)
    (fun ht hP happly => ⟨forest_applyOperation ht.1 happly, groupsWithin_applyOperation ht.1 ht.2.1 happly,
      (nodesWithin_applyOperation_iff ht.1 ht.2.1 ht.2.2 happly).2 hP⟩)
    ⟨forest_empty, hgroups, hnodes⟩ hfits hrun).2.2

/-- Two groups are made, and one is moved under the other. -/
def movingBatch : List WorkCall :=
  [hierarchyCall (.group "outer" "Outer" none .atEnd), hierarchyCall (.group "inner" "Inner" none .atEnd),
    hierarchyCall (.place "inner" (some "outer") .atEnd)]

theorem queue_depth_moved : ∃ q : WorkQueueState, q.tables.parentOf "inner" = some "outer" ∧
    ∀ id chain, q.tables.NodeAt id → q.tables.ParentChain id chain → chain.length + 1 ≤ depthLimit := by
  have hmoved : (StateMachine.run batchStep createdQueue [movingBatch]).any
      (fun q => sitsUnder q "inner" "outer") = true := by decide +kernel
  rcases hrun : StateMachine.run batchStep createdQueue [movingBatch] with _ | q
  · rw [hrun] at hmoved
    cases hmoved
  · rw [hrun] at hmoved
    refine ⟨q, of_decide_eq_true hmoved, queue_depth hrun ⟨⟨?_, fun s₁ h₁ => ⟨?_, fun s₂ h₂ => ⟨?_, ?_⟩⟩⟩, ?_⟩⟩
    · nofun
    · nofun
    · -- No task has been added when the group is moved.
      have hnone : (StateMachine.run (operationStep createdQueue.revision) (opened createdQueue.tables)
          (movingBatch.take 2)).all (fun s => s.tables.items.entries.isEmpty) = true := by decide +kernel
      have hrun₂ : StateMachine.run (operationStep createdQueue.revision) (opened createdQueue.tables)
          (movingBatch.take 2) = some s₂ :=
        StateMachine.run_cons.2 ⟨s₁, h₁, StateMachine.run_cons.2 ⟨s₂, h₂, rfl⟩⟩
      rw [hrun₂, Option.all_some, List.isEmpty_iff] at hnone
      intro id parent position _ x item lower old upper hget
      rw [← OrderedMap.mem_entries, hnone] at hget
      cases hget
    · exact fun _ _ => trivial
    · exact fun _ _ => trivial

/-- A name for a level. -/
def levelName (level : ℕ) : String := String.ofList (List.replicate level 'g')

/-- Groups nested in each other down to a level. -/
def nestedGroups : ℕ → List WorkCall
  | 0 => []
  | level + 1 => nestedGroups level ++
      [hierarchyCall (.group (levelName (level + 1)) "Level"
        (if level = 0 then none else some (levelName level)) .atEnd)]

/-- A group with a task is moved as deep as a group may be. -/
def sinkingBatch : List WorkCall :=
  nestedGroups 31 ++
    [hierarchyCall (.group "last" "Last" none .atEnd), taskCall (.add "a" (plainFields "a")),
      hierarchyCall (.place "a" (some "last") .atEnd),
      hierarchyCall (.place "last" (some (levelName 31)) .atEnd)]

/-- Whether a live task of a queue has so many ancestors. -/
def liveAbove (q : WorkQueueState) (id : WorkItemId) (count : ℕ) : Bool :=
  (q.tables.items.get id).any (fun item => !item.deleted) &&
    match q.tables.ancestorsOf id with
    | .ok ancestors => decide (ancestors.length = count)
    | .error _ => false

/-- A move takes a task one level below the limit. -/
theorem task_sinks : ∃ q : WorkQueueState, Reachable q ∧ q.tables.NodeAt "a" ∧
    ∃ chain, q.tables.ParentChain "a" chain ∧ depthLimit < chain.length + 1 := by
  obtain ⟨q, hq, hp⟩ := reachable_of_any [sinkingBatch] (fun q => liveAbove q "a" 32) (by decide +kernel)
  refine ⟨q, hq, ?_⟩
  rw [liveAbove, Bool.and_eq_true] at hp
  obtain ⟨hlive, hdeep⟩ := hp
  rcases hget : q.tables.items.get "a" with _ | item
  · rw [hget] at hlive
    cases hlive
  · rw [hget, Option.any_some, Bool.not_eq_true'] at hlive
    refine ⟨⟨_, workNode_of_item hget, hlive⟩, ?_⟩
    rcases hancestors : q.tables.ancestorsOf "a" with error | ancestors
    · rw [hancestors] at hdeep
      cases hdeep
    · rw [hancestors] at hdeep
      refine ⟨ancestors, ancestorsOf_ok hancestors, ?_⟩
      rw [of_decide_eq_true hdeep]
      decide

end Falryn.Orchestration.WorkQueues
