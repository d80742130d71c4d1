import Falryn.Orchestration.WorkForest

/-!
# Subtrees

The live children of a node in order, and the live subtree of a group in the order in which it is
removed: children before their group.
-/

namespace Falryn.Orchestration.WorkQueues
namespace WorkTables

variable {t : WorkTables} {id : WorkItemId}

/-! ## Live siblings -/

/-- A sibling with its node, if that is live. -/
def liveNode (t : WorkTables) (child : WorkChild) : Option (WorkChild × WorkNode) :=
  (t.workNode child.id).bind fun node => if node.deleted then none else some (child, node)

/-- The live siblings under a parent, in order. -/
def liveSiblings (t : WorkTables) (parent : Option WorkItemId) : List (WorkChild × WorkNode) :=
  (t.siblings parent).filterMap t.liveNode

variable {node : WorkNode} {child : WorkChild} {parent : Option WorkItemId}

theorem liveNode_eq_some {child' : WorkChild} : t.liveNode child = some (child', node) ↔
      child' = child ∧ t.workNode child.id = some node ∧ node.deleted = false := by
  unfold liveNode
  rw [Option.bind_eq_some_iff]
  constructor
  · rintro ⟨found, hfound, h⟩
    split_ifs at h with hdeleted
    cases h
    exact ⟨rfl, hfound, Bool.eq_false_iff.2 hdeleted⟩
  · rintro ⟨rfl, hnode, hdeleted⟩
    exact ⟨node, hnode, by rw [if_neg (by simp [hdeleted])]⟩

/-- The loop of `liveChildren` answers with the live siblings, or refuses. -/
theorem liveChildren_ok {children : List (WorkChild × WorkNode)}
    (h : t.liveChildren parent = .ok children) : children = t.liveSiblings parent := by
  revert h
  unfold liveChildren liveSiblings
  suffices h : ∀ (siblings : List WorkChild) (found : List (WorkChild × WorkNode)),
      siblings.foldlM t.gatherLive found = .ok children →
        children = found ++ siblings.filterMap t.liveNode from h _ []
  intro siblings
  induction siblings with
  | nil =>
    intro found h
    cases h
    exact (List.append_nil _).symm
  | cons child siblings ih =>
    intro found h
    rw [List.foldlM_cons] at h
    obtain ⟨found', hstep, h⟩ := except_bind_ok.1 h
    rw [ih _ h, List.filterMap_cons, liveNode]
    unfold gatherLive at hstep
    rcases hnode : t.workNode child.id with _ | node
    · rw [hnode] at hstep
      cases hstep
    · rw [hnode] at hstep
      cases hstep
      by_cases hdeleted : node.deleted = true
      · simp [hdeleted]
      · simp [hdeleted]

/-- No sibling of a forest lacks its record. -/
theorem Rooted.liveChildren_eq (h : t.Rooted) (parent : Option WorkItemId) :
    t.liveChildren parent = .ok (t.liveSiblings parent) := by
  suffices hdefined : ∃ children, t.liveChildren parent = .ok children by
    obtain ⟨children, hchildren⟩ := hdefined
    rw [hchildren, ← liveChildren_ok hchildren]
  unfold liveChildren
  suffices h : ∀ (siblings : List WorkChild) (found : List (WorkChild × WorkNode)),
      (∀ child ∈ siblings, t.IsNode child.id) →
        ∃ children, siblings.foldlM t.gatherLive found = .ok children from
    h _ [] fun child hchild => Rooted.isNode_of_sited ‹_› (mem_siblings.1 hchild).1
  intro siblings
  induction siblings with
  | nil => exact fun found _ => ⟨found, rfl⟩
  | cons child siblings ih =>
    intro found hnodes
    obtain ⟨⟨node, hnode⟩, hnodes⟩ := List.forall_mem_cons.1 hnodes
    rw [List.foldlM_cons, gatherLive, hnode]
    exact ih _ hnodes

theorem Forest.mem_liveSiblings (h : t.Forest) : (child, node) ∈ t.liveSiblings parent ↔
      t.workNode child.id = some node ∧ node.deleted = false ∧ t.parentOf child.id = parent ∧
        t.orderOf child.id = child.order := by
  rw [liveSiblings, List.mem_filterMap]
  constructor
  · rintro ⟨child', hmem, hlive⟩
    obtain ⟨rfl, hnode, hdeleted⟩ := liveNode_eq_some.1 hlive
    exact ⟨hnode, hdeleted, (mem_siblings.1 hmem).2⟩
  · rintro ⟨hnode, hdeleted, hparent, horder⟩
    exact ⟨child, mem_siblings.2 ⟨h.sited_of_isNode ⟨node, hnode⟩, hparent, horder⟩,
      liveNode_eq_some.2 ⟨rfl, hnode, hdeleted⟩⟩

/-- A live node is among the live siblings under its parent. -/
theorem Forest.exists_liveSibling (h : t.Forest) (hnode : t.workNode id = some node)
    (hdeleted : node.deleted = false) :
    (⟨id, t.orderOf id⟩, node) ∈ t.liveSiblings (t.parentOf id) :=
  h.mem_liveSiblings.2 ⟨hnode, hdeleted, rfl, rfl⟩

/-- No sibling is listed twice. -/
theorem nodup_siblings (t : WorkTables) (parent : Option WorkItemId) :
    ((t.siblings parent).map WorkChild.id).Nodup := by
  have hperm : ((t.siblings parent).map WorkChild.id).Perm ((t.childRows parent).map WorkChild.id) :=
    (List.perm_insertionSort childLE (t.childRows parent)).map _
  rw [hperm.nodup_iff, childRows, List.map_append]
  have hplaced : ((t.placements.entries.filter fun entry => entry.2.parent = parent).map
      fun entry => (⟨entry.1, entry.2.order⟩ : WorkChild)).map WorkChild.id =
        (t.placements.entries.filter fun entry => entry.2.parent = parent).map Prod.fst := by
    rw [List.map_map]
    rfl
  rw [hplaced]
  have hleft : ((t.placements.entries.filter fun entry => entry.2.parent = parent).map
      Prod.fst).Nodup := t.placements.nodup.sublist (List.filter_sublist.map _)
  split_ifs with hparent
  · have hroots : ((t.items.keys.filter fun id => (t.placements.get id).isNone).map
        fun id => (⟨id, id⟩ : WorkChild)).map WorkChild.id =
          t.items.keys.filter fun id => (t.placements.get id).isNone := by
      rw [List.map_map]
      exact List.map_id' _
    rw [hroots]
    refine hleft.append (t.items.nodup_keys.filter _) fun _ hx hx' => ?_
    obtain ⟨⟨key, placement⟩, hentry, rfl⟩ := List.mem_map.1 hx
    have hget := OrderedMap.mem_entries.1 (List.mem_filter.1 hentry).1
    have hnone := (List.mem_filter.1 hx').2
    rw [hget] at hnone
    cases hnone
  · simpa using hleft

theorem nodup_liveSiblings (t : WorkTables) (parent : Option WorkItemId) :
    ((t.liveSiblings parent).map fun child => child.1.id).Nodup := by
  have hfst : (t.liveSiblings parent).map Prod.fst =
      (t.siblings parent).filter fun child => (t.liveNode child).isSome := by
    unfold liveSiblings
    generalize t.siblings parent = siblings
    induction siblings with
    | nil => rfl
    | cons child siblings ih =>
      rcases hlive : t.liveNode child with _ | ⟨child', node⟩
      · rw [List.filterMap_cons_none hlive, List.filter_cons_of_neg (by simp [hlive]), ih]
      · obtain ⟨rfl, -⟩ := liveNode_eq_some.1 hlive
        rw [List.filterMap_cons_some hlive, List.filter_cons_of_pos (by simp [hlive]), List.map_cons, ih]
  have hids : ((t.liveSiblings parent).map fun child => child.1.id) =
      ((t.liveSiblings parent).map Prod.fst).map WorkChild.id := by
    rw [List.map_map]
    rfl
  rw [hids, hfst]
  exact (t.nodup_siblings parent).sublist (List.filter_sublist.map _)

/-! ## Being below -/

/-- One node is right under another. -/
def Under (t : WorkTables) (x parent : WorkItemId) : Prop := t.parentOf x = some parent

/-- A node is another, or somewhere below it. -/
def Within (t : WorkTables) (root x : WorkItemId) : Prop := Relation.ReflTransGen t.Under x root

variable {x root : WorkItemId} {a b : WorkItemId} {nodes : List PlannedNode}

theorem ParentChain.within_iff {chain : List WorkItemId}
    (h : t.ParentChain x chain) : t.Within root x ↔ root ∈ x :: chain := by
  constructor
  · intro hwithin
    induction hwithin using Relation.ReflTransGen.head_induction_on generalizing chain with
    | refl => exact List.mem_cons_self
    | head hunder _ ih =>
      cases h with
      | root hnone =>
        rw [Under, hnone] at hunder
        cases hunder
      | under hsome habove =>
        rw [Under, hsome] at hunder
        cases hunder
        exact List.mem_cons_of_mem _ (ih habove)
  · intro hmem
    induction h with
    | root =>
      rw [List.mem_singleton] at hmem
      rw [hmem]
      exact .refl
    | under hsome _ ih =>
      rcases List.mem_cons.1 hmem with rfl | hmem
      · exact .refl
      · exact .head hsome (ih hmem)

/-- Two nodes a third is below lie one below the other. -/
theorem within_total (ha : t.Within a x) (hb : t.Within b x) : t.Within b a ∨ t.Within a b := by
  refine Relation.ReflTransGen.total_of_right_unique (fun _ _ _ hp hp' => ?_) ha hb
  rw [Under] at hp hp'
  rw [hp] at hp'
  exact Option.some.inj hp'

theorem Rooted.not_within_of_under (h : t.Rooted) {parent : WorkItemId} (hunder : t.Under x parent) :
    ¬ t.Within x parent := by
  obtain ⟨chain, hchain⟩ := h.rooted parent
  rw [hchain.within_iff]
  exact (ParentChain.under hunder hchain).not_mem

/-- Siblings have no descendant in common. -/
theorem Rooted.not_within_siblings (h : t.Rooted) (hsame : t.parentOf a = t.parentOf b)
    (hne : a ≠ b) (ha : t.Within a x) : ¬ t.Within b x := by
  intro hb
  -- One of the siblings would be below the other, so below their common parent's child: a cycle.
  have hno : ∀ {a b : WorkItemId}, t.parentOf a = t.parentOf b → a ≠ b → ¬ t.Within a b := by
    intro a b hsame hne hwithin
    rcases Relation.ReflTransGen.cases_head hwithin with rfl | ⟨parent, hunder, hwithin⟩
    · exact hne rfl
    · exact h.not_within_of_under (hsame.trans hunder) hwithin
  rcases within_total ha hb with hwithin | hwithin
  · exact hno hsame.symm hne.symm hwithin
  · exact hno hsame hne hwithin

/-- What a live node is below is a live group. -/
theorem Rooted.groupAt_of_within (h : t.Rooted) (hlive : t.NodeAt x)
    (hwithin : t.Within root x) (hne : x ≠ root) : t.GroupAt root := by
  obtain ⟨chain, hchain⟩ := h.rooted x
  rcases List.mem_cons.1 (hchain.within_iff.1 hwithin) with heq | hmem
  · exact absurd heq.symm hne
  · exact h.groupAt_of_mem_chain hchain hlive root hmem

/-- A live node below a live node is that node, or below one of its live children. -/
theorem Forest.within_cases (h : t.Forest) (hlive : t.NodeAt x) (hwithin : t.Within root x) :
    x = root ∨ ∃ child node, (child, node) ∈ t.liveSiblings (some root) ∧ t.Within child.id x := by
  rcases Relation.ReflTransGen.cases_tail hwithin with rfl | ⟨c, hwithin, hunder⟩
  · exact .inl rfl
  · right
    have hnode : t.NodeAt c := by
      by_cases hsame : x = c
      · exact hsame ▸ hlive
      · exact h.nodeAt_group (h.groupAt_of_within hlive hwithin hsame)
    obtain ⟨node, hnode, hdeleted⟩ := hnode
    refine ⟨⟨c, t.orderOf c⟩, node, ?_, hwithin⟩
    rw [← show t.parentOf c = some root from hunder]
    exact h.exists_liveSibling hnode hdeleted

/-! ## The order of removal -/

/-- Enough levels for the live groups below a node. -/
def Enough (t : WorkTables) : ℕ → WorkItemId → Prop
  | 0, _ => False
  | fuel + 1, id => ∀ child ∈ t.liveSiblings (some id),
      match child.2 with
      | .group _ => Enough t fuel child.1.id
      | .task _ => True

/-- The live subtree of a group, children before their group. -/
def postOrder (t : WorkTables) : ℕ → WorkItemId → List PlannedNode
  | 0, _ => []
  | fuel + 1, id =>
    (t.liveSiblings (some id)).flatMap (fun child =>
      match child.2 with
      | .group _ => postOrder t fuel child.1.id
      | .task _ => [{ id := child.1.id, isGroup := false }]) ++ [{ id, isGroup := true }]

example (t : WorkTables) (id : WorkItemId) (h : t.liveSiblings (some id) = []) :
    t.Enough 1 id ∧ t.postOrder 1 id = [{ id, isGroup := true }] := by simp [Enough, postOrder, h]

/-- **What a whole removal plan lists.** -/
theorem removalVisit_ok {limit : ℕ} : ∀ {fuel : ℕ} {id : WorkItemId} {nodes nodes' : List PlannedNode},
    removalVisit t limit fuel id nodes = .ok (nodes', true) →
      nodes' = nodes ++ t.postOrder fuel id ∧ t.Enough fuel id ∧ nodes'.length ≤ limit := by
  intro fuel
  induction fuel with
  | zero =>
    intro id nodes nodes' h
    cases h
  | succ fuel ih =>
    intro id nodes nodes' h
    rw [removalVisit] at h
    obtain ⟨children, hchildren, h⟩ := except_bind_ok.1 h
    obtain ⟨⟨found, whole⟩, hfold, h⟩ := except_bind_ok.1 h
    rw [postOrder, Enough, ← liveChildren_ok hchildren]
    suffices hloop : ∀ (children : List (WorkChild × WorkNode)) (start : List PlannedNode × Bool),
        children.foldlM (removalStep (removalVisit t limit fuel) limit) start = .ok (found, true) →
        start.2 = true ∧ found = start.1 ++ children.flatMap (fun child =>
          match child.2 with
          | .group _ => postOrder t fuel child.1.id
          | .task _ => [{ id := child.1.id, isGroup := false }]) ∧
        ∀ child ∈ children, match child.2 with
          | .group _ => t.Enough fuel child.1.id
          | .task _ => True by
      dsimp only at h
      split_ifs at h with hstop
      · cases h
      · cases h
        rw [not_or, Bool.not_eq_false] at hstop
        obtain ⟨rfl, hroom⟩ := hstop
        obtain ⟨-, hfound, henough⟩ := hloop children _ hfold
        refine ⟨?_, henough, ?_⟩
        · rw [hfound, List.append_assoc]
        · rw [List.length_append, List.length_singleton]
          omega
    intro children
    induction children with
    | nil =>
      intro start h
      cases h
      exact ⟨rfl, (List.append_nil _).symm, fun _ hmem => absurd hmem List.not_mem_nil⟩
    | cons child children ihc =>
      intro start h
      rw [List.foldlM_cons] at h
      obtain ⟨next, hstep, hrest⟩ := except_bind_ok.1 h
      obtain ⟨hwhole, hfound, henough⟩ := ihc next hrest
      obtain ⟨start, flag⟩ := start
      obtain ⟨next, flag'⟩ := next
      dsimp only at hwhole hfound
      subst hwhole
      unfold removalStep at hstep
      dsimp only at hstep
      cases flag with
      | false =>
        rw [if_pos rfl] at hstep
        cases hstep
      | true =>
        rw [if_neg (by simp)] at hstep
        obtain ⟨child, node⟩ := child
        cases node with
        | group group =>
          obtain ⟨hnext, hchild, -⟩ := ih hstep
          refine ⟨rfl, ?_, List.forall_mem_cons.2 ⟨hchild, henough⟩⟩
          rw [hfound, hnext, List.flatMap_cons, List.append_assoc]
        | task item =>
          dsimp only at hstep
          split_ifs at hstep
          · cases hstep
          · cases hstep
            refine ⟨rfl, ?_, List.forall_mem_cons.2 ⟨trivial, henough⟩⟩
            rw [hfound, List.flatMap_cons, List.append_assoc]

section
variable (h : t.Forest)
include h

/-- A live task has nothing live below it. -/
theorem Forest.eq_of_within_task {item : WorkItem}
    (htask : t.items.get root = some item) (hlive : t.NodeAt x) (hwithin : t.Within root x) :
    x = root := by
  by_contra hne
  obtain ⟨group, hgroup, -⟩ := h.groupAt_of_within hlive hwithin hne
  rw [h.disjoint htask] at hgroup
  cases hgroup

/-- **The nodes of a removal plan.**  They are the live nodes of the subtree, each of its kind. -/
theorem Forest.mem_postOrder : ∀ {fuel : ℕ} {id : WorkItemId} {node : PlannedNode},
    t.GroupAt id → t.Enough fuel id →
      (node ∈ t.postOrder fuel id ↔ t.NodeAt node.id ∧ t.Within id node.id ∧
        (node.isGroup = true ↔ t.GroupAt node.id)) := by
  intro fuel
  induction fuel with
  | zero => exact fun _ henough => henough.elim
  | succ fuel ih =>
    intro id node hgroup henough
    rw [postOrder, List.mem_append, List.mem_flatMap, List.mem_singleton]
    constructor
    · rintro (⟨⟨child, childNode⟩, hmem, hnode⟩ | rfl)
      · obtain ⟨hget, hdeleted, hparent, -⟩ := h.mem_liveSiblings.1 hmem
        have hunder : t.Under child.id id := hparent
        cases childNode with
        | group group =>
          have hchild : t.GroupAt child.id := ⟨group, (workNode_eq_group.1 hget).2, hdeleted⟩
          obtain ⟨hlive, hwithin, hkind⟩ := (ih hchild (henough _ hmem)).1 hnode
          exact ⟨hlive, hwithin.tail hunder, hkind⟩
        | task item =>
          have hnode := List.mem_singleton.1 hnode
          subst hnode
          refine ⟨⟨_, hget, hdeleted⟩, .single hunder, nofun, ?_⟩
          rintro ⟨group, hgroup, -⟩
          rw [h.disjoint (workNode_eq_task.1 hget)] at hgroup
          cases hgroup
      · exact ⟨h.nodeAt_group hgroup, .refl, fun _ => hgroup, fun _ => rfl⟩
    · rintro ⟨hlive, hwithin, hkind⟩
      rcases h.within_cases hlive hwithin with heq | ⟨child, childNode, hmem, hwithin⟩
      · right
        obtain ⟨x, isGroup⟩ := node
        have heq : x = id := heq
        subst heq
        exact congrArg (PlannedNode.mk x) (hkind.2 hgroup)
      · left
        refine ⟨⟨child, childNode⟩, hmem, ?_⟩
        obtain ⟨hget, hdeleted, -⟩ := h.mem_liveSiblings.1 hmem
        cases childNode with
        | group group =>
          have hchild : t.GroupAt child.id := ⟨group, (workNode_eq_group.1 hget).2, hdeleted⟩
          exact (ih hchild (henough _ hmem)).2 ⟨hlive, hwithin, hkind⟩
        | task item =>
          have hitem := workNode_eq_task.1 hget
          have heq := h.eq_of_within_task hitem hlive hwithin
          obtain ⟨x, isGroup⟩ := node
          have heq : x = child.id := heq
          subst heq
          refine List.mem_singleton.2 (congrArg (PlannedNode.mk child.id) (Bool.eq_false_iff.2 ?_))
          intro hgroup
          obtain ⟨group, hgroup, -⟩ := hkind.1 hgroup
          rw [h.disjoint hitem] at hgroup
          cases hgroup

/-- No node is planned twice. -/
theorem Forest.nodup_postOrder : ∀ {fuel : ℕ} {id : WorkItemId}, t.GroupAt id → t.Enough fuel id →
    ((t.postOrder fuel id).map PlannedNode.id).Nodup := by
  intro fuel
  induction fuel with
  | zero => exact fun _ henough => henough.elim
  | succ fuel ih =>
    intro id _ henough
    have hwithin : ∀ {child : WorkChild × WorkNode} {x}, child ∈ t.liveSiblings (some id) →
        x ∈ (match child.2 with
          | .group _ => postOrder t fuel child.1.id
          | .task _ => [{ id := child.1.id, isGroup := false }]).map PlannedNode.id →
        t.parentOf child.1.id = some id ∧ t.Within child.1.id x := by
      rintro ⟨child, childNode⟩ x hmem hx
      obtain ⟨hget, hdeleted, hparent, -⟩ := h.mem_liveSiblings.1 hmem
      refine ⟨hparent, ?_⟩
      obtain ⟨node, hnode, rfl⟩ := List.mem_map.1 hx
      cases childNode with
      | group group =>
        have hchild : t.GroupAt child.id := ⟨group, (workNode_eq_group.1 hget).2, hdeleted⟩
        exact ((h.mem_postOrder hchild (henough _ hmem)).1 hnode).2.1
      | task item =>
        rw [List.mem_singleton.1 hnode]
        exact .refl
    rw [postOrder, List.map_append, List.map_flatMap, List.map_singleton]
    refine List.Nodup.append ?_ (List.nodup_singleton _) ?_
    · rw [List.nodup_flatMap]
      constructor
      · rintro ⟨child, childNode⟩ hmem
        obtain ⟨hget, hdeleted, -, -⟩ := h.mem_liveSiblings.1 hmem
        cases childNode with
        | group group =>
          exact ih ⟨group, (workNode_eq_group.1 hget).2, hdeleted⟩ (henough _ hmem)
        | task item => exact List.nodup_singleton _
      · refine (List.pairwise_map.1 (t.nodup_liveSiblings (some id))).imp_of_mem ?_
        intro a b ha hb hne x hxa hxb
        obtain ⟨hparent, hwithin_a⟩ := hwithin ha hxa
        obtain ⟨hparent', hwithin_b⟩ := hwithin hb hxb
        exact h.not_within_siblings (hparent.trans hparent'.symm) hne hwithin_a hwithin_b
    · intro x hx hroot
      rw [List.mem_singleton] at hroot
      subst hroot
      obtain ⟨child, hmem, hx⟩ := List.mem_flatMap.1 hx
      obtain ⟨hparent, hwithin⟩ := hwithin hmem hx
      exact h.not_within_of_under hparent hwithin

end

/-- Every group of a list comes after its live children. -/
def ChildrenFirst (t : WorkTables) : List WorkItemId → List PlannedNode → Prop
  | _, [] => True
  | seen, node :: nodes =>
    (node.isGroup = true → ∀ x, t.NodeAt x → t.parentOf x = some node.id → x ∈ seen) ∧
      ChildrenFirst t (node.id :: seen) nodes

theorem ChildrenFirst.mono : ∀ {seen seen' : List WorkItemId},
    (∀ x ∈ seen, x ∈ seen') → t.ChildrenFirst seen nodes → t.ChildrenFirst seen' nodes := by
  induction nodes with
  | nil => exact fun _ _ => trivial
  | cons _ nodes ih =>
    intro seen seen' hsub h
    refine ⟨fun hgroup x hlive hparent => hsub x (h.1 hgroup x hlive hparent), ih (fun x hx => ?_) h.2⟩
    rcases List.mem_cons.1 hx with rfl | hx
    · exact List.mem_cons_self
    · exact List.mem_cons_of_mem _ (hsub x hx)

theorem ChildrenFirst.append {nodes' : List PlannedNode} : ∀ {seen : List WorkItemId},
    t.ChildrenFirst seen nodes → t.ChildrenFirst (nodes.map PlannedNode.id ++ seen) nodes' →
      t.ChildrenFirst seen (nodes ++ nodes') := by
  induction nodes with
  | nil => exact fun _ h => h
  | cons _ nodes ih =>
    intro seen h h'
    refine ⟨h.1, ih h.2 (h'.mono fun _ hx => ?_)⟩
    rw [List.map_cons, List.cons_append, List.mem_cons, List.mem_append] at hx
    rw [List.mem_append, List.mem_cons]
    tauto

theorem ChildrenFirst.flatMap {α : Type} {f : α → List PlannedNode} : ∀ {l : List α}
    {seen : List WorkItemId}, (∀ a ∈ l, t.ChildrenFirst [] (f a)) → t.ChildrenFirst seen (l.flatMap f) := by
  intro l
  induction l with
  | nil => exact fun _ => trivial
  | cons a l ih =>
    intro seen h
    obtain ⟨ha, hl⟩ := List.forall_mem_cons.1 h
    rw [List.flatMap_cons]
    exact (ha.mono fun x hx => absurd hx List.not_mem_nil).append (ih hl)

/-- A removal plan takes children before their group. -/
theorem Forest.childrenFirst_postOrder (h : t.Forest) : ∀ {fuel : ℕ} {id : WorkItemId}, t.GroupAt id →
    t.Enough fuel id → t.ChildrenFirst [] (t.postOrder fuel id) := by
  intro fuel
  induction fuel with
  | zero => exact fun _ henough => henough.elim
  | succ fuel ih =>
    intro id _ henough
    rw [postOrder]
    refine ChildrenFirst.append (ChildrenFirst.flatMap fun child hmem => ?_) ⟨fun _ x hlive hparent => ?_, trivial⟩
    · obtain ⟨child, childNode⟩ := child
      obtain ⟨hget, hdeleted, -, -⟩ := h.mem_liveSiblings.1 hmem
      cases childNode with
      | group group =>
        exact ih ⟨group, (workNode_eq_group.1 hget).2, hdeleted⟩ (henough _ hmem)
      | task item => exact ⟨nofun, trivial⟩
    · obtain ⟨node, hnode, hdeleted⟩ := hlive
      have hsibling := h.exists_liveSibling hnode hdeleted
      rw [hparent] at hsibling
      rw [List.append_nil, List.mem_map]
      cases node with
      | group group =>
        have hchild : t.GroupAt x := ⟨group, (workNode_eq_group.1 hnode).2, hdeleted⟩
        refine ⟨⟨x, true⟩, List.mem_flatMap.2 ⟨_, hsibling, ?_⟩, rfl⟩
        exact (h.mem_postOrder hchild (henough _ hsibling)).2
          ⟨⟨_, hnode, hdeleted⟩, .refl, fun _ => hchild, fun _ => rfl⟩
      | task item =>
        exact ⟨⟨x, false⟩, List.mem_flatMap.2 ⟨_, hsibling, List.mem_singleton.2 rfl⟩, rfl⟩

end WorkTables

end Falryn.Orchestration.WorkQueues
