import Falryn.Orchestration.WorkDepth

/-!
# Expanding a selection

`expandWorkSelection` resolves selected groups and tasks to the tasks to be admitted.  It walks down
from each group with a bound on the depth of its own, which is one level tighter than the bound under
which groups are placed: a group at the deepest level a writer may use is refused as corruption.
-/

namespace Falryn.Orchestration.WorkQueues

open WorkTables

/-! ## The expansion -/

inductive SelectionStatus where
  | admissible | accepted | archived | cancelled | blocked | unavailable

def classify (item : WorkItem) : SelectionStatus :=
  if item.deleted then .unavailable
  else if item.completedWork then .accepted
  else if item.disposition = .cancelled then .cancelled
  else if item.disposition = .archived then .archived
  else if item.blockers ≠ [] ∨ item.unresolvedDependencies = true ∨ item.claim.isSome = true then .blocked
  else .admissible

/-- The tasks found so far, in the order they were found. -/
abbrev Manifest := OrderedMap WorkItemId SelectionStatus

/-- A task is listed once. -/
def listTask (tasks : Manifest) (id : WorkItemId) (item : WorkItem) : Manifest :=
  if (tasks.get id).isSome then tasks else tasks.set id (classify item)

/-- One child in the loop of `collect`, given what collecting from a group comes to. -/
def collectStep (visit : WorkItemId → Manifest → Except WorkQueueError Manifest) (tasks : Manifest)
    (child : WorkChild × WorkNode) : Except WorkQueueError Manifest :=
  match child.2 with
  | .group _ => visit child.1.id tasks
  | .task item => .ok (listTask tasks child.1.id item)

/-- `collect`, by the levels the bound on the depth leaves. -/
def collect (t : WorkTables) : ℕ → WorkItemId → Manifest → Except WorkQueueError Manifest
  | 0, _, _ => .error (refusal .corrupt)
  | levels + 1, group, tasks => do
    let children ← t.liveChildren (some group)
    children.foldlM (collectStep (collect t levels)) tasks

/-- One selected group: `collect` starts two below the number of its ancestors. -/
def selectGroup (t : WorkTables) (tasks : Manifest) (group : WorkItemId) :
    Except WorkQueueError Manifest := do
  let _ ← t.liveGroup group
  let ancestors ← t.ancestorsOf group
  collect t (depthLimit + 1 - (ancestors.length + 2)) group tasks

/-- One selected task. -/
def selectTask (t : WorkTables) (tasks : Manifest) (id : WorkItemId) : Except WorkQueueError Manifest :=
  if (tasks.get id).isSome then .ok tasks
  else
    match t.items.get id with
    | none => .error (refusal (if (t.groups.get id).isNone then .unavailable else .invalidHierarchy))
    | some item => .ok (tasks.set id (classify item))

/-- What a selection comes to. -/
structure SelectionManifest where
  revision : ℕ
  groups : List WorkItemId
  tasks : List (WorkItemId × SelectionStatus)

/-- `expandWorkSelection`, within its budget. -/
def expandWorkSelection (q : WorkQueueState) (groups tasks : List WorkItemId) :
    Except WorkQueueError SelectionManifest := do
  let found ← groups.foldlM (selectGroup q.tables) .empty
  let found ← tasks.foldlM (selectTask q.tables) found
  return { revision := q.revision, groups := groups.reverse.dedup.reverse, tasks := found.entries }

/-! ## What is listed -/

variable {t : WorkTables} {tasks : Manifest} {chosen : WorkItemId → Prop}

/-- A manifest lists the tasks of a set, each as it is. -/
def Lists (t : WorkTables) (tasks : Manifest) (chosen : WorkItemId → Prop) : Prop :=
  ∀ x status, tasks.get x = some status ↔
    chosen x ∧ ∃ item, t.items.get x = some item ∧ status = classify item

theorem Lists.congr {chosen' : WorkItemId → Prop} (h : Lists t tasks chosen)
    (heq : ∀ x item, t.items.get x = some item → (chosen x ↔ chosen' x)) : Lists t tasks chosen' := by
  intro x status
  rw [h x status]
  constructor
  · rintro ⟨hx, item, hitem, hstatus⟩
    exact ⟨(heq x item hitem).1 hx, item, hitem, hstatus⟩
  · rintro ⟨hx, item, hitem, hstatus⟩
    exact ⟨(heq x item hitem).2 hx, item, hitem, hstatus⟩

theorem lists_empty : Lists t .empty fun _ => False := by
  intro x status
  exact ⟨nofun, fun h => h.1.elim⟩

theorem Lists.listTask (h : Lists t tasks chosen)
    {id : WorkItemId} {item : WorkItem} (hget : t.items.get id = some item) :
    Lists t (listTask tasks id item) fun x => chosen x ∨ x = id := by
  unfold WorkQueues.listTask
  split_ifs with hthere
  · obtain ⟨status, hstatus⟩ := Option.isSome_iff_exists.1 hthere
    refine h.congr fun x _ _ => ⟨.inl, fun hx => hx.elim (fun hx => hx) ?_⟩
    rintro rfl
    exact ((h x status).1 hstatus).1
  · intro x status
    rw [OrderedMap.get_set]
    split_ifs with hsame
    · subst hsame
      constructor
      · intro heq
        cases heq
        exact ⟨.inr rfl, item, hget, rfl⟩
      · rintro ⟨-, found, hfound, rfl⟩
        rw [hget] at hfound
        cases hfound
        rfl
    · rw [h x status]
      exact and_congr_left fun _ => (or_iff_left hsame).symm

/-- What is below a group and live. -/
def LiveBelow (t : WorkTables) (group x : WorkItemId) : Prop :=
  t.Within group x ∧ ∃ item, t.items.get x = some item ∧ item.deleted = false

/-- What a visit to a group is to come to: with enough levels it lists what is below the group, without
it is refused. -/
def VisitSpec (t : WorkTables) (levels : ℕ)
    (visit : WorkItemId → Manifest → Except WorkQueueError Manifest) : Prop :=
  ∀ group tasks chosen, t.GroupAt group → Lists t tasks chosen →
    (t.Enough levels group → ∃ tasks', visit group tasks = .ok tasks' ∧
      Lists t tasks' fun x => chosen x ∨ LiveBelow t group x) ∧
    (¬ t.Enough levels group → ∃ error, visit group tasks = .error error)

/-- Enough levels for every group among some children. -/
def EnoughFor (t : WorkTables) (levels : ℕ) (children : List (WorkChild × WorkNode)) : Prop :=
  ∀ child ∈ children,
    match child.2 with
    | .group _ => t.Enough levels child.1.id
    | .task _ => True

section
variable (h : t.Forest)
include h

/-- The loop over the children of a group. -/
theorem WorkTables.Forest.foldlM_collectStep {levels : ℕ} {parent : Option WorkItemId}
    {visit : WorkItemId → Manifest → Except WorkQueueError Manifest} (hvisit : VisitSpec t levels visit) :
    ∀ {children : List (WorkChild × WorkNode)} {tasks : Manifest} {chosen : WorkItemId → Prop},
      (∀ child ∈ children, child ∈ t.liveSiblings parent) → Lists t tasks chosen →
      (EnoughFor t levels children → ∃ tasks', children.foldlM (collectStep visit) tasks = .ok tasks' ∧
        Lists t tasks' fun x => chosen x ∨ ∃ child ∈ children, LiveBelow t child.1.id x) ∧
      (¬ EnoughFor t levels children → ∃ error, children.foldlM (collectStep visit) tasks = .error error) := by
  intro children
  induction children with
  | nil =>
    intro tasks chosen _ hlists
    refine ⟨fun _ => ⟨tasks, rfl, hlists.congr fun x _ _ => ?_⟩, fun hnot => absurd ?_ hnot⟩
    · simp
    · exact fun _ hmem => absurd hmem List.not_mem_nil
  | cons first children ih =>
    intro tasks chosen hall hlists
    obtain ⟨hfirst, hmem⟩ := List.forall_mem_cons.1 hall
    obtain ⟨child, node⟩ := first
    obtain ⟨hget, hdeleted, -⟩ := h.mem_liveSiblings.1 hfirst
    have hsplit : ∀ x, (chosen x ∨ LiveBelow t child.id x) ∨
          (∃ child ∈ children, LiveBelow t child.1.id x) ↔
        chosen x ∨ ∃ other ∈ (child, node) :: children, LiveBelow t other.1.id x := by
      intro x
      rw [List.exists_mem_cons_iff, or_assoc]
    rw [List.foldlM_cons]
    cases node with
    | task item =>
      have hitem := workNode_eq_task.1 hget
      have hlisted : Lists t (listTask tasks child.id item) fun x => chosen x ∨ LiveBelow t child.id x := by
        refine (hlists.listTask hitem).congr fun x found hfound => or_congr_right ?_
        constructor
        · rintro rfl
          exact ⟨.refl, item, hitem, hdeleted⟩
        · rintro ⟨hwithin, live, hlive, hlivedeleted⟩
          exact h.eq_of_within_task hitem ⟨_, workNode_of_item hlive, hlivedeleted⟩ hwithin
      obtain ⟨hok, herror⟩ := ih hmem hlisted
      constructor
      · intro henough
        obtain ⟨tasks', heq, hlists'⟩ := hok (List.forall_mem_cons.1 henough).2
        exact ⟨tasks', heq, hlists'.congr fun x _ _ => hsplit x⟩
      · intro hnot
        exact herror fun hall => hnot (List.forall_mem_cons.2 ⟨trivial, hall⟩)
    | group heading =>
      have hchild : t.GroupAt child.id := ⟨heading, (workNode_eq_group.1 hget).2, hdeleted⟩
      obtain ⟨hvisited, hrefused⟩ := hvisit child.id tasks chosen hchild hlists
      have hstep : collectStep visit tasks (child, .group heading) = visit child.id tasks := rfl
      rw [hstep]
      by_cases henough : t.Enough levels child.id
      · obtain ⟨tasks₁, heq₁, hlists₁⟩ := hvisited henough
        obtain ⟨hok, herror⟩ := ih hmem hlists₁
        rw [heq₁]
        constructor
        · intro hall
          obtain ⟨tasks', heq, hlists'⟩ := hok (List.forall_mem_cons.1 hall).2
          exact ⟨tasks', heq, hlists'.congr fun x _ _ => hsplit x⟩
        · intro hnot
          exact herror fun hall => hnot (List.forall_mem_cons.2 ⟨henough, hall⟩)
      · obtain ⟨error, heq⟩ := hrefused henough
        rw [heq]
        exact ⟨fun hall => absurd (List.forall_mem_cons.1 hall).1 henough, fun _ => ⟨error, rfl⟩⟩

/-- **What collecting from a group lists**, and when it is refused. -/
theorem WorkTables.Forest.collect_spec : ∀ levels, VisitSpec t levels (collect t levels) := by
  intro levels
  induction levels with
  | zero => exact fun _ _ _ _ _ => ⟨fun henough => henough.elim, fun _ => ⟨_, rfl⟩⟩
  | succ levels ih =>
    intro group tasks chosen hgroup hlists
    obtain ⟨hok, herror⟩ := h.foldlM_collectStep ih
      (fun _ (hmem : _ ∈ t.liveSiblings (some group)) => hmem) hlists
    unfold collect
    rw [h.liveChildren_eq]
    refine ⟨fun henough => ?_, fun hnot => herror hnot⟩
    obtain ⟨tasks', heq, hlists'⟩ := hok henough
    refine ⟨tasks', heq, hlists'.congr fun x item hitem => or_congr_right ?_⟩
    constructor
    · rintro ⟨⟨child, node⟩, hmem, hwithin, hlive⟩
      exact ⟨hwithin.tail (h.mem_liveSiblings.1 hmem).2.2.1, hlive⟩
    · rintro ⟨hwithin, live, hlive, hdeleted⟩
      rcases h.within_cases ⟨_, workNode_of_item hlive, hdeleted⟩ hwithin with
        rfl | ⟨child, node, hmem, hwithin⟩
      · obtain ⟨found, hfound, -⟩ := hgroup
        rw [h.disjoint hlive] at hfound
        cases hfound
      · exact ⟨⟨child, node⟩, hmem, hwithin, live, hlive, hdeleted⟩

end

/-! ## When it is refused -/

/-- There are enough levels below a group when they reach every live group below it. -/
theorem enough_iff (h : t.Forest) : ∀ {levels : ℕ} {group : WorkItemId} {above : List WorkItemId},
    t.GroupAt group → t.ParentChain group above →
      (t.Enough levels group ↔ ∀ x chain, t.GroupAt x → t.Within group x → t.ParentChain x chain →
        chain.length + 1 ≤ above.length + levels) := by
  intro levels
  induction levels with
  | zero =>
    intro group above hgroup habove
    refine iff_of_false (fun henough => henough) fun hall => ?_
    have hself := hall group above hgroup .refl habove
    omega
  | succ levels ih =>
    intro group above hgroup habove
    constructor
    · intro henough x chain hx hwithin hchain
      rcases h.within_cases (h.nodeAt_group hx) hwithin with rfl | ⟨child, node, hmem, hwithin⟩
      · rw [hchain.unique habove]
        omega
      · obtain ⟨hget, hdeleted, hparent, -⟩ := h.mem_liveSiblings.1 hmem
        cases node with
        | task item =>
          have hitem := workNode_eq_task.1 hget
          have hsame := h.eq_of_within_task hitem (h.nodeAt_group hx) hwithin
          obtain ⟨found, hfound, -⟩ := hx
          rw [hsame, h.disjoint hitem] at hfound
          cases hfound
        | group heading =>
          have hchild : t.GroupAt child.id := ⟨heading, (workNode_eq_group.1 hget).2, hdeleted⟩
          have hle := (ih hchild (.under hparent habove)).1 (henough _ hmem) x chain hx hwithin hchain
          rw [List.length_cons] at hle
          omega
    · rintro hall ⟨child, node⟩ hmem
      obtain ⟨hget, hdeleted, hparent, -⟩ := h.mem_liveSiblings.1 hmem
      cases node with
      | task item => trivial
      | group heading =>
        have hchild : t.GroupAt child.id := ⟨heading, (workNode_eq_group.1 hget).2, hdeleted⟩
        refine (ih hchild (.under hparent habove)).2 fun x chain hx hwithin hchain => ?_
        have hle := hall x chain hx (hwithin.tail hparent) hchain
        rw [List.length_cons]
        omega

/-- Every live group in a subtree is above the deepest level a group may be at. -/
def AboveDeepest (t : WorkTables) (group : WorkItemId) : Prop :=
  ∀ x chain, t.GroupAt x → t.Within group x → t.ParentChain x chain → chain.length + 1 < depthLimit

section
variable (h : t.Forest) (hgroups : GroupsWithin t)
include h hgroups

/-- What one selected group adds, and when it is refused. -/
theorem selectGroup_spec {group : WorkItemId} {tasks : Manifest} {chosen : WorkItemId → Prop}
    (hgroup : t.GroupAt group) (hlists : Lists t tasks chosen) :
    (AboveDeepest t group → ∃ tasks', selectGroup t tasks group = .ok tasks' ∧
      Lists t tasks' fun x => chosen x ∨ LiveBelow t group x) ∧
    (¬ AboveDeepest t group → ∃ error, selectGroup t tasks group = .error error) := by
  obtain ⟨above, habove⟩ := h.rooted group
  have hlength := hgroups group above hgroup habove
  have hancestors : t.ancestorsOf group = .ok above := by
    rw [h.ancestorsOf_eq (h.nodeAt_group hgroup) habove, if_pos (by omega)]
  obtain ⟨heading, hget, hdeleted⟩ := hgroup
  have hlive : t.liveGroup group = .ok heading := liveGroup_ok.2 ⟨hget, hdeleted⟩
  have hselect : selectGroup t tasks group =
      collect t (depthLimit + 1 - (above.length + 2)) group tasks := by
    unfold selectGroup
    rw [hlive, hancestors]
    rfl
  have henough : t.Enough (depthLimit + 1 - (above.length + 2)) group ↔ AboveDeepest t group := by
    rw [enough_iff h ⟨heading, hget, hdeleted⟩ habove]
    refine forall_congr' fun x => forall_congr' fun _ => ?_
    refine imp_congr_right fun _ => imp_congr_right fun _ => imp_congr_right fun _ => ?_
    omega
  rw [hselect, ← henough]
  exact h.collect_spec _ group tasks chosen ⟨heading, hget, hdeleted⟩ hlists

/-- What the selected groups list, and when they are refused. -/
theorem foldlM_selectGroup : ∀ {groups : List WorkItemId} {tasks : Manifest} {chosen : WorkItemId → Prop},
    (∀ group ∈ groups, t.GroupAt group) → Lists t tasks chosen →
      ((∀ group ∈ groups, AboveDeepest t group) → ∃ tasks',
        groups.foldlM (selectGroup t) tasks = .ok tasks' ∧
        Lists t tasks' fun x => chosen x ∨ ∃ group ∈ groups, LiveBelow t group x) ∧
      ((¬ ∀ group ∈ groups, AboveDeepest t group) → ∃ error,
        groups.foldlM (selectGroup t) tasks = .error error) := by
  intro groups
  induction groups with
  | nil =>
    intro tasks chosen _ hlists
    refine ⟨fun _ => ⟨tasks, rfl, hlists.congr fun x _ _ => by simp⟩, fun hnot => absurd ?_ hnot⟩
    nofun
  | cons group groups ih =>
    intro tasks chosen hall hlists
    obtain ⟨hgroup, hall⟩ := List.forall_mem_cons.1 hall
    obtain ⟨hok, herror⟩ := selectGroup_spec h hgroups hgroup hlists
    rw [List.foldlM_cons]
    by_cases hdeep : AboveDeepest t group
    · obtain ⟨tasks₁, heq₁, hlists₁⟩ := hok hdeep
      obtain ⟨hok, herror⟩ := ih hall hlists₁
      rw [heq₁]
      constructor
      · intro hdeeps
        obtain ⟨tasks', heq, hlists'⟩ := hok (List.forall_mem_cons.1 hdeeps).2
        refine ⟨tasks', heq, hlists'.congr fun x _ _ => ?_⟩
        rw [List.exists_mem_cons_iff, or_assoc]
      · exact fun hnot => herror fun hdeeps => hnot (List.forall_mem_cons.2 ⟨hdeep, hdeeps⟩)
    · obtain ⟨error, heq⟩ := herror hdeep
      rw [heq]
      exact ⟨fun hdeeps => absurd (List.forall_mem_cons.1 hdeeps).1 hdeep, fun _ => ⟨error, rfl⟩⟩

end

/-- What the selected tasks add. -/
theorem foldlM_selectTask : ∀ {ids : List WorkItemId} {tasks : Manifest} {chosen : WorkItemId → Prop},
    (∀ id ∈ ids, ∃ item, t.items.get id = some item) → Lists t tasks chosen →
      ∃ tasks', ids.foldlM (selectTask t) tasks = .ok tasks' ∧ Lists t tasks' fun x => chosen x ∨ x ∈ ids := by
  intro ids
  induction ids with
  | nil => exact fun _ hlists => ⟨_, rfl, hlists.congr fun x _ _ => by simp⟩
  | cons id ids ih =>
    intro tasks chosen hall hlists
    obtain ⟨⟨item, hitem⟩, hall⟩ := List.forall_mem_cons.1 hall
    have hstep : selectTask t tasks id = .ok (listTask tasks id item) := by
      unfold selectTask listTask
      rw [hitem]
      split_ifs <;> rfl
    obtain ⟨tasks', heq, hlists'⟩ := ih hall (hlists.listTask hitem)
    rw [List.foldlM_cons, hstep]
    refine ⟨tasks', heq, hlists'.congr fun x _ _ => ?_⟩
    rw [List.mem_cons, or_assoc]

/-- A manifest lists the selected tasks and the live tasks below the selected groups, each once and as
it is, and no others. -/
def ListsExactly (t : WorkTables) (groups tasks : List WorkItemId)
    (listed : List (WorkItemId × SelectionStatus)) : Prop :=
  (listed.map Prod.fst).Nodup ∧ ∀ x status, (x, status) ∈ listed ↔
    (x ∈ tasks ∨ ∃ group ∈ groups, LiveBelow t group x) ∧
      ∃ item, t.items.get x = some item ∧ status = classify item

/-- **When a selection is expanded.**  A selection of live groups and existing tasks of a queue comes to
the exact list of its tasks if and only if no live group at the deepest level a group may be placed at
is selected or lies below a selected group. -/
theorem expandWorkSelection_iff {q : WorkQueueState} (h : Reachable q) {groups tasks : List WorkItemId}
    (hgroups : ∀ group ∈ groups, q.tables.GroupAt group)
    (htasks : ∀ id ∈ tasks, ∃ item, q.tables.items.get id = some item) :
    (∃ manifest, expandWorkSelection q groups tasks = .ok manifest ∧
        manifest.revision = q.revision ∧ ListsExactly q.tables groups tasks manifest.tasks) ↔
      ∀ group ∈ groups, AboveDeepest q.tables group := by
  obtain ⟨hok, herror⟩ := foldlM_selectGroup h.forest h.groupsWithin hgroups lists_empty
  constructor
  · rintro ⟨manifest, heq, -⟩
    by_contra hnot
    obtain ⟨error, herror⟩ := herror hnot
    unfold expandWorkSelection at heq
    rw [herror] at heq
    cases heq
  · intro hdeep
    obtain ⟨found, hfound, hlists⟩ := hok hdeep
    obtain ⟨listed, hlisted, hlists⟩ := foldlM_selectTask htasks hlists
    refine ⟨{ revision := q.revision, groups := groups.reverse.dedup.reverse, tasks := listed.entries },
      ?_, rfl, listed.nodup, fun x status => ?_⟩
    · unfold expandWorkSelection
      rw [hfound]
      show (tasks.foldlM (selectTask q.tables) found >>= _) = _
      rw [hlisted]
      rfl
    · rw [OrderedMap.mem_entries, hlists x status]
      refine and_congr_left fun _ => ?_
      show (False ∨ _) ∨ _ ↔ _
      rw [false_or, or_comm]

/-- The selection of a group with a task in a group in it. -/
theorem expandWorkSelection_nested : ∃ q : WorkQueueState, q.tables.parentOf "a" = some "inner" ∧
    ((∃ manifest, expandWorkSelection q ["outer"] ["a"] = .ok manifest ∧
        manifest.revision = q.revision ∧ ListsExactly q.tables ["outer"] ["a"] manifest.tasks) ↔
      ∀ group ∈ ["outer"], AboveDeepest q.tables group) := by
  obtain ⟨q, hq, hp⟩ := reachable_of_any [nestingBatch]
    (fun q => sitsUnder q "a" "inner" && (q.tables.groups.get "outer").any (fun group => !group.deleted) &&
      (q.tables.items.get "a").isSome) (by decide +kernel)
  rw [Bool.and_eq_true, Bool.and_eq_true] at hp
  obtain ⟨⟨hparent, hgroup⟩, hitem⟩ := hp
  refine ⟨q, of_decide_eq_true hparent, expandWorkSelection_iff hq (fun group hmem => ?_) fun _ hmem => ?_⟩
  · rw [List.mem_singleton.1 hmem]
    rcases hget : q.tables.groups.get "outer" with _ | found
    · rw [hget] at hgroup
      cases hgroup
    · rw [hget, Option.any_some, Bool.not_eq_true'] at hgroup
      exact ⟨found, hget, hgroup⟩
  · rw [List.mem_singleton.1 hmem]
    exact Option.isSome_iff_exists.1 hitem

/-- A live group that was placed is refused as corruption when it is selected. -/
theorem deepest_group_refused : ∃ q : WorkQueueState, Reachable q ∧ q.tables.GroupAt (levelName 32) ∧
    expandWorkSelection q [levelName 32] [] = .error (refusal .corrupt) := by
  obtain ⟨q, hq, hp⟩ := reachable_of_any [nestedGroups 32]
    (fun q => (q.tables.groups.get (levelName 32)).any (fun group => !group.deleted) &&
      match expandWorkSelection q [levelName 32] [] with
      | .ok _ => false
      | .error error => decide (error = refusal .corrupt)) (by decide +kernel)
  rw [Bool.and_eq_true] at hp
  obtain ⟨hgroup, hrefused⟩ := hp
  refine ⟨q, hq, ?_, ?_⟩
  · rcases hget : q.tables.groups.get (levelName 32) with _ | found
    · rw [hget] at hgroup
      cases hgroup
    · rw [hget, Option.any_some, Bool.not_eq_true'] at hgroup
      exact ⟨found, hget, hgroup⟩
  · rcases hexpand : expandWorkSelection q [levelName 32] [] with error | manifest
    · rw [hexpand] at hrefused
      rw [of_decide_eq_true hrefused]
    · rw [hexpand] at hrefused
      cases hrefused

end Falryn.Orchestration.WorkQueues
