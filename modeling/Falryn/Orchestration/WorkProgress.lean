import Falryn.Orchestration.WorkTraversal

/-!
# Progress of a subtree

`workProgress` counts the tasks below a root as `nextInSubtree` visits them.  When its budget runs out in
the middle of a search it answers with what it has counted and where to go on, so a count comes in pages.
The pages of one revision add up to the whole (`queue_progress`).
-/

namespace Falryn.Orchestration.WorkQueues

open WorkTables

/-! ## Counting -/

/-- `PROGRESS_DISPOSITIONS`. -/
def progressDispositions : List WorkDisposition :=
  [.pending, .ready, .active, .waiting, .blocked, .completionClaimed, .completed, .cancelled]

/-- What a page counts. -/
@[ext]
structure WorkCounts where
  total : ℕ
  dispositions : WorkDisposition → ℕ
  archived : ℕ
  accepted : ℕ
  executionUncertain : ℕ
  groups : ℕ

/-- Nothing counted yet. -/
def WorkCounts.none : WorkCounts := ⟨0, fun _ => 0, 0, 0, 0, 0⟩

/-- The disposition a task counts under: an archived one as before it was archived. -/
def countedDisposition (item : WorkItem) : WorkDisposition :=
  if item.disposition = .archived then item.previousDisposition.getD .completed else item.disposition

/-- Whether what became of the execution of a task is uncertain. -/
def isUncertain (item : WorkItem) : Bool := item.execution.any fun execution => execution.state = .uncertain

/-- One visit in the loop of `workProgress`. -/
def WorkCounts.count (counts : WorkCounts) : WorkNode → WorkCounts
  | .group _ => { counts with groups := counts.groups + 1 }
  | .task item =>
    { total := counts.total + 1
      dispositions := fun disposition =>
        if countedDisposition item ≠ .archived ∧ disposition = countedDisposition item then
          counts.dispositions disposition + 1
        else counts.dispositions disposition
      archived := if item.disposition = .archived then counts.archived + 1 else counts.archived
      accepted := if item.completedWork then counts.accepted + 1 else counts.accepted
      executionUncertain :=
        if isUncertain item then counts.executionUncertain + 1 else counts.executionUncertain
      groups := counts.groups }

inductive ProgressState where
  | empty | allCompleted | inProgress | cutShort

structure WorkProgress where
  revision : ℕ
  counts : WorkCounts
  /-- `cutShort` ("partial") whenever this page does not cover the whole subtree. -/
  state : ProgressState
  complete : Bool
  next : Option WorkItemId

/-- The loop of `workProgress`: what was counted, the last node visited, and whether nothing is left.
The budget grants so many searches and runs out in the middle of the next. -/
def progressLoop (t : WorkTables) (root after : Option WorkItemId) : ℕ → Option WorkItemId → WorkCounts →
    Except WorkQueueError (WorkCounts × Option WorkItemId × Bool)
  | 0, cursor, counts => if cursor = after then .error outOfSteps else .ok (counts, cursor, false)
  | searches + 1, cursor, counts =>
    match t.nextInSubtree root cursor with
    | .error error =>
      if error.code ≠ .resourceExhausted ∨ cursor = after then .error error
      else .ok (counts, cursor, false)
    | .ok none => .ok (counts, cursor, true)
    | .ok (some visit) => progressLoop t root after searches (some visit.1.id) (counts.count visit.2)

/-- A root, if there is one, is a live group. -/
def checkRoot (t : WorkTables) : Option WorkItemId → Except WorkQueueError Unit
  | none => .ok ()
  | some id => (t.liveGroup id).map fun _ => ()

/-- `workProgress`, with a budget of so many searches. -/
def workProgress (q : WorkQueueState) (root after : Option WorkItemId) (searches : ℕ) :
    Except WorkQueueError WorkProgress := do
  checkRoot q.tables root
  let (counts, cursor, complete) ← progressLoop q.tables root after searches after .none
  let whole := complete && after.isNone
  return {
    revision := q.revision
    counts
    state :=
      if whole = false then .cutShort
      else if counts.total = 0 then .empty
      else if counts.accepted = counts.total then .allCompleted
      else .inProgress
    complete
    next := if complete then none else cursor }

/-- Pages of a count, each continued where the one before was cut, up to one that is complete. -/
inductive Pages (q : WorkQueueState) (root : Option WorkItemId) :
    Option WorkItemId → List WorkProgress → Prop where
  | last {after : Option WorkItemId} {searches : ℕ} {page : WorkProgress}
      (h : workProgress q root after searches = .ok page) (hcomplete : page.complete = true) :
      Pages q root after [page]
  | more {after : Option WorkItemId} {searches : ℕ} {page : WorkProgress} {next : WorkItemId}
      {rest : List WorkProgress} (h : workProgress q root after searches = .ok page)
      (hnext : page.next = some next) (hrest : Pages q root (some next) rest) :
      Pages q root after (page :: rest)

/-! ## What the counts say -/

/-- Whether a node is a task of which something holds. -/
def WorkNode.isTaskWith (p : WorkItem → Bool) : WorkNode → Bool
  | .task item => p item
  | .group _ => false

/-- The counts of some nodes. -/
def countsOf (visits : List WorkVisit) : WorkCounts where
  total := visits.countP fun visit => visit.2.isTaskWith fun _ => true
  dispositions disposition := visits.countP fun visit => visit.2.isTaskWith fun item =>
    countedDisposition item ≠ .archived ∧ disposition = countedDisposition item
  archived := visits.countP fun visit => visit.2.isTaskWith fun item => item.disposition = .archived
  accepted := visits.countP fun visit => visit.2.isTaskWith WorkItem.completedWork
  executionUncertain := visits.countP fun visit => visit.2.isTaskWith isUncertain
  groups := visits.countP fun visit => !visit.2.isTaskWith fun _ => true

/-- Two counts together. -/
def WorkCounts.add (a b : WorkCounts) : WorkCounts where
  total := a.total + b.total
  dispositions disposition := a.dispositions disposition + b.dispositions disposition
  archived := a.archived + b.archived
  accepted := a.accepted + b.accepted
  executionUncertain := a.executionUncertain + b.executionUncertain
  groups := a.groups + b.groups

/-- The counts of some pages together. -/
def countsOfPages (pages : List WorkProgress) : WorkCounts :=
  (pages.map WorkProgress.counts).foldr WorkCounts.add .none

theorem countsOf_append (visits visits' : List WorkVisit) :
    countsOf (visits ++ visits') = (countsOf visits).add (countsOf visits') := by
  unfold countsOf WorkCounts.add
  simp only [List.countP_append]

theorem WorkCounts.add_none (counts : WorkCounts) : counts.add .none = counts := rfl

theorem count_countsOf (visits : List WorkVisit) (visit : WorkVisit) :
    (countsOf visits).count visit.2 = countsOf (visits ++ [visit]) := by
  obtain ⟨child, node⟩ := visit
  rw [countsOf_append]
  cases node with
  | group => simp [countsOf, WorkCounts.add, WorkCounts.count, WorkNode.isTaskWith]
  | task =>
    simp only [countsOf, WorkCounts.add, WorkCounts.count, WorkNode.isTaskWith, List.countP_singleton]
    ext
    · simp
    · simp only [decide_eq_true_eq]
      split_ifs <;> simp
    · simp only [decide_eq_true_eq]
      split_ifs <;> simp
    · split_ifs <;> simp
    · split_ifs <;> simp
    · simp

theorem sum_one_disposition {counted : WorkDisposition} (h : counted ≠ .archived) :
    (progressDispositions.map fun disposition =>
      if counted ≠ .archived ∧ disposition = counted then 1 else 0).sum = 1 := by
  revert h
  cases counted <;> decide

/-- **The dispositions partition the total** once none of the tasks counts as archived. -/
theorem sum_dispositions {visits : List WorkVisit}
    (h : ∀ visit ∈ visits, ∀ item, visit.2 = .task item → countedDisposition item ≠ .archived) :
    (progressDispositions.map (countsOf visits).dispositions).sum = (countsOf visits).total := by
  induction visits with
  | nil => rfl
  | cons visit visits ih =>
    obtain ⟨hvisit, hvisits⟩ := List.forall_mem_cons.1 h
    have hsplit := countsOf_append [visit] visits
    rw [List.singleton_append] at hsplit
    rw [hsplit]
    have hadd : (progressDispositions.map ((countsOf [visit]).add (countsOf visits)).dispositions).sum =
        (progressDispositions.map (countsOf [visit]).dispositions).sum +
          (progressDispositions.map (countsOf visits).dispositions).sum :=
      List.sum_map_add
    have hone : (progressDispositions.map (countsOf [visit]).dispositions).sum =
        (countsOf [visit]).total := by
      obtain ⟨child, node⟩ := visit
      cases node with
      | group => rfl
      | task item =>
        simp only [countsOf, WorkNode.isTaskWith, List.countP_singleton, decide_eq_true_eq, if_true]
        exact sum_one_disposition (hvisit item rfl)
    rw [hadd, hone, ih hvisits]
    rfl

/-! ## Archived tasks -/

/-- An archived task was completed or cancelled before. -/
def ArchivedAsEnded (t : WorkTables) : Prop :=
  ∀ id item, t.items.get id = some item → item.disposition = .archived →
    item.previousDisposition = some .completed ∨ item.previousDisposition = some .cancelled

variable {item : WorkItem} {t : WorkTables} {id : WorkItemId} {ctx : WorkContext}

theorem ArchivedAsEnded.write {t' : WorkTables} (h : ArchivedAsEnded t) (hitems : t'.items = t.items.set id item)
    (hitem : item.disposition = .archived →
      item.previousDisposition = some .completed ∨ item.previousDisposition = some .cancelled) :
    ArchivedAsEnded t' := by
  intro x found hfound
  rw [hitems, OrderedMap.get_set] at hfound
  split_ifs at hfound with hsame
  · cases hfound
    exact hitem
  · exact h x found hfound

theorem not_archived_of_mutable (h : item.IsMutable) : item.disposition ≠ .archived := by
  intro harchived
  have hterminal := h.2
  rw [harchived] at hterminal
  cases hterminal

/-- A change of a task archives it only from an end. -/
theorem Revised.archived {old : WorkItem}
    (h : Revised ctx t id old item) (harchived : item.disposition = .archived) :
    item.previousDisposition = some .completed ∨ item.previousDisposition = some .cancelled := by
  cases h with
  | update update hmutable hidle =>
    unfold updatedItem at harchived
    dsimp only at harchived
    split_ifs at harchived
    exact absurd harchived (not_archived_of_mutable hmutable)
  | blockers blockers hmutable hidle =>
    unfold blockedItem at harchived
    dsimp only at harchived
    split_ifs at harchived
  | disposition value reason hmutable hready _ hidle =>
    cases value <;> cases harchived
  | claim _ hmutable hidle hready | submit evidence hmutable hready
  | accept observation _ reason hready hclaimed | cancel hmutable => cases harchived
  | release claim observation =>
    unfold releasedItem at harchived
    dsimp only at harchived
    split_ifs at harchived
  | refuse reason hclaimed =>
    have harchived : old.disposition = .archived := harchived
    rw [hclaimed] at harchived
    cases harchived
  | archive hidle hended => exact hended.imp (congrArg some) (congrArg some)

theorem archivedAsEnded_applyWorkMutation {tx tx' : WorkTransaction} {op : WorkMutation}
    (h : ArchivedAsEnded tx.tables) (happly : applyWorkMutation ctx tx op = .ok tx') :
    ArchivedAsEnded tx'.tables := by
  rcases applyWorkMutation_cases happly with ⟨id, fields, -, -, -, htables⟩ |
    ⟨id, old, item, -, -, hrevised, htables⟩ | ⟨id, dependency, old, -, -, -, -, -, -, -, htables⟩ |
    ⟨id, dependency, old, unresolved, -, -, -, -, htables⟩ | ⟨id, old, tx₁, -, hget, -, -, hdetach, htables⟩
  · have hitems : tx'.tables.items = tx.tables.items.set id (addedItem ctx fields) := by rw [htables]; rfl
    exact h.write hitems nofun
  · have hitems : tx'.tables.items = tx.tables.items.set id (stamped ctx item) := by rw [htables]; rfl
    exact h.write hitems hrevised.archived
  · have hitems : tx'.tables.items = tx.tables.items.set id (stamped ctx (relinkedItem old false)) := by
      rw [htables]; rfl
    exact h.write hitems nofun
  · have hitems : tx'.tables.items = tx.tables.items.set id (stamped ctx (relinkedItem old unresolved)) := by
      rw [htables]; rfl
    exact h.write hitems nofun
  · have hfold : ArchivedAsEnded tx₁.tables := by
      refine foldlM_ok_invariant (P := fun s => ArchivedAsEnded s.tables)
        (fun s dependent _ s' hs hstep => ?_) h hdetach
      obtain ⟨item, -, -, -, -, hstables⟩ := detachDependent_ok hstep
      have hitems : s'.tables.items = s.tables.items.set dependent (orphanedItem ctx item) := by
        rw [hstables]; rfl
      exact hs.write hitems nofun
    have hitems : tx'.tables.items = tx₁.tables.items.set id (stamped ctx { old with deleted := true }) := by
      rw [htables, ← withoutDependencies_items tx₁.tables id]; rfl
    exact hfold.write hitems (h id old hget)

theorem Reachable.archivedAsEnded {q : WorkQueueState} (h : Reachable q) : ArchivedAsEnded q.tables :=
  h.invariant (fun _ _ hget => (nomatch hget)) fun ht _ happly =>
    applyOperation_tasks (fun hitems _ ht => by rw [ArchivedAsEnded, hitems]; exact ht)
      archivedAsEnded_applyWorkMutation ht happly

/-! ## Pages -/

section
variable {t : WorkTables} {root after : Option WorkItemId}

/-- **What one page counts.**  With some visits made and the rest to come, it counts a stretch of the
rest, and is cut where that stretch ends. -/
theorem progressLoop_ok : ∀ {searches : ℕ} {cursor : Option WorkItemId} {made rest : List WorkVisit}
    {counts : WorkCounts} {cursor' : Option WorkItemId} {complete : Bool},
    t.nextInSubtree root cursor = .ok rest.head? → t.Follows root rest →
      progressLoop t root after searches cursor (countsOf made) = .ok (counts, cursor', complete) →
        ∃ more left, rest = more ++ left ∧ counts = countsOf (made ++ more) ∧
          (complete = true → left = []) ∧
          (complete = false → cursor' ≠ after ∧ (cursor' = none → cursor = none) ∧
            t.nextInSubtree root cursor' = .ok left.head? ∧ t.Follows root left) := by
  intro searches
  induction searches with
  | zero =>
    intro cursor made rest counts cursor' complete hnext hfollows h
    rw [progressLoop] at h
    split_ifs at h with hsame
    cases h
    exact ⟨[], rest, rfl, by rw [List.append_nil], nofun,
      fun _ => ⟨hsame, fun hnone => hnone, hnext, hfollows⟩⟩
  | succ searches ih =>
    intro cursor made rest counts cursor' complete hnext hfollows h
    rw [progressLoop, hnext] at h
    cases rest with
    | nil =>
      cases h
      exact ⟨[], [], rfl, by rw [List.append_nil], fun _ => rfl, nofun⟩
    | cons visit rest =>
      rw [List.head?_cons] at h
      dsimp only at h
      rw [count_countsOf] at h
      obtain ⟨more, left, hrest, hcounts, hdone, hcut⟩ := ih hfollows.1 hfollows.2 h
      refine ⟨visit :: more, left, by rw [hrest]; rfl, ?_, hdone, fun hcomplete => ?_⟩
      · rw [hcounts, List.append_assoc, List.singleton_append]
      · obtain ⟨hmoved, hnone, hleft⟩ := hcut hcomplete
        exact ⟨hmoved, fun h => (nomatch hnone h), hleft⟩

/-- What is to come from a cursor on is what its pages count. -/
theorem countsOfPages_eq {q : WorkQueueState} {pages : List WorkProgress} (h : Pages q root after pages) :
    ∀ {rest : List WorkVisit}, q.tables.nextInSubtree root after = .ok rest.head? →
      q.tables.Follows root rest → countsOfPages pages = countsOf rest := by
  have hpage : ∀ {after : Option WorkItemId} {searches : ℕ} {page : WorkProgress},
      workProgress q root after searches = .ok page → ∃ cursor,
        progressLoop q.tables root after searches after .none = .ok (page.counts, cursor, page.complete) ∧
        page.next = if page.complete then none else cursor := by
    intro after searches page h
    obtain ⟨_, -, h⟩ := except_bind_ok.1 h
    obtain ⟨⟨counts, cursor, complete⟩, hloop, h⟩ := except_bind_ok.1 h
    cases h
    exact ⟨cursor, hloop, rfl⟩
  induction h with
  | last h hcomplete =>
    intro rest hnext hfollows
    obtain ⟨cursor, hloop, -⟩ := hpage h
    have hloop : progressLoop _ _ _ _ _ (countsOf []) = _ := hloop
    obtain ⟨more, left, rfl, hcounts, hdone, -⟩ := progressLoop_ok hnext hfollows hloop
    rw [hdone hcomplete, List.append_nil]
    exact hcounts
  | @more after searches page next rest h hnextPage _ ih =>
    intro visits hnext hfollows
    obtain ⟨cursor, hloop, hcursor⟩ := hpage h
    have hloop : progressLoop _ _ _ _ _ (countsOf []) = _ := hloop
    obtain ⟨more, left, rfl, hcounts, -, hcut⟩ := progressLoop_ok hnext hfollows hloop
    have hcomplete : page.complete = false := by
      rw [hnextPage] at hcursor
      by_contra hdone
      rw [if_pos (by simpa using hdone)] at hcursor
      cases hcursor
    rw [hnextPage, if_neg (by simp [hcomplete])] at hcursor
    subst hcursor
    obtain ⟨-, -, hnextLeft, hfollowsLeft⟩ := hcut hcomplete
    rw [countsOf_append, ← ih hnextLeft hfollowsLeft]
    exact congrArg (fun counts : WorkCounts => counts.add (countsOfPages rest)) hcounts

end

/-- What going through a subtree and counting it comes to. -/
structure CountsExactly (q : WorkQueueState) (root : Option WorkItemId) : Prop where
  /-- Repeated searches visit the subtree in pre-order and then find nothing. -/
  visits : q.tables.Visits root none (q.tables.preOrder root)
  /-- No node is visited twice. -/
  once : ((q.tables.preOrder root).map fun visit => visit.1.id).Nodup
  /-- What is visited is what is live below the root, as it is. -/
  live : ∀ child node, (child, node) ∈ q.tables.preOrder root ↔
    q.tables.workNode child.id = some node ∧ node.deleted = false ∧ q.tables.Below root child.id ∧
      q.tables.orderOf child.id = child.order
  /-- Pages of a count add up to the counts of what is visited. -/
  pages : ∀ pages, Pages q root none pages → countsOfPages pages = countsOf (q.tables.preOrder root)
  /-- The dispositions partition the total. -/
  partition : (progressDispositions.map (countsOf (q.tables.preOrder root)).dispositions).sum =
    (countsOf (q.tables.preOrder root)).total

/-- **Going through a queue and counting it.**  At one revision, below every live group and over the
whole queue, repeated searches visit every live node below the root once, in pre-order, and then find
nothing; and however budgets cut a count into pages, the pages add up to the counts of what is visited,
whose dispositions add up to its total. -/
theorem queue_progress {q : WorkQueueState} (h : Reachable q) {root : Option WorkItemId}
    (hroot : ∀ id ∈ root, q.tables.GroupAt id) : CountsExactly q root := by
  have hforest := h.forest
  have hgroups := h.groupsWithin
  have hsuffice := preOrder_suffices hforest hgroups hroot
  refine ⟨visits_preOrder hforest hgroups hroot, nodup_levelsBelow hforest hsuffice,
    fun _ _ => mem_levelsBelow hforest hsuffice,
    fun pages hpages => countsOfPages_eq hpages (nextInSubtree_start hforest hgroups hroot)
      (follows_preOrder hforest hgroups hroot), sum_dispositions ?_⟩
  rintro ⟨child, node⟩ hvisit item rfl
  have hitem := workNode_eq_task.1 ((mem_levelsBelow hforest hsuffice).1 hvisit).1
  unfold countedDisposition
  split_ifs with harchived
  · rcases h.archivedAsEnded child.id item hitem harchived with hprevious | hprevious
    · rw [hprevious]
      exact fun h => (nomatch h)
    · rw [hprevious]
      exact fun h => (nomatch h)
  · exact harchived

/-- A group with a group in it, which has a task, counted over the whole queue. -/
theorem queue_progress_nested : ∃ q : WorkQueueState, q.tables.parentOf "a" = some "inner" ∧
    CountsExactly q none := by
  obtain ⟨q, hq, hp⟩ := reachable_of_any [nestingBatch] (fun q => sitsUnder q "a" "inner")
    (by decide +kernel)
  exact ⟨q, of_decide_eq_true hp, queue_progress hq nofun⟩

/-- The pages of a count cut after every search but the last. -/
example : ∃ q : WorkQueueState, Reachable q ∧
    ((workProgress q none none 1).toOption.map fun page => (page.counts.groups, page.counts.total, page.next)) =
      some (1, 0, some "outer") ∧
    ((workProgress q none (some "outer") 9).toOption.map fun page =>
      (page.counts.groups, page.counts.total, page.next)) = some (1, 1, none) := by
  obtain ⟨q, hq, hp⟩ := reachable_of_any [nestingBatch] (fun q =>
    decide (((workProgress q none none 1).toOption.map fun page =>
      (page.counts.groups, page.counts.total, page.next)) = some (1, 0, some "outer")) &&
    decide (((workProgress q none (some "outer") 9).toOption.map fun page =>
      (page.counts.groups, page.counts.total, page.next)) = some (1, 1, none))) (by decide +kernel)
  rw [Bool.and_eq_true] at hp
  exact ⟨q, hq, of_decide_eq_true hp.1, of_decide_eq_true hp.2⟩

end Falryn.Orchestration.WorkQueues
