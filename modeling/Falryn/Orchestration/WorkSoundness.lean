import Falryn.Lib.Acyclic
import Falryn.Orchestration.WorkInvariants

/-!
# Every operation keeps the tasks sound

`sound_applyWorkMutation`, one lemma for each way an operation ends: a task is added, revised, linked,
unlinked or deleted.
-/

namespace Falryn.Orchestration.WorkQueues

variable {t t' : WorkTables} {ctx : WorkContext} {id : WorkItemId} {old item : WorkItem}

/-! ## One task written -/

theorem Sound.not_dependent_of_fresh (h : Sound t) (hfresh : t.items.get id = none)
    (other : WorkItemId) : (other, id) ∉ t.edges ∧ (id, other) ∉ t.edges := by
  refine ⟨fun hedge => ?_, fun hedge => ?_⟩
  · obtain ⟨item, hget, -⟩ := (h.edge hedge).2
    rw [hfresh] at hget
    cases hget
  · obtain ⟨item, hget, -⟩ := (h.edge hedge).1
    rw [hfresh] at hget
    cases hget

theorem sound_added (h : Sound t) (hfresh : t.items.get id = none) (fields : WorkFields) :
    Sound (t.putItem id (addedItem ctx fields)) := by
  refine h.putItem (itemSound_of_inert rfl nofun) ?_ (.inl rfl)
  exact fun _ => .inr fun other => (h.not_dependent_of_fresh hfresh other).1

/-- A revision keeps the tasks sound. -/
theorem sound_revised (h : Sound t) (hget : t.items.get id = some old) (hdeleted : old.deleted = false)
    (hrevised : Revised ctx t id old item) : Sound (t.putItem id (stamped ctx item)) := by
  refine h.putItem (hrevised.itemSound h hget) (fun hdone => .inl ?_) (.inl ?_)
  · obtain ⟨found, hfound, hdone⟩ := hdone
    rw [hget] at hfound
    cases hfound
    exact hrevised.completedWork h hget hdone
  · rw [hrevised.deleted]
    exact hdeleted

/-- A task that is not completed may be written with an inert disposition. -/
theorem Sound.putInert (h : Sound t) (hget : t.items.get id = some old)
    (hopen : ¬ old.completedWork = true) (hinert : item.disposition.isInert = true)
    (hclaim : item.claim = none) (hdeleted : item.deleted = false) : Sound (t.putItem id item) := by
  refine h.putItem (itemSound_of_inert hinert fun claim hsome => ?_) (fun hdone => ?_) (.inl hdeleted)
  · rw [hclaim] at hsome
    cases hsome
  · obtain ⟨found, hfound, hdone⟩ := hdone
    rw [hget] at hfound
    cases hfound
    exact absurd hdone hopen

/-! ## Edges -/

variable {dependency : WorkItemId} {tx : WorkTransaction}

/-- A new edge that closes no cycle, from a task about to be pending. -/
theorem Sound.link (h : Sound t) (hget : t.items.get id = some old)
    (hmutable : old.IsMutable) (hidle : old.isIdle = true) (hlive : t.LiveAt dependency)
    (hback : ¬ Relation.ReflTransGen t.DependsOn dependency id) :
    Sound ((t.setEdge id dependency true).putItem id (stamped ctx (relinkedItem old false))) := by
  have hopen := not_completedWork_of_mutable hmutable
  -- The task is pending before the edge comes, so nothing is asked of its dependencies.
  have hfirst : Sound (t.putItem id (stamped ctx (relinkedItem old false))) :=
    h.putInert hget hopen rfl (idle_claim hidle) hmutable.1
  have hne : dependency ≠ id := by
    rintro rfl
    exact hback .refl
  have hgets : ∀ other, (t.putItem id (stamped ctx (relinkedItem old false))).items.get other =
      if other = id then some (stamped ctx (relinkedItem old false)) else t.items.get other :=
    fun other => OrderedMap.get_set t.items id other _
  refine ⟨fun {other found} hfound => ?_, fun {a b} hedge => ?_, ?_⟩
  · have hold := hfirst.item hfound
    by_cases hsame : other = id
    · subst hsame
      have hfound' := (hgets other).symm.trans hfound
      rw [if_pos rfl] at hfound'
      cases hfound'
      exact itemSound_of_inert rfl hold.generation
    · have hedges : ∀ {b}, (other, b) ∈ (t.setEdge id dependency true).edges → (other, b) ∈ t.edges := by
        intro b hedge
        rcases WorkTables.mem_edges_setEdge_true.1 hedge with heq | hedge
        · cases heq
          exact absurd rfl hsame
        · exact hedge
      refine { hold with
        ready := fun hready => ?_
        dependencies := fun hdone b hedge => hold.dependencies hdone b (hedges hedge) }
      have hready := hold.ready hready
      exact ⟨hready.blockers, hready.resolved, fun b hedge => hready.dependencies b (hedges hedge)⟩
  · rcases WorkTables.mem_edges_setEdge_true.1 hedge with heq | hedge
    · cases heq
      obtain ⟨found, hfound, halive⟩ := hlive
      exact ⟨⟨_, (hgets id).trans (if_pos rfl), hmutable.1⟩,
        ⟨found, (hgets dependency).trans ((if_neg hne).trans hfound), halive⟩⟩
    · exact hfirst.edge hedge
  · refine Acyclic.not_cycle_insert (R := t.DependsOn) (a := id) (b := dependency) (fun a b hedge => ?_)
      h.acyclic hback
    rcases WorkTables.mem_edges_setEdge_true.1 hedge with heq | hedge
    · cases heq
      exact .inr ⟨rfl, rfl⟩
    · exact .inl hedge

/-- The search from a task finds every way back from a new dependency to it. -/
theorem not_leads_back {steps : ℕ}
    (hsearch : FrameSearch.findCycle (linkedDependencies tx id dependency) steps [id] = some none) :
    ¬ Relation.ReflTransGen tx.tables.DependsOn dependency id := by
  intro hback
  have hsucc : ∀ {a b}, tx.tables.DependsOn a b →
      DepthFirst.Succ (linkedDependencies tx id dependency) b a := by
    intro a b hedge
    have hmem := WorkTables.mem_dependencies.2 hedge
    show b ∈ linkedDependencies tx id dependency a
    unfold linkedDependencies
    split_ifs
    · exact List.mem_cons_of_mem _ hmem
    · exact hmem
  have hfirst : DepthFirst.Succ (linkedDependencies tx id dependency) dependency id := by
    show dependency ∈ linkedDependencies tx id dependency id
    rw [linkedDependencies, if_pos rfl]
    exact List.mem_cons_self
  have hpath : Relation.ReflTransGen
      (Function.swap (DepthFirst.Succ (linkedDependencies tx id dependency))) dependency id :=
    Relation.ReflTransGen.mono (fun a b hedge => hsucc hedge) _ _ hback
  have hcycle : Relation.TransGen
      (Function.swap (DepthFirst.Succ (linkedDependencies tx id dependency))) id id :=
    .head' hfirst hpath
  exact DepthFirst.not_transGen_self (FrameSearch.findCycle_none hsearch id List.mem_cons_self)
    (Relation.transGen_swap.1 hcycle)

/-- One edge less. -/
theorem Sound.less_edge (h : Sound t) : Sound (t.setEdge id dependency false) :=
  h.of_fewer_edges rfl fun _ hedge => (WorkTables.mem_edges_setEdge_false.1 hedge).1

/-- An edge less, from a task about to be pending. -/
theorem Sound.unlink {unresolved : Bool} (h : Sound t)
    (hget : t.items.get id = some old) (hmutable : old.IsMutable) (hidle : old.isIdle = true) :
    Sound ((t.setEdge id dependency false).putItem id (stamped ctx (relinkedItem old unresolved))) :=
  h.less_edge.putInert hget (not_completedWork_of_mutable hmutable) rfl (idle_claim hidle) hmutable.1

/-! ## Deleting -/

section
variable {tx tx' : WorkTransaction}

theorem sound_detachDependent {dependent : WorkItemId} (h : Sound tx.tables)
    (hdetach : detachDependent ctx id tx dependent = .ok tx') : Sound tx'.tables := by
  obtain ⟨item, hget, hdeleted, hidle, hopen, htables⟩ := detachDependent_ok hdetach
  rw [htables]
  refine h.less_edge.putInert hget ?_ rfl (idle_claim hidle) hdeleted
  rw [hopen]
  exact Bool.false_ne_true

/-- Once its dependents are detached, nothing depends on the task. -/
theorem no_dependents_left
    (hdetach : (tx.tables.dependents id).foldlM (detachDependent ctx id) tx = .ok tx')
    (other : WorkItemId) : (other, id) ∉ tx'.tables.edges := by
  intro hedge
  obtain ⟨hbefore, hnot⟩ := (edges_foldlM_detach hdetach (other, id)).1 hedge
  exact hnot ⟨rfl, WorkTables.mem_dependents.2 hbefore⟩

theorem sound_deleted (h : Sound tx.tables) (hget : tx.tables.items.get id = some old)
    (hdetach : (tx.tables.dependents id).foldlM (detachDependent ctx id) tx = .ok tx') :
    Sound ((withoutDependencies tx'.tables id).putItem id
      (stamped ctx { old with deleted := true })) := by
  have hsound : Sound tx'.tables := foldlM_ok_invariant (P := fun tx => Sound tx.tables)
    (fun _ _ _ _ h hstep => sound_detachDependent h hstep) h hdetach
  have hafter : Sound (withoutDependencies tx'.tables id) :=
    hsound.of_fewer_edges (withoutDependencies_items tx'.tables id)
      fun _ hedge => (mem_edges_withoutDependencies.1 hedge).1
  have halone : ∀ other, (other, id) ∉ (withoutDependencies tx'.tables id).edges ∧
      (id, other) ∉ (withoutDependencies tx'.tables id).edges := fun other =>
    ⟨fun hedge => no_dependents_left hdetach other (mem_edges_withoutDependencies.1 hedge).1,
      fun hedge => (mem_edges_withoutDependencies.1 hedge).2 rfl⟩
  have hold := h.item hget
  have hopen : ¬ WorkItem.completedWork (stamped ctx { old with deleted := true }) = true := by
    rw [completedWork_iff]
    rintro ⟨hdeleted, -⟩
    cases hdeleted
  refine hafter.putItem ⟨fun hready => ?_, hold.active, hold.generation, hold.unclaimed,
    fun hdone => absurd hdone hopen, fun hdone => absurd hdone hopen⟩
    (fun _ => .inr fun other => (halone other).1) (.inr halone)
  have hready := hold.ready hready
  exact ⟨hready.blockers, hready.resolved, fun dependency hedge => absurd hedge (halone dependency).2⟩

end

/-- **Every operation on a task keeps the tasks sound.** -/
theorem sound_applyWorkMutation {tx' : WorkTransaction} {op : WorkMutation} (h : Sound tx.tables)
    (happly : applyWorkMutation ctx tx op = .ok tx') : Sound tx'.tables := by
  rcases applyWorkMutation_cases happly with ⟨id, fields, -, hfresh, -, htables⟩ |
    ⟨id, old, item, hget, hdeleted, hrevised, htables⟩ |
    ⟨id, dependency, old, -, hget, hmutable, hidle, hlive, -, hsearch, htables⟩ |
    ⟨id, dependency, old, unresolved, -, hget, hmutable, hidle, htables⟩ |
    ⟨id, old, tx₁, -, hget, -, -, hdetach, htables⟩
  · rw [htables]
    exact sound_added h hfresh fields
  · rw [htables]
    exact sound_revised h hget hdeleted hrevised
  · rw [htables]
    exact h.link hget hmutable hidle hlive (not_leads_back hsearch)
  · rw [htables]
    exact h.unlink hget hmutable hidle
  · rw [htables]
    exact sound_deleted h hget hdetach

end Falryn.Orchestration.WorkQueues
