import Falryn.Orchestration.SchedulerResults

/-!
# Dependency cycles

`findDependencyCycle` of `domain/orchestration/dependency-graph.ts` is the loop over a stack, and the
scheduler's `findCycle` is the recursion.  On one graph they give one answer, and the answer is right.
-/

namespace Falryn.Orchestration

open FrameSearch

/-- `findDependencyCycle`, of which the loop may take so many steps. -/
def findDependencyCycle {Id : Type} [DecidableEq Id] (dependencies : Id → List Id) (fuel : ℕ)
    (roots : List Id) : Option (Option (List Id)) :=
  FrameSearch.findCycle dependencies fuel roots

/-- The dependencies that the unit with an id declares. -/
def declaredDependencies (units : List WorkUnit) (id : String) : List String :=
  ((units.find? fun unit => unit.id = id).map WorkUnit.dependencies).getD []

theorem dependenciesOf_eq_declared {units : List WorkUnit}
    (hclosed : ∀ unit ∈ units, ∀ dependency ∈ unit.dependencies, dependency ∈ units.map WorkUnit.id) :
    Scheduler.dependenciesOf units = declaredDependencies units := by
  funext id
  rw [Scheduler.dependenciesOf, declaredDependencies]
  rcases hfound : units.find? fun unit => unit.id = id with _ | unit <;> rw [hfound]
  · rfl
  · refine List.filter_eq_self.2 fun dependency hdependency => decide_eq_true ?_
    exact hclosed unit (List.mem_of_find?_eq_some hfound) dependency hdependency

/-- **The search for a cycle is exact**: it ends, it finds nothing if and only if the nodes reach no
cycle, what it finds is one, and the scheduler finds the same. -/
theorem findDependencyCycle_exact {Id : Type} [DecidableEq Id] (nodes : List Id)
    (dependencies : Id → List Id) (hclosed : ∀ x ∈ nodes, ∀ y ∈ dependencies x, y ∈ nodes) :
    (∃ answer, (∃ enough, ∀ fuel, enough ≤ fuel →
        findDependencyCycle dependencies fuel nodes = some answer)
      ∧ (answer = none ↔ ¬HasCycle dependencies nodes)
      ∧ ∀ cycle, answer = some cycle → IsCycle dependencies cycle)
    ∧ ∀ units : List WorkUnit, (units.map WorkUnit.id).Nodup →
      (∀ unit ∈ units, ∀ dependency ∈ unit.dependencies, dependency ∈ units.map WorkUnit.id) →
      ∃ enough, ∀ fuel, enough ≤ fuel →
        findDependencyCycle (declaredDependencies units) fuel (units.map WorkUnit.id)
          = some (Scheduler.findCycle units) := by
  refine ⟨?_, fun units _ hunits => ?_⟩
  · obtain ⟨enough, hends⟩ := findCycle_agrees hclosed
    refine ⟨_, ⟨enough, hends⟩, findCycle_eq_none_iff (hends enough le_rfl), fun cycle hcycle => ?_⟩
    exact (findCycle_some ((hends enough le_rfl).trans (congrArg some hcycle))).1
  · rw [← dependenciesOf_eq_declared hunits]
    exact findCycle_agrees (Scheduler.dependenciesOf_closed units)

/-- Three nodes, two of which depend on each other. -/
theorem findDependencyCycle_exact_three :
    ∃ answer, (∃ enough, ∀ fuel, enough ≤ fuel →
        findDependencyCycle (fun n => if n = 0 then [1] else [2, 1].erase n) fuel [0, 1, 2] = some answer)
      ∧ (answer = none ↔ ¬HasCycle (fun n => if n = 0 then [1] else [2, 1].erase n) [0, 1, 2])
      ∧ ∀ cycle, answer = some cycle → IsCycle (fun n => if n = 0 then [1] else [2, 1].erase n) cycle :=
  (findDependencyCycle_exact [0, 1, 2] (fun n => if n = 0 then [1] else [2, 1].erase n)
    (by decide)).1

end Falryn.Orchestration
