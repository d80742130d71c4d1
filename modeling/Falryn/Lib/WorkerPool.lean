import Mathlib

/-!
# Worker pools

A fixed number of workers share a list of jobs through one counter: a free worker takes the next
index, and either answers the job on the spot or works on it for a while.  Every answer is written to
the slot of its job, so the order in which the workers finish is not the order of the answers.

`Sound` is what holds of a pool whatever its workers do; when all of them are done, every job has its
answer, in the order of the jobs (`Sound.answers`).
-/

namespace WorkerPool

variable {α β : Type*}

inductive Worker where
  | free
  | busy (index : ℕ)
  | done
  deriving DecidableEq

structure Pool (β : Type*) where
  next : ℕ
  slots : List (Option β)
  workers : List Worker

/-- A pool of `workers` workers before any of them has taken a job. -/
def Pool.init (jobs workers : ℕ) : Pool β :=
  { next := 0
    slots := List.replicate jobs none
    workers := List.replicate workers .free }

/-- A free worker takes the next index.  It is done if there is no such job, and answers the job on
the spot if `immediate` does. -/
def Pool.take (p : Pool β) (w : ℕ) (immediate : ℕ → Option β) : Option (Pool β) :=
  match p.workers[w]? with
  | some .free =>
    if p.next ≥ p.slots.length then
      some { p with next := p.next + 1, workers := p.workers.set w .done }
    else
      match immediate p.next with
      | some answer =>
        some { p with next := p.next + 1, slots := p.slots.set p.next (some answer) }
      | none => some { p with next := p.next + 1, workers := p.workers.set w (.busy p.next) }
  | _ => none

/-- A busy worker has its answer. -/
def Pool.settle (p : Pool β) (w : ℕ) (answer : ℕ → Option β) : Option (Pool β) :=
  match p.workers[w]? with
  | some (.busy index) =>
    (answer index).map fun a =>
      { p with slots := p.slots.set index (some a), workers := p.workers.set w .free }
  | _ => none

/-- All workers are done. -/
def Pool.isDone (p : Pool β) : Bool := p.workers.all fun worker => worker = .done

/-- The answers, in the order of the jobs. -/
def Pool.answers (p : Pool β) : List β := p.slots.reduceOption

/-- What holds of a pool over `jobs` whose answers are `Right`. -/
structure Sound (jobs : List α) (Right : α → β → Prop) (p : Pool β) : Prop where
  length : p.slots.length = jobs.length
  right : ∀ (i : ℕ) (job : α) (answer : β), jobs[i]? = some job → p.slots[i]? = some (some answer) →
    Right job answer
  /-- Every job that was taken has its answer or is being worked on. -/
  taken : ∀ i < p.next, i < jobs.length →
    (∃ answer, p.slots[i]? = some (some answer)) ∨ Worker.busy i ∈ p.workers
  ended : Worker.done ∈ p.workers → jobs.length ≤ p.next
  staffed : p.workers = [] → jobs = []

variable {jobs : List α} {Right : α → β → Prop} {p p' : Pool β} {w : ℕ}

theorem sound_init (jobs : List α) (Right : α → β → Prop) {workers : ℕ}
    (h : workers = 0 → jobs = []) : Sound jobs Right (Pool.init jobs.length workers) := by
  refine ⟨List.length_replicate, fun i _ _ _ hs => ?_, fun i hi => ?_, fun hd => ?_, fun hs => ?_⟩
  · have := List.mem_of_getElem? hs
    simp [Pool.init] at this
  · simp [Pool.init] at hi
  · simp [Pool.init] at hd
  · exact h (by simpa [Pool.init] using hs)

/-- **Taking a job** keeps a pool sound, as long as what is answered on the spot is right. -/
theorem Sound.take (h : Sound jobs Right p) {immediate : ℕ → Option β}
    (himm : ∀ i job answer, jobs[i]? = some job → immediate i = some answer → Right job answer)
    (ht : p.take w immediate = some p') : Sound jobs Right p' := by
  rw [Pool.take] at ht
  split at ht
  · rename_i hw
    have hfree : ∀ i, Worker.busy i ∈ p.workers → ∀ worker, Worker.busy i ∈ p.workers.set w worker := by
      intro i hi worker
      obtain ⟨j, hj⟩ := List.mem_iff_getElem?.1 hi
      refine List.mem_iff_getElem?.2 ⟨j, ?_⟩
      rw [List.getElem?_set_ne, hj]
      rintro rfl
      rw [hw] at hj
      cases hj
    have hstaff : ∀ worker, p.workers.set w worker = [] → jobs = [] := by
      intro worker hnil
      exact h.staffed (by simpa using congrArg List.length hnil)
    split at ht
    · -- no job is left
      rename_i hge
      cases ht
      refine ⟨h.length, h.right, fun i _ hlen => ?_, fun _ => ?_, hstaff _⟩
      · have hi : i < p.next := by
          rw [h.length] at hge
          omega
        exact (h.taken i hi hlen).imp_right fun hb => hfree i hb _
      · rw [h.length] at hge
        exact hge.trans (Nat.le_succ _)
    · rename_i hlt
      rw [not_le, h.length] at hlt
      split at ht
      · rename_i answer hans
        cases ht
        refine ⟨by rw [List.length_set, h.length], fun i job a hj hs => ?_, fun i hi hlen => ?_,
          fun hd => (h.ended hd).trans (Nat.le_succ _), h.staffed⟩
        · dsimp only at hs
          rw [List.getElem?_set] at hs
          split at hs
          · rename_i heq
            subst heq
            split at hs
            · cases hs
              exact himm _ job answer hj hans
            · cases hs
          · exact h.right i job a hj hs
        · by_cases hieq : i = p.next
          · subst hieq
            exact .inl ⟨answer, List.getElem?_set_self (by rw [h.length]; exact hlt)⟩
          · refine (h.taken i (by dsimp only at hi; omega) hlen).imp_left fun hex => ?_
            obtain ⟨a, ha⟩ := hex
            exact ⟨a, by rw [List.getElem?_set_ne (Ne.symm hieq)]; exact ha⟩
      · cases ht
        refine ⟨h.length, h.right, fun i hi hlen => ?_, fun hd => ?_, hstaff _⟩
        · by_cases hieq : i = p.next
          · refine .inr (List.mem_iff_getElem?.2 ⟨w, ?_⟩)
            rw [List.getElem?_set_self (List.getElem?_eq_some_iff.1 hw).1, hieq]
          · exact (h.taken i (by dsimp only at hi; omega) hlen).imp_right fun hb => hfree i hb _
        · have hd' : Worker.done ∈ p.workers :=
            (List.mem_or_eq_of_mem_set hd).resolve_right (by simp)
          exact (h.ended hd').trans (Nat.le_succ _)
  · cases ht

/-- **Settling a job** keeps a pool sound, as long as the answer is right. -/
theorem Sound.settle (h : Sound jobs Right p) {answer : ℕ → Option β}
    (hans : ∀ i job a, jobs[i]? = some job → answer i = some a → Right job a)
    (hs : p.settle w answer = some p') : Sound jobs Right p' := by
  rw [Pool.settle] at hs
  split at hs
  · rename_i index hw
    obtain ⟨a, ha, rfl⟩ := Option.map_eq_some_iff.1 hs
    refine ⟨by rw [List.length_set, h.length], fun i job b hj hsl => ?_, fun i hi hlen => ?_,
      fun hd => ?_, fun hnil => h.staffed (by simpa using congrArg List.length hnil)⟩
    · dsimp only at hsl
      rw [List.getElem?_set] at hsl
      split at hsl
      · rename_i heq
        subst heq
        split at hsl
        · cases hsl
          exact hans _ job a hj ha
        · cases hsl
      · exact h.right i job b hj hsl
    · by_cases hieq : i = index
      · subst hieq
        exact .inl ⟨a, List.getElem?_set_self (by rw [h.length]; exact hlen)⟩
      · rcases h.taken i hi hlen with ⟨b, hb⟩ | hb
        · exact .inl ⟨b, by rw [List.getElem?_set_ne (Ne.symm hieq)]; exact hb⟩
        · obtain ⟨j, hj⟩ := List.mem_iff_getElem?.1 hb
          refine .inr (List.mem_iff_getElem?.2 ⟨j, ?_⟩)
          rw [List.getElem?_set_ne, hj]
          rintro rfl
          rw [hw] at hj
          cases hj
          exact hieq rfl
    · exact h.ended ((List.mem_or_eq_of_mem_set hd).resolve_right (by simp))
  · cases hs

theorem forall₂_reduceOption {slots : List (Option β)}
    (h : List.Forall₂ (fun job slot => ∃ answer, slot = some answer ∧ Right job answer) jobs slots) :
    List.Forall₂ Right jobs slots.reduceOption := by
  induction h with
  | nil => exact .nil
  | cons hr _ ih =>
    obtain ⟨answer, rfl, hright⟩ := hr
    rw [List.reduceOption_cons_of_some]
    exact .cons hright ih

/-- **When all workers are done, every job has a right answer**, in the order of the jobs. -/
theorem Sound.answers (h : Sound jobs Right p) (hdone : p.isDone = true) :
    List.Forall₂ Right jobs p.answers := by
  have hall : ∀ worker ∈ p.workers, worker = Worker.done := by
    simpa [Pool.isDone] using hdone
  have hnext : jobs.length ≤ p.next := by
    cases hw : p.workers with
    | nil => simp [h.staffed hw]
    | cons worker =>
      have hmem : worker ∈ p.workers := by simp [hw]
      exact h.ended (hall worker hmem ▸ hmem)
  have hslot : ∀ i < jobs.length, ∃ answer, p.slots[i]? = some (some answer) := by
    intro i hi
    refine (h.taken i (hi.trans_le hnext) hi).resolve_right fun hb => ?_
    cases hall _ hb
  -- slot by slot
  have hpairs : List.Forall₂ (fun job slot => ∃ answer, slot = some answer ∧ Right job answer)
      jobs p.slots := by
    rw [List.forall₂_iff_get]
    refine ⟨h.length.symm, fun i h₁ _ => ?_⟩
    obtain ⟨answer, ha⟩ := hslot i h₁
    refine ⟨answer, (List.getElem?_eq_some_iff.1 ha).2, h.right i _ answer ?_ ha⟩
    exact List.getElem?_eq_getElem h₁
  exact forall₂_reduceOption hpairs

end WorkerPool
