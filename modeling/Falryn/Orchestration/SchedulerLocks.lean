import Falryn.Orchestration.SchedulerConsistency

/-!
# Mutual exclusion

The keys held and the count of running units are the accounts of a lock table whose owners are the
entries in state `running`, over all generations.  A launch adds an owner that found its keys free
and a place for itself; a finish removes one; nothing else touches the books.
`mutual_exclusion` is what follows for every reachable state.
-/

namespace Falryn.Orchestration.Scheduler

open Pointwise

variable {Value Receipt : Type} {s s' : Scheduler Value Receipt} {config : SchedulerConfig}

/-! ## Owners -/

/-- The entries in state `running`, over all generations. -/
def runningEntries (s : Scheduler Value Receipt) : List (Entry Value Receipt) :=
  s.entries.filter fun e => e.state = .running

/-- The key lists of the running entries. -/
def owners (s : Scheduler Value Receipt) : List (List String) := s.runningEntries.map Entry.keys

variable {e : Entry Value Receipt} {a b : List (Entry Value Receipt)}

theorem mem_runningEntries : e ∈ s.runningEntries ↔ e ∈ s.entries ∧ e.state = .running := by
  simp [runningEntries]

theorem Quiet.owners {touched : ℕ → ℕ → Prop} (h : Quiet touched s s') : s'.owners = s.owners := by
  refine map_eq_of_forall₂ (R := QuietMove touched s) (fun e e' hm => hm.1.keys)
    (forall₂_filter (fun e e' hm => ?_) h.entries)
  exact decide_eq_decide.2 hm.1.running_iff

theorem Submitted.owners {work : List Submission} (h : s.Submitted s' work) :
    s'.owners = s.owners := by
  obtain ⟨new, gen, hent, -, -, -, -, hfresh, -⟩ := h.added
  have hnil : new.filter (fun e => e.state = .running) = [] := by
    refine List.filter_eq_nil_iff.2 fun e he => ?_
    rcases (hfresh e he).state with ⟨hst, -⟩ | ⟨hst, -⟩ <;> simp [hst]
  rw [Scheduler.owners, runningEntries, hent, List.filter_append, hnil, List.append_nil]
  rfl

/-- The owners when one entry of the list is changed and the others keep their state and keys. -/
theorem owners_around {f : Entry Value Receipt → Entry Value Receipt}
    (hf : ∀ x ∈ a ++ b, (f x).keys = x.keys ∧ ((f x).state = .running ↔ x.state = .running)) :
    (((a ++ e :: b).map f).filter fun x => x.state = .running).map Entry.keys
      = ((a.filter fun x => x.state = .running).map Entry.keys)
        ++ (([f e].filter fun x => x.state = .running).map Entry.keys)
        ++ ((b.filter fun x => x.state = .running).map Entry.keys) := by
  have hpart : ∀ l : List (Entry Value Receipt), l ⊆ a ++ b →
      ((l.map f).filter fun x => x.state = .running).map Entry.keys
        = (l.filter fun x => x.state = .running).map Entry.keys := by
    intro l
    induction l with
    | nil => intro _; rfl
    | cons x l ih =>
      intro hl
      obtain ⟨hx, hl⟩ := List.cons_subset.1 hl
      have hx' := hf x hx
      have hst : decide ((f x).state = .running) = decide (x.state = .running) :=
        decide_eq_decide.2 hx'.2
      rw [List.map_cons, List.filter_cons, List.filter_cons, hst]
      split
      · rw [List.map_cons, List.map_cons, ih hl, hx'.1]
      · exact ih hl
  rw [List.map_append, List.map_cons, ← List.singleton_append, ← List.append_assoc,
    List.filter_append, List.filter_append, List.map_append, List.map_append,
    hpart a (List.subset_append_left a b), hpart b (List.subset_append_right a b)]

theorem Numbered.ne_of_append (hn : s.Numbered) (hs : s.entries = a ++ e :: b) :
    ∀ x ∈ a ++ b, x.arrival ≠ e.arrival := by
  have hnd := hn.nodup
  rw [hs, (List.perm_middle.map _).nodup_iff, List.map_cons, List.nodup_cons] at hnd
  exact fun x hx hxe => hnd.1 (hxe ▸ List.mem_map_of_mem hx)

/-- **A launch adds one owner.** -/
theorem owners_launch (hn : s.Numbered) (he : e ∈ s.entries)
    (hready : e.state = .ready) (ledger : BudgetLedger) (reservation : Option String)
    (throws : Bool) :
    ({ s with ledger }.launch e reservation throws).owners.Perm (e.keys :: s.owners) := by
  obtain ⟨a, b, hs⟩ := List.append_of_mem he
  have hf : ∀ x ∈ a ++ b,
      (launchedEntry { s with ledger } e reservation throws x).keys = x.keys ∧
      ((launchedEntry { s with ledger } e reservation throws x).state = .running
        ↔ x.state = .running) := by
    intro x hx
    have h := launchedEntry_of_ne (s := { s with ledger }) (hn.ne_of_append hs x hx) reservation
      throws
    exact ⟨h.1.keys, h.1.running_iff⟩
  have hself := launchedEntry_self (s := { s with ledger }) (x := e) rfl reservation throws
  have hkeys := (launchedEntry_same { s with ledger } e reservation throws e).2.2.2.1
  rw [owners, owners, runningEntries, runningEntries, launch_entries]
  generalize launchedEntry { s with ledger } e reservation throws = f at hf hself hkeys ⊢
  change (List.map Entry.keys (List.filter _ (List.map f s.entries))).Perm _
  have hnew : [f e].filter (fun x => x.state = .running) = [f e] := by simp [hself.1]
  have hold : (a ++ e :: b).filter (fun x => x.state = .running)
      = a.filter (fun x => x.state = .running) ++ b.filter (fun x => x.state = .running) := by
    rw [List.filter_append, List.filter_cons_of_neg (by simp [hready])]
  rw [hs, owners_around hf, hnew, hold, List.map_singleton, hkeys, List.map_append,
    List.append_assoc]
  exact List.perm_middle

/-- **A finish removes its owner.** -/
theorem owners_finish (hn : s.Numbered) (he : e ∈ s.entries)
    (hrun : e.state = .running) (raced : Raced Value) :
    s.owners.Perm (e.keys :: (s.finish e raced).owners) := by
  obtain ⟨a, b, hs⟩ := List.append_of_mem he
  have hf : ∀ x ∈ a ++ b,
      (if x.arrival = e.arrival then finishedEntry raced x else x).keys = x.keys ∧
      ((if x.arrival = e.arrival then finishedEntry raced x else x).state = .running
        ↔ x.state = .running) := by
    intro x hx
    rw [if_neg (hn.ne_of_append hs x hx)]
    exact ⟨rfl, Iff.rfl⟩
  have hnew : [finishedEntry raced e].filter (fun x => x.state = .running) = [] := by
    simp [finishedEntry]
  have hold : (a ++ e :: b).filter (fun x => x.state = .running)
      = a.filter (fun x => x.state = .running) ++ e :: b.filter (fun x => x.state = .running) := by
    rw [List.filter_append, List.filter_cons_of_pos (by simp [hrun])]
  rw [owners, owners, runningEntries, runningEntries, (finish_spec hn he raced).1, hs,
    owners_around hf, if_pos rfl, hnew, hold, List.map_append, List.map_cons, List.map_nil,
    List.append_nil]
  exact List.perm_middle

/-! ## The books -/

/-- The lock table of a scheduler is in order. -/
def LocksOk (config : SchedulerConfig) (s : Scheduler Value Receipt) : Prop :=
  LockTable.Accounts s.owners s.held s.running config.limits.maxConcurrent
    config.limits.maxConcurrentPerKey

/-- **Every step keeps the books.** -/
theorem step_locksOk [DecidableEq Value] {event : SchedulerEvent Value Receipt}
    (hc : s.Consistent) (hl : s.LocksOk config) (h : step config s event = some s') :
    s'.LocksOk config := by
  rw [LocksOk] at hl ⊢
  cases step_cases hc h with
  | quiet _ hq =>
    rw [hq.owners, hq.held, hq.running]
    exact hl
  | scheduled work aborted hs =>
    have hsub := submitted_schedule s config.limits work aborted
    rw [hs, hsub.owners, hsub.held, hsub.running]
    exact hl
  | launched e ledger reservation throws hlaunch _ ha =>
    have howners : s'.owners = ({ s with ledger }.launch e reservation throws).owners := by
      rw [owners, owners, runningEntries, runningEntries, ha.entries]
    have hkeys := hlaunch.keys
    rw [keysAvailable, List.all_eq_true] at hkeys
    rw [howners, ha.held, ha.running]
    exact (hl.acquire hlaunch.room fun k hk => by simpa using hkeys k hk).perm
      (owners_launch hc.numbered hlaunch.mem hlaunch.ready ledger reservation throws).symm
  | finished e raced he hrun _ hs =>
    subst hs
    obtain ⟨-, hheld, hrunning, -, -⟩ := finish_spec hc.numbered he raced
    rw [hheld, hrunning]
    exact (hl.perm (owners_finish hc.numbered he hrun raced)).release
  | ledger _ _ hs =>
    subst hs
    exact hl

theorem reaches_locksOk [DecidableEq Value] {ledger : BudgetLedger}
    {events : List (SchedulerEvent Value Receipt)} (h : Reaches config ledger events s) :
    s.LocksOk config := by
  refine (StateMachine.run_invariant (I := fun t => Consistent t ∧ t.LocksOk config)
    (fun t _ _ ht hstep => ⟨step_consistent ht.1 hstep, step_locksOk ht.1 ht.2 hstep⟩)
    ⟨consistent_createScheduler ledger, LockTable.accounts_nil⟩ h).2

theorem eq_of_countP_le_one {α : Type} {l : List α} {p : α → Bool} (h : l.countP p ≤ 1) {x y : α}
    (hx : x ∈ l) (hy : y ∈ l) (hpx : p x = true) (hpy : p y = true) : x = y := by
  rw [List.countP_eq_length_filter] at h
  have hx' := List.mem_filter.2 ⟨hx, hpx⟩
  have hy' := List.mem_filter.2 ⟨hy, hpy⟩
  match hf : l.filter p, h with
  | [], _ => rw [hf] at hx'; cases hx'
  | [z], _ =>
    rw [hf, List.mem_singleton] at hx' hy'
    rw [hx', hy']

/-- **Mutual exclusion.**  In every state a scheduler can reach, whatever its generations, its
runners, the clock and everybody else do, the count of a key is the number of its occurrences in the
key lists of the running entries, `running` counts these entries and stays within
`maxConcurrent`, and no key has more than `maxConcurrentPerKey` running holders; with one holder a
key, two running entries that share a key are one entry. -/
theorem mutual_exclusion [DecidableEq Value] (config : SchedulerConfig) (ledger : BudgetLedger)
    (events : List (SchedulerEvent Value Receipt)) (s : Scheduler Value Receipt)
    (h : Reaches config ledger events s) :
    (∀ k, s.held k = (s.runningEntries.map fun e => e.keys.count k).sum)
      ∧ s.running = s.runningEntries.length
      ∧ s.running ≤ config.limits.maxConcurrent
      ∧ (∀ k, s.runningEntries.countP (fun e => k ∈ e.keys) ≤ config.limits.maxConcurrentPerKey)
      ∧ (config.limits.maxConcurrentPerKey = 1 → ∀ e ∈ s.runningEntries, ∀ e' ∈ s.runningEntries,
          ∀ k ∈ e.keys, k ∈ e'.keys → e = e') := by
  have hl := reaches_locksOk h
  have hholders : ∀ k, s.runningEntries.countP (fun e => k ∈ e.keys)
      ≤ config.limits.maxConcurrentPerKey := by
    intro k
    have := hl.holders_le k
    rwa [owners, List.countP_map] at this
  refine ⟨fun k => ?_, ?_, hl.running_le, hholders, fun hone e he e' he' k hk hk' => ?_⟩
  · rw [hl.held_eq k, owners, List.map_map]
    rfl
  · rw [hl.running_eq, owners, List.length_map]
  · have hk1 := hholders k
    rw [hone] at hk1
    exact eq_of_countP_le_one hk1 he he' (decide_eq_true hk) (decide_eq_true hk')

/-! ### Two units on one key -/

/-- A unit that writes one file. -/
def writer (id : String) : WorkUnit :=
  { id
    effect := .mutation
    priority := .activeTurn
    conflictKeys := ["file:notes.txt"]
    dependencies := []
    deadline := none
    expectedOutputBytes := 0
    scopeId := none }

def writing (id : String) : Submission := ⟨writer id, 0, 0⟩

def plainConfig : SchedulerConfig := ⟨defaultSchedulerLimits, none⟩

/-- The events of a generation of one unit up to its first await. -/
def startOne (g : ℕ) (id : String) (throws : Bool) : List (SchedulerEvent ℕ Unit) :=
  [.schedule [writing id] false, .loop g (fun _ => 0) (fun _ => 0), .tryReady g .ready "" throws,
    .conclude g fun _ => 0]

/-- The second of two writers waits. -/
theorem two_writers_exclude_each_other : ∃ s : Scheduler ℕ Unit,
    Reaches plainConfig .empty (startOne 0 "first" false ++ startOne 1 "second" false) s
      ∧ s.entries.map Entry.state = [.running, .ready]
      ∧ s.held "file:notes.txt" = (s.runningEntries.map fun e => e.keys.count "file:notes.txt").sum
      ∧ s.running = s.runningEntries.length ∧ s.running ≤ 8 := by
  have hrun : ((StateMachine.run (step plainConfig) (createScheduler .empty)
      (startOne 0 "first" false ++ startOne 1 "second" false)).map
        fun s : Scheduler ℕ Unit => s.entries.map Entry.state) = some [.running, .ready] := by
    decide +kernel
  obtain ⟨s, hs, hst⟩ := Option.map_eq_some_iff.1 hrun
  have h := mutual_exclusion plainConfig .empty _ s hs
  exact ⟨s, hs, hst, h.1 _, h.2.1, h.2.2.1⟩

end Falryn.Orchestration.Scheduler
