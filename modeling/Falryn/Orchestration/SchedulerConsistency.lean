import Falryn.Orchestration.SchedulerRounds

/-!
# Every reachable scheduler is consistent

`Consistent` is an invariant of the step function, so it holds in every state of every run
(`reaches_consistent`).  On the way it is shown that only a submission adds a generation, and that a
step changes the status of no generation but the one whose code it runs, except for waking it.
-/

namespace Falryn.Orchestration.Scheduler

open Pointwise

variable {Value Receipt : Type}

/-! ## Consistency -/

section Consistency

variable {s s' : Scheduler Value Receipt} {config : SchedulerConfig} {g : ℕ}
  {f : Generation Value Receipt → Generation Value Receipt}

theorem consistent_createScheduler (ledger : BudgetLedger) :
    (createScheduler ledger : Scheduler Value Receipt).Consistent := by
  refine ⟨rfl, fun e he => ?_, fun e he => ?_, fun _ _ h => ?_⟩
  · cases he
  · cases he
  · simp [status?, createScheduler] at h

/-- The units every generation was submitted with. -/
def works (s : Scheduler Value Receipt) : List (List WorkUnit) := s.generations.map Generation.work

theorem works_updateGeneration (s : Scheduler Value Receipt) (g : ℕ) (hf : ∀ x, (f x).work = x.work) :
    (s.updateGeneration g f).works = s.works := by
  rw [works, works, updateGeneration]
  refine List.ext_getElem? fun j => ?_
  rw [List.getElem?_map, List.getElem?_map, List.getElem?_modify]
  cases s.generations[j]? with
  | none => rfl
  | some => by_cases h : g = j <;> simp [h, hf]

theorem works_notifyCapacityChanged (s : Scheduler Value Receipt) :
    s.notifyCapacityChanged.works = s.works := by
  rw [works, works, notifyCapacityChanged, List.map_map]
  refine List.map_congr_left fun _ _ => ?_
  rw [Function.comp_apply]
  split <;> rfl

theorem works_setStatus (s : Scheduler Value Receipt) (g : ℕ)
    (status : GenerationStatus Value Receipt) : (s.setStatus g status).works = s.works :=
  works_updateGeneration s g fun _ => rfl

theorem works_finishGeneration (s : Scheduler Value Receipt) (g : ℕ) :
    (s.finishGeneration g).works = s.works := by
  rw [finishGeneration, works_setStatus]
  exact works_notifyCapacityChanged s

theorem generations_promote (now : ℕ → ℕ) (a : ℕ) :
    (s.promote now a).generations = s.generations := by
  rw [promote]
  repeat' split
  all_goals rfl

theorem generations_foldl_promote (now : ℕ → ℕ) (as : List ℕ) : ∀ s : Scheduler Value Receipt,
    (as.foldl (fun s a => s.promote now a) s).generations = s.generations := by
  induction as with
  | nil => intro s; rfl
  | cons a as ih => intro s; rw [List.foldl_cons, ih, generations_promote]

theorem works_loop (limits : SchedulerLimits) (gen : Generation Value Receipt)
    (deadlineNow readyNow : ℕ → ℕ) :
    (s.loop limits g gen deadlineNow readyNow).works = s.works := by
  rw [loop]
  split
  · exact works_finishGeneration s g
  · split
    · split
      · exact works_setStatus _ g _
      · exact works_finishGeneration _ g
    · rw [works_setStatus, works, generations_foldl_promote]
      rfl

theorem works_conclude (limits : SchedulerLimits) (skipped : List ℕ) (now : ℕ → ℕ) :
    (s.conclude limits g skipped now).works = s.works := by
  rw [conclude]
  split
  · exact works_setStatus _ g _
  · split
    · exact works_finishGeneration _ g
    · exact works_setStatus _ g _

theorem works_start (e : Entry Value Receipt) (admission : Admission Receipt)
    (reservationId : String) (throws : Bool) :
    (s.start config e admission reservationId throws).works = s.works := by
  have hlaunch : ∀ (t : Scheduler Value Receipt) reservation,
      (t.launch e reservation throws).works = t.works :=
    fun t reservation => works_updateGeneration t e.generation fun _ => rfl
  cases admission with
  | wait =>
    simp only [start]
    split
    · rfl
    · exact works_notifyCapacityChanged _
  | refused => rfl
  | ready =>
    simp only [start]
    repeat' split
    · exact hlaunch s none
    · rfl
    · exact hlaunch _ _

theorem works_finish (e : Entry Value Receipt) (raced : Raced Value) :
    (s.finish e raced).works = s.works := by
  cases raced <;> exact works_notifyCapacityChanged _

variable {event : SchedulerEvent Value Receipt}

/-- **Only a submission adds a generation.** -/
theorem step_works [DecidableEq Value]
    (h : step config s event = some s') (hne : ∀ work aborted, event ≠ .schedule work aborted) :
    s'.works = s.works := by
  cases step_ok h with
  | schedule work aborted => exact absurd rfl (hne work aborted)
  | loop => exact works_loop _ _ _ _
  | tryReady =>
    rw [tryReady]
    split
    · exact works_setStatus _ _ _
    · rw [works_setStatus, works_start]
      rfl
  | conclude => exact works_conclude _ _ _
  | lockTimer => exact works_setStatus _ _ _
  | finish raced => exact works_finish _ raced
  | forget => exact works_updateGeneration s _ fun _ => rfl
  | abort g =>
    have hw := works_updateGeneration s g (f := fun gen => { gen with aborted := true }) fun _ => rfl
    rw [abort]
    split
    · exact hw
    · exact (works_notifyCapacityChanged _).trans hw
  | capacityChanged => exact works_notifyCapacityChanged _
  | _ => rfl

/-! ## Statuses of other generations -/

/-- Between two states a generation's status stays, or it was parked and is woken or fails. -/
def Follows (s s' : Scheduler Value Receipt) (j : ℕ) : Prop :=
  s'.status? j = s.status? j ∨ ((∃ onCapacity deadline,
    s.status? j = some (.parked onCapacity deadline))
      ∧ (s'.status? j = some .looping ∨ s'.status? j = some .rejected))

variable {j : ℕ}

theorem follows_of_eq (h : s'.status? j = s.status? j) : Follows s s' j := .inl h

theorem Follows.trans {s'' : Scheduler Value Receipt} (h : Follows s s' j)
    (h' : Follows s' s'' j) : Follows s s'' j := by
  rcases h' with h' | ⟨⟨onCapacity, deadline, hp⟩, h'⟩
  · rw [Follows, h']
    exact h
  · rcases h with h | ⟨hp', -⟩
    · exact .inr ⟨⟨onCapacity, deadline, h ▸ hp⟩, h'⟩
    · exact .inr ⟨hp', h'⟩

theorem follows_notifyCapacityChanged (s : Scheduler Value Receipt) (j : ℕ) :
    Follows s s.notifyCapacityChanged j := by
  rw [Follows, status?_notifyCapacityChanged]
  cases hs : s.status? j with
  | none => exact .inl rfl
  | some status =>
    cases status with
    | parked onCapacity deadline =>
      cases onCapacity
      · exact .inl rfl
      · exact .inr ⟨⟨true, deadline, rfl⟩, .inl rfl⟩
    | _ => exact .inl rfl

theorem follows_updateGeneration (s : Scheduler Value Receipt) (g j : ℕ)
    (hf : ∀ x, (f x).status = x.status ∨ ((∃ onCapacity deadline,
      x.status = .parked onCapacity deadline) ∧ ((f x).status = .looping ∨ (f x).status = .rejected))) :
    Follows s (s.updateGeneration g f) j := by
  simp only [Follows, status?, updateGeneration, List.getElem?_modify]
  cases hg : s.generations[j]? with
  | none => exact .inl rfl
  | some gen =>
    by_cases hj : g = j
    · simpa [hj] using hf gen
    · simp [hj]

theorem follows_setStatus_of_ne (s : Scheduler Value Receipt) (h : j ≠ g)
    (status : GenerationStatus Value Receipt) : Follows s (s.setStatus g status) j :=
  follows_of_eq (status?_setStatus_of_ne s status h)

theorem follows_finishGeneration_of_ne (s : Scheduler Value Receipt) (h : j ≠ g) :
    Follows s (s.finishGeneration g) j :=
  (follows_notifyCapacityChanged s j).trans
    ((follows_of_eq rfl).trans (follows_setStatus_of_ne _ h _))

variable {status' : GenerationStatus Value Receipt}

theorem statusOk_of_follows (hf : Follows s s' j) (hs : s'.status? j = some status')
    (hok : ∀ status, s.status? j = some status → s'.StatusOk j status) :
    s'.StatusOk j status' := by
  rcases hf with hf | ⟨-, hf | hf⟩
  · exact hok _ (hf ▸ hs)
  · rw [hf] at hs
    cases hs
    trivial
  · rw [hf] at hs
    cases hs
    trivial

variable {status : GenerationStatus Value Receipt} {limits : SchedulerLimits} {skipped : List ℕ}

/-- The status of a generation that has just got one. -/
theorem status?_setStatus_eq {t : Scheduler Value Receipt}
    (h : (t.setStatus g status).status? g = some status') : status' = status := by
  rw [status?_setStatus_self] at h
  obtain ⟨-, -, rfl⟩ := Option.map_eq_some_iff.1 h
  rfl

theorem statusOk_setStatus :
    (s.setStatus g status).StatusOk j status' ↔ s.StatusOk j status' := Iff.rfl

/-- A quiet step of one generation's own code is not noticed by the others. -/
theorem statuses_of_quiet_of_ne (hc : s.Consistent) (h : Quiet (ofGeneration g) s s')
    (hj : j ≠ g) (hf : Follows s s' j)
    (hs : s'.status? j = some status) : s'.StatusOk j status := by
  refine statusOk_of_follows hf hs fun st hst => (hc.statuses j st hst).quiet h ?_
  intro _ _ _ e _ hgen _ ht
  exact hj (hgen.symm.trans ht)

theorem statusOk_returned (hok : ∀ e ∈ s.entries, EntryOk e) (g : ℕ) :
    s.StatusOk g (.returned ((s.entriesOf g).map Entry.report)) := by
  rw [StatusOk, List.forall₂_map_right_iff, List.forall₂_same]
  exact fun e he => report_ok (hok e (mem_entriesOf.1 he).1)

theorem Quiet.entryOk {touched : ℕ → ℕ → Prop} (h : Quiet touched s s')
    (hok : ∀ e ∈ s.entries, EntryOk e) : ∀ e ∈ s'.entries, EntryOk e := by
  intro e' he'
  obtain ⟨e, he, hq, -⟩ := forall₂_exists_left h.entries he'
  exact (hok e he).quiet hq

/-- A generation that ends reports its entries. -/
theorem statusOk_finishGeneration (hok : ∀ e ∈ s.entries, EntryOk e)
    (hs : (s.finishGeneration g).status? g = some status) :
    (s.finishGeneration g).StatusOk g status := by
  obtain rfl := status?_setStatus_eq hs
  exact (statusOk_returned hok g).quiet (quiet_finishGeneration s g : Quiet nothing _ _)
    nofun

/-! ## One generation's own steps -/

theorem generations_expire (s : Scheduler Value Receipt) (g : ℕ) (now : ℕ → ℕ) :
    (s.expire g now).generations = s.generations := rfl

theorem admissionOrder_ok (hn : s.Numbered) (limits : SchedulerLimits) (g : ℕ)
    (skipped : List ℕ) : s.StatusOk g (.admitting (s.admissionOrder limits g) skipped) := by
  constructor
  · have hperm := List.perm_insertionSort
      (fun left right => admitsBefore limits left right = true)
      ((s.entriesOf g).filter fun e => e.state = .ready)
    rw [admissionOrder, (hperm.map _).nodup_iff]
    exact hn.nodup.sublist
      (((List.filter_sublist (l := s.entriesOf g)).trans List.filter_sublist).map _)
  · intro a ha
    obtain ⟨e, he, rfl⟩ := List.mem_map.1 ha
    rw [List.mem_insertionSort, List.mem_filter, mem_entriesOf, decide_eq_true_eq] at he
    exact ⟨e, he.1.1, rfl, he.1.2, he.2⟩

theorem follows_loop_of_ne (limits : SchedulerLimits) (gen : Generation Value Receipt)
    (deadlineNow readyNow : ℕ → ℕ) (hj : j ≠ g) :
    Follows s (s.loop limits g gen deadlineNow readyNow) j := by
  rw [loop]
  split
  · exact follows_finishGeneration_of_ne s hj
  · split
    · split
      · exact (follows_of_eq rfl).trans (follows_setStatus_of_ne _ hj _)
      · exact (follows_of_eq rfl).trans (follows_finishGeneration_of_ne _ hj)
    · refine Follows.trans (follows_of_eq ?_) (follows_setStatus_of_ne _ hj _)
      rw [status?, generations_foldl_promote]
      rfl

theorem statuses_loop (hc : s.Consistent)
    {gen : Generation Value Receipt} {deadlineNow readyNow : ℕ → ℕ}
    (hs : (s.loop limits g gen deadlineNow readyNow).status? j = some status) :
    (s.loop limits g gen deadlineNow readyNow).StatusOk j status := by
  have hquiet := quiet_loop (g := g) hc.numbered limits gen deadlineNow readyNow
  by_cases hj : j = g
  · subst hj
    have hnum := hquiet.numbered hc.numbered
    clear hquiet
    revert hs hnum
    rw [loop]
    split
    · exact fun hs _ => statusOk_finishGeneration hc.entries hs
    · split
      · split
        · intro hs _
          obtain rfl := status?_setStatus_eq hs
          trivial
        · exact fun hs _ =>
            statusOk_finishGeneration ((quiet_settleQueued s j).entryOk hc.entries) hs
      · intro hs hnum
        obtain rfl := status?_setStatus_eq hs
        exact admissionOrder_ok (s := Scheduler.setStatus _ j _) hnum limits j []
  · exact statuses_of_quiet_of_ne hc hquiet hj (follows_loop_of_ne _ _ _ _ hj) hs

theorem follows_conclude_of_ne (limits : SchedulerLimits) (skipped : List ℕ) (now : ℕ → ℕ)
    (hj : j ≠ g) : Follows s (s.conclude limits g skipped now) j := by
  rw [conclude]
  split
  · exact (follows_of_eq rfl).trans (follows_setStatus_of_ne _ hj _)
  · split
    · exact (follows_of_eq rfl).trans (follows_finishGeneration_of_ne _ hj)
    · exact (follows_of_eq rfl).trans (follows_setStatus_of_ne _ hj _)

theorem statuses_conclude (hc : s.Consistent) {now : ℕ → ℕ}
    (hs : (s.conclude limits g skipped now).status? j = some status) :
    (s.conclude limits g skipped now).StatusOk j status := by
  have hquiet := quiet_conclude s limits g skipped now
  have h := (quiet_syncWaiting s g).trans (quiet_refuseLate _ limits g skipped now)
  by_cases hj : j = g
  · subst hj
    clear hquiet
    revert hs
    rw [conclude]
    split
    · intro hs
      obtain rfl := status?_setStatus_eq hs
      trivial
    · split
      · exact fun hs => statusOk_finishGeneration (h.entryOk hc.entries) hs
      · intro hs
        obtain rfl := status?_setStatus_eq hs
        trivial
  · exact statuses_of_quiet_of_ne hc hquiet hj (follows_conclude_of_ne _ _ _ hj) hs

/-! ## The admission loop -/

theorem follows_start (e : Entry Value Receipt) (admission : Admission Receipt)
    (reservationId : String) (throws : Bool) (j : ℕ) :
    Follows s (s.start config e admission reservationId throws) j := by
  have hlaunch : ∀ (t : Scheduler Value Receipt) reservation,
      Follows t (t.launch e reservation throws) j := by
    intro t reservation
    have h := follows_updateGeneration t e.generation j
      (f := fun gen => { gen with inflight := gen.inflight ++ [e.arrival] }) fun _ => .inl rfl
    exact h.trans (follows_of_eq rfl)
  cases admission with
  | wait =>
    simp only [start]
    split
    · exact follows_of_eq rfl
    · exact (follows_of_eq rfl).trans (follows_notifyCapacityChanged _ j)
  | refused => exact follows_of_eq rfl
  | ready =>
    simp only [start]
    repeat' split
    · exact hlaunch s none
    · exact follows_of_eq rfl
    · exact (follows_of_eq rfl).trans (hlaunch _ _)

variable {e : Entry Value Receipt} {throws : Bool} {admission : Admission Receipt}
  {reservationId : String}

/-- Starting an entry is noticed by no generation that does not still want to try it. -/
theorem statusOk_start (hc : s.Consistent) (he : e ∈ s.entries)
    (hready : e.state = .ready) (hok : s.StatusOk j status)
    (hnot : ∀ ordered skipped, status = .admitting ordered skipped → e.generation = j →
      e.arrival ∉ ordered)
    (hret : ∀ results, status = .returned results → e.generation ≠ j) :
    (s.start config e admission reservationId throws).StatusOk j status := by
  have hn := hc.numbered
  rcases start_cases config hn he hready admission reservationId throws with
    hquiet | ⟨ledger, reservation, -, hstart⟩
  · refine hok.quiet hquiet fun ordered skipped hst x hx hgen hmem ht => ?_
    obtain rfl := hn.eq_of_arrival hx he ht
    exact hnot _ _ hst hgen hmem
  · rw [hstart]
    have hmap : List.Forall₂
        (fun x y => x ∈ s.entries ∧ y = launchedEntry { s with ledger } e reservation throws x)
        s.entries ({ s with ledger }.launch e reservation throws).entries :=
      forall₂_map_self fun x hx => ⟨hx, rfl⟩
    refine hok.of_forall₂ hmap ?_ ?_ ?_
    · rintro x _ ⟨-, rfl⟩
      rw [launchedEntry]
      repeat' split
      all_goals exact ⟨rfl, rfl, rfl⟩
    · rintro ordered skipped hst x hx _ ⟨-, rfl⟩ hgen hmem hr
      by_cases hxe : x.arrival = e.arrival
      · obtain rfl := hn.eq_of_arrival hx he hxe
        exact absurd hmem (hnot _ _ hst hgen)
      · have h := launchedEntry_of_ne (s := { s with ledger }) hxe reservation throws
        rw [(h.1.state_of_not_touched fun hf => hf).1]
        exact hr
    · rintro results hst x hx _ ⟨-, rfl⟩ hgen hi
      have hxe : x.arrival ≠ e.arrival := by
        intro hxe
        obtain rfl := hn.eq_of_arrival hx he hxe
        exact hret results hst hgen
      exact (launchedEntry_of_ne (s := { s with ledger }) hxe reservation throws).1.idle.2 hi

theorem statuses_tryReady (hc : s.Consistent) {rest : List ℕ}
    (hst : s.status? g = some (.admitting (e.arrival :: rest) skipped)) (he : e ∈ s.entries)
    (hs : (s.tryReady config g e rest skipped admission reservationId throws).status? j = some status) :
    (s.tryReady config g e rest skipped admission reservationId throws).StatusOk j status := by
  obtain ⟨hnodup, hall⟩ := hc.statuses g _ hst
  obtain ⟨e₁, he₁, ha, hgen, hready⟩ := hall e.arrival List.mem_cons_self
  obtain rfl := hc.numbered.eq_of_arrival he₁ he ha
  have hrest : ∀ skipped', s.StatusOk g (.admitting rest skipped') := fun skipped' =>
    ⟨(List.nodup_cons.1 hnodup).2, fun a ha => hall a (List.mem_cons_of_mem _ ha)⟩
  revert hs
  rw [tryReady]
  split
  · intro hs
    by_cases hj : j = g
    · subst hj
      obtain rfl := status?_setStatus_eq hs
      exact hrest (skipped ++ [e₁.arrival])
    · rw [status?_setStatus_of_ne _ _ hj] at hs
      exact hc.statuses j status hs
  · intro hs
    have hc₁ : (s.countPromotion config.limits e₁).Consistent :=
      ⟨hc.numbered, hc.entries, hc.generation_lt, hc.statuses⟩
    by_cases hj : j = g
    · subst hj
      obtain rfl := status?_setStatus_eq hs
      -- which entries were passed over does not matter
      have hnot : ∀ ordered skipped',
          (GenerationStatus.admitting rest [] : GenerationStatus Value Receipt)
            = .admitting ordered skipped' → e₁.generation = j → e₁.arrival ∉ ordered := by
        intro ordered _ h _
        cases h
        exact (List.nodup_cons.1 hnodup).1
      have hok : ((s.countPromotion config.limits e₁).start config e₁ admission reservationId
          throws).StatusOk j (.admitting rest []) :=
        statusOk_start hc₁ he hready (hrest []) hnot (by simp)
      exact ⟨hok.1, hok.2⟩
    · rw [status?_setStatus_of_ne _ _ hj] at hs
      have hgj : e₁.generation ≠ j := fun h => hj (h.symm.trans hgen)
      refine statusOk_setStatus.2 (statusOk_of_follows
        (follows_start (s := s.countPromotion config.limits e₁) e₁ _ _ _ j) hs fun st hst' => ?_)
      exact statusOk_start hc₁ he hready (hc.statuses j st hst') (fun _ _ _ h => absurd h hgj)
        fun _ _ => hgj

/-! ## Submissions -/

theorem getElem?_status_append (l : List (Generation Value Receipt)) (gen : Generation Value Receipt)
    (j : ℕ) : ((l ++ [gen])[j]?).map Generation.status
      = if j < l.length then (l[j]?).map Generation.status
        else if j = l.length then some gen.status else none := by
  by_cases h : j < l.length
  · rw [List.getElem?_append_left h, if_pos h]
  · rw [List.getElem?_append_right (by omega), if_neg h]
    by_cases h' : j = l.length
    · simp [h']
    · rw [if_neg h', List.getElem?_eq_none (by simp; omega)]
      rfl

/-- A fresh entry: it has not run. -/
structure Fresh (s : Scheduler Value Receipt) (e : Entry Value Receipt) : Prop where
  generation : e.generation = s.generations.length
  runner : e.runner = .idle
  reservation : e.reservation = none
  state : (e.state = .blocked ∧ e.result = none) ∨ (e.state = .settled ∧
    ∃ r, e.result = some r ∧ r.isCompleted = false ∧ r.unitId = e.unit.id)

theorem Fresh.ok (h : s.Fresh e) : EntryOk e := by
  rcases h.state with ⟨hb, hr⟩ | ⟨hset, r, hr, -, hid⟩
  · exact ⟨fun _ => ⟨h.runner, hr, h.reservation⟩, fun hrun => by simp [hb] at hrun,
      fun r hr' => by simp [hr] at hr'⟩
  · refine ⟨fun hq => ?_, fun hrun => by simp [hset] at hrun, fun _ hr' => ?_⟩
    · rw [Entry.isQueued_iff, hset] at hq
      simp at hq
    · rw [hr] at hr'
      cases hr'
      exact ⟨hid, fun _ => h.runner⟩

/-- What a submission adds. -/
structure Submitted (s s' : Scheduler Value Receipt) (work : List Submission) : Prop where
  held : s'.held = s.held
  running : s'.running = s.running
  ledger : s'.ledger = s.ledger
  log : s'.log = s.log
  added : ∃ new gen, s'.entries = s.entries ++ new ∧ s'.generations = s.generations ++ [gen]
    ∧ gen.work = work.map Submission.unit ∧ new.map Entry.unit = work.map Submission.unit
    ∧ new.map Entry.arrival = List.range' s.entries.length work.length
    ∧ (∀ e ∈ new, s.Fresh e)
    ∧ (gen.status = .looping ∨ ∃ results, gen.status = .returned results
        ∧ results.map SchedulingResult.unitId = work.map (fun item => item.unit.id)
        ∧ results.all SchedulingResult.isRefused = true)

theorem newEntries_unit (work : List Submission) (g first : ℕ) :
    (newEntries work g first : List (Entry Value Receipt)).map Entry.unit
      = work.map Submission.unit := by
  refine List.ext_getElem? fun _ => ?_
  simp [newEntries, Submission.toEntry, Function.comp_def]

theorem newEntries_arrival (work : List Submission) (g first : ℕ) :
    (newEntries work g first : List (Entry Value Receipt)).map Entry.arrival
      = List.range' first work.length := by
  refine List.ext_getElem? fun i => ?_
  simp only [newEntries, List.getElem?_map, List.getElem?_mapIdx, Option.map_map]
  by_cases h : i < work.length
  · simp [h, Submission.toEntry]
  · simp [h]

variable {work : List Submission} {ledger : BudgetLedger}

theorem mem_newEntries {first : ℕ}
    (h : e ∈ newEntries work g first) : ∃ item ∈ work, ∃ arrival, e = item.toEntry g arrival := by
  obtain ⟨i, hi, rfl⟩ := List.mem_mapIdx.1 h
  exact ⟨work[i], List.getElem_mem hi, first + i, rfl⟩

theorem submitted_schedule (s : Scheduler Value Receipt) (limits : SchedulerLimits)
    (work : List Submission) (aborted : Bool) :
    s.Submitted (s.schedule limits work aborted) work := by
  have hfresh : ∀ e ∈ newEntries work s.generations.length s.entries.length, s.Fresh e := by
    intro e he
    obtain ⟨item, -, arrival, rfl⟩ := mem_newEntries he
    exact ⟨rfl, rfl, rfl, .inl ⟨rfl, rfl⟩⟩
  have hrefused : ∀ error : WorkUnit → SchedulingError Receipt,
      ((work.map fun item => (.refused item.unit.id (error item.unit) refusedOutcome
          (recoveryFor (error item.unit)) : SchedulingResult Value Receipt)).map
        SchedulingResult.unitId = work.map fun item => item.unit.id)
      ∧ (work.map fun item => (.refused item.unit.id (error item.unit) refusedOutcome
          (recoveryFor (error item.unit)) : SchedulingResult Value Receipt)).all
        SchedulingResult.isRefused = true := by
    intro error
    rw [List.map_map, List.all_map]
    refine ⟨rfl, List.all_eq_true.2 fun _ _ => rfl⟩
  rw [schedule]
  split
  · rename_i error _
    exact ⟨rfl, rfl, rfl, rfl, _, _, rfl, rfl, rfl, newEntries_unit _ _ _,
      newEntries_arrival _ _ _, hfresh, .inr ⟨_, rfl, hrefused fun _ => error⟩⟩
  · split
    · rename_i dimension _
      refine ⟨rfl, rfl, rfl, rfl, _, _, rfl, rfl, rfl, ?_, ?_, ?_,
        .inr ⟨_, rfl, hrefused fun unit => .queueLimit unit.id dimension⟩⟩
      · rw [List.map_map, ← newEntries_unit work s.generations.length s.entries.length]
        rfl
      · rw [List.map_map, ← newEntries_arrival work s.generations.length s.entries.length]
        rfl
      · intro e he
        obtain ⟨x, hx, rfl⟩ := List.mem_map.1 he
        have h := hfresh x hx
        exact ⟨h.generation, h.runner, h.reservation, .inr ⟨rfl, _, rfl, rfl, rfl⟩⟩
    · refine ⟨rfl, rfl, rfl, rfl, _, _, rfl, rfl, rfl, ?_, ?_, ?_, .inl rfl⟩
      · rw [List.map_map, ← newEntries_unit work s.generations.length s.entries.length]
        rfl
      · rw [List.map_map, ← newEntries_arrival work s.generations.length s.entries.length]
        rfl
      · intro e he
        obtain ⟨x, hx, rfl⟩ := List.mem_map.1 he
        have h := hfresh x hx
        exact ⟨h.generation, h.runner, h.reservation, h.state⟩

/-! ## The invariant -/

theorem Submitted.entriesOf_of_lt (h : s.Submitted s' work)
    (hj : j < s.generations.length) : s'.entriesOf j = s.entriesOf j := by
  obtain ⟨new, gen, hent, -, -, -, -, hfresh, -⟩ := h.added
  have hnil : new.filter (fun e => e.generation = j) = [] := by
    refine List.filter_eq_nil_iff.2 fun e he => ?_
    have hg := (hfresh e he).generation
    simp only [decide_eq_true_eq]
    omega
  rw [entriesOf, entriesOf, hent, List.filter_append, hnil, List.append_nil]

theorem Submitted.entriesOf_new (hc : s.Consistent) (h : s.Submitted s' work) :
    ∃ new, s'.entriesOf s.generations.length = new ∧ s'.entries = s.entries ++ new
      ∧ new.map Entry.unit = work.map Submission.unit ∧ ∀ e ∈ new, s.Fresh e := by
  obtain ⟨new, gen, hent, -, -, hunit, -, hfresh, -⟩ := h.added
  refine ⟨new, ?_, hent, hunit, hfresh⟩
  have hnil : s.entries.filter (fun e => e.generation = s.generations.length) = [] := by
    refine List.filter_eq_nil_iff.2 fun e he => ?_
    have hg := hc.generation_lt e he
    simp only [decide_eq_true_eq]
    omega
  rw [entriesOf, hent, List.filter_append, hnil, List.nil_append, List.filter_eq_self]
  exact fun e he => decide_eq_true (hfresh e he).generation

theorem Submitted.consistent (hc : s.Consistent) (h : s.Submitted s' work) : s'.Consistent := by
  obtain ⟨new, gen, hent, hgen, -, hunit, harr, hfresh, hstatus⟩ := h.added
  refine ⟨?_, fun e he => ?_, fun e he => ?_, fun j status hs => ?_⟩
  · have hlen : new.length = work.length := by
      have := congrArg List.length hunit
      simpa using this
    rw [Numbered, hent, List.map_append, hc.numbered, harr, List.length_append, hlen,
      List.range_eq_range', List.range_eq_range']
    have := List.range'_append_1 (s := 0) (m := s.entries.length) (n := work.length)
    rwa [Nat.zero_add] at this
  · rw [hent] at he
    rcases List.mem_append.1 he with he | he
    · exact hc.entries e he
    · exact (hfresh e he).ok
  · rw [hgen, List.length_append, List.length_singleton]
    rw [hent] at he
    rcases List.mem_append.1 he with he | he
    · have := hc.generation_lt e he
      omega
    · have := (hfresh e he).generation
      omega
  · rw [status?, hgen, getElem?_status_append] at hs
    split at hs
    · rename_i hj
      have hok := hc.statuses j status hs
      cases status with
      | admitting =>
        refine ⟨hok.1, fun a ha => ?_⟩
        obtain ⟨e, he, hrest⟩ := hok.2 a ha
        exact ⟨e, hent ▸ List.mem_append_left _ he, hrest⟩
      | returned results =>
        rw [StatusOk, h.entriesOf_of_lt hj]
        exact hok
      | _ => trivial
    · split at hs
      · rename_i hj
        subst hj
        cases hs
        rcases hstatus with hst | ⟨results, hst, hids, -⟩
        · rw [hst]
          trivial
        · obtain ⟨new', hnew', -, hunit', hfresh'⟩ := h.entriesOf_new hc
          rw [hst, StatusOk, hnew']
          have hmap : new'.map (fun e => e.unit.id) = results.map SchedulingResult.unitId := by
            rw [hids, ← Function.comp_def WorkUnit.id Entry.unit, ← List.map_map, hunit',
              List.map_map]
            rfl
          rw [List.forall₂_iff_get]
          have hl : new'.length = results.length := by simpa using congrArg List.length hmap
          refine ⟨hl, fun i h₁ h₂ => ⟨?_, fun _ => (hfresh' _ (List.getElem_mem h₁)).runner⟩⟩
          have hi := congrArg (fun l => l[i]?) hmap
          simp only [List.getElem?_map, List.getElem?_eq_getElem h₁,
            List.getElem?_eq_getElem h₂, Option.map_some, Option.some.injEq] at hi
          exact hi.symm
      · cases hs

theorem launchedEntry_same (s : Scheduler Value Receipt) (e : Entry Value Receipt)
    (reservation : Option String) (throws : Bool) (x : Entry Value Receipt) :
    (s.launchedEntry e reservation throws x).unit = x.unit
      ∧ (s.launchedEntry e reservation throws x).generation = x.generation
      ∧ (s.launchedEntry e reservation throws x).arrival = x.arrival
      ∧ (s.launchedEntry e reservation throws x).keys = x.keys
      ∧ (s.launchedEntry e reservation throws x).result = x.result := by
  rw [launchedEntry]
  repeat' split
  all_goals exact ⟨rfl, rfl, rfl, rfl, rfl⟩

theorem launchedEntry_self {x : Entry Value Receipt}
    (h : x.arrival = e.arrival) (reservation : Option String) (throws : Bool) :
    (s.launchedEntry e reservation throws x).state = .running
      ∧ (s.launchedEntry e reservation throws x).reservation = reservation
      ∧ (s.launchedEntry e reservation throws x).runner = if throws then .threw else .pending := by
  rw [launchedEntry, if_pos h]
  exact ⟨rfl, rfl, rfl⟩

/-- The entries of a launch or of a finish are in order, well formed and of known generations. -/
theorem entries_of_map (hc : s.Consistent) {f : Entry Value Receipt → Entry Value Receipt}
    (hent : s'.entries = s.entries.map f) (hworks : s'.works = s.works)
    (hf : ∀ e, (f e).generation = e.generation ∧ (f e).arrival = e.arrival)
    (hok : ∀ e ∈ s.entries, EntryOk (f e)) :
    s'.Numbered ∧ (∀ e ∈ s'.entries, EntryOk e)
      ∧ ∀ e ∈ s'.entries, e.generation < s'.generations.length := by
  have hlen : s'.generations.length = s.generations.length := by
    have := congrArg List.length hworks
    rwa [works, works, List.length_map, List.length_map] at this
  refine ⟨?_, fun e he => ?_, fun e he => ?_⟩
  · rw [Numbered, hent, List.map_map, List.length_map, ← hc.numbered]
    exact List.map_congr_left fun e _ => (hf e).2
  · rw [hent] at he
    obtain ⟨x, hx, rfl⟩ := List.mem_map.1 he
    exact hok x hx
  · rw [hent] at he
    obtain ⟨x, hx, rfl⟩ := List.mem_map.1 he
    rw [(hf x).1, hlen]
    exact hc.generation_lt x hx

theorem entryOk_launched (hc : s.Consistent) (he : e ∈ s.entries)
    (hready : e.state = .ready) {reservation : Option String} :
    ∀ x ∈ s.entries, EntryOk (launchedEntry { s with ledger } e reservation throws x) := by
  intro x hx
  by_cases hxe : x.arrival = e.arrival
  · obtain rfl := hc.numbered.eq_of_arrival hx he hxe
    obtain ⟨hst, -, hrun⟩ := launchedEntry_self (s := { s with ledger }) hxe reservation throws
    obtain ⟨-, hres, -⟩ := (hc.entries x hx).queued (Entry.isQueued_iff.2 (.inr hready))
    have hres' := (launchedEntry_same { s with ledger } x reservation throws x).2.2.2.2
    refine ⟨fun hq => ?_, fun _ => ⟨?_, hres'.trans hres⟩, fun _ hr => ?_⟩
    · rw [Entry.isQueued_iff, hst] at hq
      simp at hq
    · rw [hrun]
      split <;> simp
    · rw [hres', hres] at hr
      cases hr
  · exact (hc.entries x hx).quiet (launchedEntry_of_ne hxe reservation throws).1

theorem entryOk_finished (hc : s.Consistent) (he : e ∈ s.entries)
    (hrun : e.state = .running) (raced : Raced Value) :
    ∀ x ∈ s.entries, EntryOk (if x.arrival = e.arrival then finishedEntry raced x else x) := by
  intro x hx
  split
  · rename_i hxe
    obtain rfl := hc.numbered.eq_of_arrival hx he hxe
    refine ⟨fun hq => ?_, (fun hr => by cases hr), fun _ hr => ?_⟩
    · rw [Entry.isQueued_iff] at hq
      simp [finishedEntry] at hq
    · cases raced <;> cases hr <;> exact ⟨rfl, fun hr => by cases hr⟩
  · exact hc.entries x hx

/-- What finishing a unit leaves of another generation's status. -/
theorem statusOk_finish (hc : s.Consistent) (he : e ∈ s.entries)
    (hrun : e.state = .running) (raced : Raced Value) (hok : s.StatusOk j status) :
    (s.finish e raced).StatusOk j status := by
  have hent := (finish_spec hc.numbered he raced).1
  have hmap : List.Forall₂ (fun x y => x ∈ s.entries
      ∧ y = if x.arrival = e.arrival then finishedEntry raced x else x) s.entries
      (s.finish e raced).entries := by
    rw [hent]
    exact forall₂_map_self fun x hx => ⟨hx, rfl⟩
  refine hok.of_forall₂ hmap ?_ ?_ ?_
  · rintro x _ ⟨-, rfl⟩
    split <;> exact ⟨rfl, rfl, rfl⟩
  · rintro _ _ - x hx _ ⟨-, rfl⟩ - - hr
    split
    · rename_i hxe
      obtain rfl := hc.numbered.eq_of_arrival hx he hxe
      rw [hrun] at hr
      cases hr
    · exact hr
  · rintro _ - x hx _ ⟨-, rfl⟩ - hi
    split <;> exact hi

theorem follows_finish (e : Entry Value Receipt) (raced : Raced Value) (j : ℕ) :
    Follows s (s.finish e raced) j := by
  cases raced <;> exact (follows_of_eq rfl).trans (follows_notifyCapacityChanged _ j)

theorem follows_forget (e : Entry Value Receipt) (j : ℕ) : Follows s (s.forget e) j := by
  refine follows_updateGeneration s _ j fun _ => ?_
  dsimp only
  split
  · rename_i onCapacity deadline hp
    split
    · exact .inr ⟨⟨onCapacity, deadline, hp⟩, .inr rfl⟩
    · exact .inr ⟨⟨onCapacity, deadline, hp⟩, .inl rfl⟩
  · exact .inl rfl

theorem follows_abort (g j : ℕ) : Follows s (s.abort g) j := by
  have hf : Follows s (s.updateGeneration g fun gen => { gen with aborted := true }) j :=
    follows_updateGeneration s g j fun _ => .inl rfl
  rw [abort]
  split
  · exact hf.trans (follows_of_eq rfl)
  · exact (hf.trans (follows_of_eq rfl)).trans (follows_notifyCapacityChanged _ j)

/-- A generation whose loop runs has not returned. -/
theorem step_runs [DecidableEq Value] (h : step config s event = some s') (hr : event.runs = some g) :
    ∃ status, s.status? g = some status ∧ ∀ results, status ≠ .returned results := by
  cases step_ok h with
  | loop _ _ hgen hst =>
    cases hr
    exact ⟨.looping, by rw [status?, hgen, Option.map_some, hst], fun _ => by simp⟩
  | tryReady _ _ _ _ hst | conclude _ hst =>
    cases hr
    exact ⟨_, hst, fun _ => by simp⟩
  | _ => cases hr

/-- A step is followed by every generation whose loop it does not run. -/
theorem step_follows [DecidableEq Value] (h : step config s event = some s')
    (hs : ∀ work aborted, event ≠ .schedule work aborted) (hj : event.runs ≠ some j) :
    Follows s s' j := by
  have hne : ∀ {g}, event.runs = some g → j ≠ g := fun hr h => hj (h ▸ hr)
  cases step_ok h with
  | schedule work aborted => exact absurd rfl (hs work aborted)
  | loop => exact follows_loop_of_ne _ _ _ _ (hne rfl)
  | @tryReady _ e =>
    rw [tryReady]
    split
    · exact follows_setStatus_of_ne _ (hne rfl) _
    · exact (follows_start (s := s.countPromotion config.limits e) e _ _ _ j).trans
        (follows_setStatus_of_ne _ (hne rfl) _)
  | conclude => exact follows_conclude_of_ne _ _ _ (hne rfl)
  | @lockTimer g _ _ _ hst =>
    by_cases hj : j = g
    · subst hj
      refine .inr ⟨⟨_, _, hst⟩, .inl ?_⟩
      rw [status?_setStatus_self, hst]
      rfl
    · exact follows_setStatus_of_ne _ hj _
  | finish raced => exact follows_finish _ raced j
  | forget e => exact follows_forget e j
  | abort g => exact follows_abort g j
  | capacityChanged => exact (follows_of_eq rfl).trans (follows_notifyCapacityChanged _ j)
  | _ => exact follows_of_eq rfl

/-- Statuses survive a step that moves no entry. -/
theorem statuses_of_quiet_nothing (hc : s.Consistent) (h : Quiet nothing s s') (hf : Follows s s' j)
    (hs : s'.status? j = some status) : s'.StatusOk j status :=
  statusOk_of_follows hf hs fun st hst => (hc.statuses j st hst).quiet h fun _ _ _ _ _ _ _ h => h

theorem step_statuses [DecidableEq Value]
    (hc : s.Consistent) (h : step config s event = some s') (hs : s'.status? j = some status) :
    s'.StatusOk j status := by
  have hn := hc.numbered
  cases step_ok h with
  | schedule work aborted => exact ((submitted_schedule s _ work aborted).consistent hc).statuses j status hs
  | loop => exact statuses_loop hc hs
  | tryReady _ _ _ hmem hst => exact statuses_tryReady hc hst hmem hs
  | conclude => exact statuses_conclude hc hs
  | @lockTimer g =>
    by_cases hj : j = g
    · subst hj
      obtain rfl := status?_setStatus_eq hs
      trivial
    · rw [status?_setStatus_of_ne _ _ hj] at hs
      exact statusOk_setStatus.2 (hc.statuses j status hs)
  | fulfil _ hmem hpending | reject hmem hpending =>
    exact statuses_of_quiet_nothing hc (quiet_runner hn hmem hpending (by simp) (by simp))
      (follows_of_eq rfl) hs
  | reportPartial arrival value =>
    exact statuses_of_quiet_nothing hc (quiet_reportPartial s arrival value) (follows_of_eq rfl) hs
  | finish raced _ hmem hrunning =>
    exact statusOk_of_follows (follows_finish _ raced j) hs fun st hst =>
      statusOk_finish hc hmem hrunning raced (hc.statuses j st hst)
  | forget e => exact statuses_of_quiet_nothing hc (quiet_forget s e) (follows_forget e j) hs
  | abort g => exact statuses_of_quiet_nothing hc (quiet_abort s g) (follows_abort g j) hs
  | cancelScope scopeId =>
    exact statuses_of_quiet_nothing hc (quiet_cancelScope s scopeId) (follows_of_eq rfl) hs
  | capacityChanged =>
    exact statuses_of_quiet_nothing hc (quiet_capacityChanged s)
      ((follows_of_eq rfl).trans (follows_notifyCapacityChanged _ j)) hs
  | ledgerCall => exact hc.statuses j status hs

/-- **Consistency is kept by every step.** -/
theorem step_consistent [DecidableEq Value]
    (hc : s.Consistent) (h : step config s event = some s') : s'.Consistent := by
  by_cases hev : ∃ work aborted, event = .schedule work aborted
  · obtain ⟨work, aborted, rfl⟩ := hev
    cases h
    exact (submitted_schedule s _ work aborted).consistent hc
  have hworks := step_works h fun work aborted he => hev ⟨work, aborted, he⟩
  have hstatuses : ∀ j status, s'.status? j = some status → s'.StatusOk j status :=
    fun j status => step_statuses hc h
  suffices hrest : s'.Numbered ∧ (∀ e ∈ s'.entries, EntryOk e)
      ∧ ∀ e ∈ s'.entries, e.generation < s'.generations.length from
    ⟨hrest.1, hrest.2.1, hrest.2.2, hstatuses⟩
  cases step_cases hc h with
  | quiet _ hq =>
    have hlen : s'.generations.length = s.generations.length := by
      have := congrArg List.length hworks
      rwa [works, works, List.length_map, List.length_map] at this
    refine ⟨hq.numbered hc.numbered, hq.entryOk hc.entries, fun _ he' => ?_⟩
    obtain ⟨e, he, hm, -⟩ := forall₂_exists_left hq.entries he'
    rw [hm.generation, hlen]
    exact hc.generation_lt e he
  | scheduled work aborted hs =>
    have hcons := (submitted_schedule s config.limits work aborted).consistent hc
    rw [hs]
    exact ⟨hcons.numbered, hcons.entries, hcons.generation_lt⟩
  | launched e ledger reservation throws hl _ ha =>
    exact entries_of_map hc ha.entries hworks
      (fun x => ⟨(launchedEntry_same _ e reservation throws x).2.1,
        (launchedEntry_same _ e reservation throws x).2.2.1⟩)
      (entryOk_launched hc hl.mem hl.ready)
  | finished e raced he hrun _ hs =>
    subst hs
    refine entries_of_map hc (finish_spec hc.numbered he raced).1 hworks (fun x => ?_)
      (entryOk_finished hc he hrun raced)
    split <;> exact ⟨rfl, rfl⟩
  | ledger _ _ hs =>
    subst hs
    exact ⟨hc.numbered, hc.entries, hc.generation_lt⟩

/-- **Every reachable scheduler is consistent.** -/
theorem reaches_consistent [DecidableEq Value]
    {events : List (SchedulerEvent Value Receipt)} (h : Reaches config ledger events s) :
    s.Consistent :=
  StateMachine.run_invariant (I := Consistent) (fun _ _ _ hc h => step_consistent hc h)
    (consistent_createScheduler ledger) h

end Consistency

end Falryn.Orchestration.Scheduler
