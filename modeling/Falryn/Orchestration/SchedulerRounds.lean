import Falryn.Orchestration.SchedulerMoves

/-!
# Generations between their steps

While a generation tries its ready entries one after the other, other generations and the
continuations of started units take their steps.  `StatusOk` is what survives that: the entries still
to be tried are ready and belong to the generation, and the results of a generation that has returned
are those of its entries, in order.

With it, `step_cases` says what a step of the scheduler can be.
-/

namespace Falryn.Orchestration.Scheduler

open Pointwise

variable {Value Receipt : Type}

/-! ## Statuses -/

/-- What a generation relies on. -/
def StatusOk (s : Scheduler Value Receipt) (g : ℕ) : GenerationStatus Value Receipt → Prop
  | .admitting ordered _ => ordered.Nodup ∧
      ∀ a ∈ ordered, ∃ e ∈ s.entries, e.arrival = a ∧ e.generation = g ∧ e.state = .ready
  | .returned results =>
      List.Forall₂ (fun e r => r.unitId = e.unit.id ∧ (r.isRefused = true → e.runner = .idle))
        (s.entriesOf g) results
  | _ => True

section Status

variable {touched : ℕ → ℕ → Prop} {s s' : Scheduler Value Receipt} {g j : ℕ}
  {status : GenerationStatus Value Receipt}

theorem status?_setStatus_self (s : Scheduler Value Receipt) (g : ℕ)
    (status : GenerationStatus Value Receipt) :
    (s.setStatus g status).status? g = (s.status? g).map fun _ => status := by
  simp only [status?, setStatus, updateGeneration, List.getElem?_modify]
  cases s.generations[g]? <;> simp

theorem status?_setStatus_of_ne (s : Scheduler Value Receipt)
    (status : GenerationStatus Value Receipt) (h : j ≠ g) :
    (s.setStatus g status).status? j = s.status? j := by
  simp only [status?, setStatus, updateGeneration, List.getElem?_modify]
  cases s.generations[j]? <;> simp [h.symm]

/-- What waking does to a status. -/
def wake : GenerationStatus Value Receipt → GenerationStatus Value Receipt
  | .parked true _ => .looping
  | status => status

theorem status?_notifyCapacityChanged (s : Scheduler Value Receipt) (g : ℕ) :
    s.notifyCapacityChanged.status? g = (s.status? g).map wake := by
  simp only [status?, notifyCapacityChanged, List.getElem?_map, Option.map_map]
  cases s.generations[g]? with
  | none => rfl
  | some gen =>
    simp only [Option.map_some, Function.comp_apply]
    cases hs : gen.status with
    | parked onCapacity => cases onCapacity <;> simp [hs, wake]
    | _ => simp [hs, wake]

/-- The changes of entries a generation does not notice. -/
theorem StatusOk.of_forall₂ {R : Entry Value Receipt → Entry Value Receipt → Prop}
    (hok : s.StatusOk g status) (h : List.Forall₂ R s.entries s'.entries)
    (hsame : ∀ e e', R e e' →
      e'.unit = e.unit ∧ e'.generation = e.generation ∧ e'.arrival = e.arrival)
    (hready : ∀ ordered skipped, status = .admitting ordered skipped → ∀ e ∈ s.entries, ∀ e',
      R e e' → e.generation = g → e.arrival ∈ ordered → e.state = .ready → e'.state = .ready)
    (hidle : ∀ results, status = .returned results → ∀ e ∈ s.entries, ∀ e', R e e' →
      e.generation = g → e.runner = .idle → e'.runner = .idle) : s'.StatusOk g status := by
  cases status with
  | admitting ordered skipped =>
    refine ⟨hok.1, fun a ha => ?_⟩
    obtain ⟨e, he, rfl, hgen, hr⟩ := hok.2 a ha
    obtain ⟨e', he', hR⟩ := forall₂_exists_right h he
    obtain ⟨-, hg, hae⟩ := hsame e e' hR
    exact ⟨e', he', hae, hg.trans hgen, hready _ _ rfl e he e' hR hgen ha hr⟩
  | returned results =>
    have hfil : List.Forall₂ R (s.entriesOf g) (s'.entriesOf g) :=
      forall₂_filter (fun e e' hR => by rw [(hsame e e' hR).2.1]) h
    have hmem := (List.forall₂_and_left (p := fun e => e ∈ s.entriesOf g) _ _).2
      ⟨fun e he => he, hfil⟩
    refine forall₂_trans (fun e' e _ hR hr => ?_) hmem.flip hok
    obtain ⟨he, hge⟩ := mem_entriesOf.1 hR.1
    exact ⟨hr.1.trans (by rw [(hsame e e' hR.2).1]),
      fun href => hidle _ rfl e he e' hR.2 hge (hr.2 href)⟩
  | _ => trivial

/-- A quiet step leaves a generation alone if it does not touch the entries still to be tried. -/
theorem StatusOk.quiet (hok : s.StatusOk g status) (h : Quiet touched s s')
    (hnot : ∀ ordered skipped, status = .admitting ordered skipped → ∀ e ∈ s.entries,
      e.generation = g → e.arrival ∈ ordered → ¬ touched e.arrival e.generation) :
    s'.StatusOk g status := by
  refine hok.of_forall₂ h.entries (fun e e' hq => ⟨hq.1.unit, hq.1.generation, hq.1.arrival⟩) ?_ ?_
  · intro ordered skipped hst e he e' hq hgen hmem hr
    rw [(hq.1.state_of_not_touched (hnot _ _ hst e he hgen hmem)).1]
    exact hr
  · intro _ _ e _ e' hq _ hi
    exact hq.1.idle.2 hi

end Status

/-! ## Entries -/

/-- What the state of an entry says about its other fields. -/
structure EntryOk (e : Entry Value Receipt) : Prop where
  queued : e.isQueued = true → e.runner = .idle ∧ e.result = none ∧ e.reservation = none
  running : e.state = .running → e.runner ≠ .idle ∧ e.result = none
  result : ∀ r, e.result = some r →
    r.unitId = e.unit.id ∧ (r.isRefused = true → e.runner = .idle)

variable {e : Entry Value Receipt} {s : Scheduler Value Receipt}

theorem EntryOk.quiet {touched : ℕ → ℕ → Prop} {e' : Entry Value Receipt} (hok : EntryOk e)
    (h : Entry.Quiet touched e e') : EntryOk e' := by
  rcases h.moved with ⟨hs, hr⟩ | ⟨-, hq, ⟨-, hready, hr⟩ | ⟨hset, r, hr, -, hid⟩⟩
  · refine ⟨fun hq => ?_, fun hrun => ?_, fun r hr' => ?_⟩
    · rw [Entry.isQueued, hs] at hq
      obtain ⟨h1, h2, h3⟩ := hok.queued hq
      exact ⟨h.idle.2 h1, hr.trans h2, h.reservation.trans h3⟩
    · obtain ⟨h1, h2⟩ := hok.running (hs ▸ hrun)
      exact ⟨fun hi => h1 (h.idle.1 hi), hr.trans h2⟩
    · obtain ⟨h1, h2⟩ := hok.result r (hr ▸ hr')
      exact ⟨by rw [h1, h.unit], fun href => h.idle.2 (h2 href)⟩
  · obtain ⟨h1, h2, h3⟩ := hok.queued hq
    refine ⟨fun _ => ⟨h.idle.2 h1, hr.trans h2, h.reservation.trans h3⟩, fun hrun => ?_,
      fun r hr' => ?_⟩
    · rw [hready] at hrun
      cases hrun
    · rw [hr, h2] at hr'
      cases hr'
  · obtain ⟨h1, -, -⟩ := hok.queued hq
    refine ⟨fun hq' => ?_, fun hrun => ?_, fun _ hr' => ?_⟩
    · rw [Entry.isQueued_iff, hset] at hq'
      simp at hq'
    · rw [hset] at hrun
      cases hrun
    · rw [hr] at hr'
      cases hr'
      exact ⟨by rw [hid, h.unit], fun _ => h.idle.2 h1⟩

theorem report_ok (h : EntryOk e) :
    e.report.unitId = e.unit.id ∧ (e.report.isRefused = true → e.runner = .idle) := by
  rw [Entry.report]
  cases hr : e.result with
  | none => exact ⟨rfl, nofun⟩
  | some r => exact h.result r hr

/-! ## Starting and ending -/

/-- What `launch` makes of the entries. -/
def launchedEntry (s : Scheduler Value Receipt) (e : Entry Value Receipt)
    (reservation : Option String) (throws : Bool) (x : Entry Value Receipt) : Entry Value Receipt :=
  if x.arrival = e.arrival then
    { x with
      state := .running
      waiting := false
      aborted := x.unit.scopeId.any fun scope => scope ∈ s.cancelledScopes
      reservation
      runner := if throws then .threw else .pending }
  else if x.waiting then { x with passedOver := x.passedOver + 1 }
  else x

theorem launch_entries (s : Scheduler Value Receipt) (e : Entry Value Receipt)
    (reservation : Option String) (throws : Bool) :
    (s.launch e reservation throws).entries = s.entries.map (s.launchedEntry e reservation throws) :=
  rfl

/-- An entry the launch is not about. -/
theorem launchedEntry_of_ne {x : Entry Value Receipt}
    (h : x.arrival ≠ e.arrival) (reservation : Option String) (throws : Bool) :
    QuietMove nothing s x (s.launchedEntry e reservation throws x) := by
  rw [launchedEntry, if_neg h]
  split
  · exact quietMove_of_eq rfl rfl rfl rfl rfl (.inl rfl) rfl rfl
  · exact quietMove_refl

/-- What `finish` makes of its entry. -/
def finishedEntry (raced : Raced Value) (x : Entry Value Receipt) : Entry Value Receipt :=
  { x with
    aborted := true
    state := .settled
    result := match raced with
      | .value value => some (.completed x.unit.id value)
      | _ => some (.settled x.unit.id (raced.outcome x.unit) x.partialValue) }

theorem finish_spec (hn : s.Numbered) (he : e ∈ s.entries) (raced : Raced Value) :
    (s.finish e raced).entries
        = s.entries.map (fun x => if x.arrival = e.arrival then finishedEntry raced x else x)
      ∧ (s.finish e raced).held = LockTable.release s.held e.keys
      ∧ (s.finish e raced).running = s.running - 1
      ∧ (s.finish e raced).ledger = s.settleReservation e raced
      ∧ (s.finish e raced).log = s.log ++ (if raced matches .value _ then [.completed e.arrival]
          else []) := by
  cases raced with
  | value value =>
    refine ⟨?_, rfl, rfl, rfl, rfl⟩
    simp only [finish, notifyCapacityChanged, updateEntry, mapEntries, List.map_map]
    refine List.map_congr_left fun x hx => ?_
    by_cases h : x.arrival = e.arrival <;> simp [h, finishedEntry]
  | _ =>
    refine ⟨?_, rfl, rfl, rfl, (List.append_nil _).symm⟩
    simp only [finish, notifyCapacityChanged, settle, updateEntry, mapEntries, List.map_map]
    refine List.map_congr_left fun x hx => ?_
    by_cases h : x.arrival = e.arrival
    · obtain rfl := hn.eq_of_arrival hx he h
      simp [finishedEntry, Entry.settle]
    · simp [h]

/-! ## What a step can be -/

/-- What holds of a scheduler between any two steps. -/
structure Consistent (s : Scheduler Value Receipt) : Prop where
  numbered : s.Numbered
  entries : ∀ e ∈ s.entries, EntryOk e
  generation_lt : ∀ e ∈ s.entries, e.generation < s.generations.length
  statuses : ∀ g status, s.status? g = some status → s.StatusOk g status

/-- Two schedulers that differ at most in their generations, counters and cancelled scopes. -/
structure Agree (s s' : Scheduler Value Receipt) : Prop where
  held : s'.held = s.held
  running : s'.running = s.running
  ledger : s'.ledger = s.ledger
  log : s'.log = s.log
  entries : s'.entries = s.entries

/-- What `launch` is called with: the entry is ready, there is room for it, its keys are free, and
its reservation, if there is a budget, was just taken. -/
structure Launches (config : SchedulerConfig) (s : Scheduler Value Receipt)
    (e : Entry Value Receipt) (ledger : BudgetLedger) (reservation : Option String) : Prop where
  mem : e ∈ s.entries
  ready : e.state = .ready
  room : s.running < config.limits.maxConcurrent
  keys : s.keysAvailable config.limits e.keys = true
  reserved : (reservation = none ∧ ledger = s.ledger) ∨
    ∃ budgetId id, reservation = some id ∧
      s.ledger.reserve budgetId id (reservedAmounts e.unit) = .ok ledger

/-- **What a step can be.** -/
inductive StepKind (config : SchedulerConfig) (event : SchedulerEvent Value Receipt)
    (s s' : Scheduler Value Receipt) : Prop where
  | quiet (touched : ℕ → ℕ → Prop) (h : Quiet touched s s')
  | scheduled (work : List Submission) (aborted : Bool)
      (h : s' = s.schedule config.limits work aborted)
  | launched (e : Entry Value Receipt) (ledger : BudgetLedger) (reservation : Option String)
      (throws : Bool) (hl : Launches config s e ledger reservation)
      (hthrows : event.throwsSynchronously = throws)
      (h : Agree ({ s with ledger }.launch e reservation throws) s')
  | finished (e : Entry Value Receipt) (raced : Raced Value) (he : e ∈ s.entries)
      (hrun : e.state = .running) (hthrew : e.runner ≠ .threw) (h : s' = s.finish e raced)
  | ledger (call : BudgetLedger.Call)
      (hid : ∀ e ∈ s.entries, ∀ id, e.reservation = some id → call.reservationId? ≠ some id)
      (h : s' = { s with ledger := s.ledger.call call })

section Cases

variable {s s' : Scheduler Value Receipt} {config : SchedulerConfig}

variable {e : Entry Value Receipt}

theorem not_mustSkip {limits : SchedulerLimits} (h : ¬ s.mustSkip limits e = true) :
    s.running < limits.maxConcurrent ∧ s.keysAvailable limits e.keys = true := by
  simp only [mustSkip, Bool.or_eq_true, decide_eq_true_eq, Bool.not_eq_true', not_or,
    Bool.not_eq_false] at h
  obtain ⟨⟨hrun, hkeys⟩, -⟩ := h
  exact ⟨by omega, hkeys⟩

/-- **`start`** either launches its entry or is quiet. -/
theorem start_cases (config : SchedulerConfig) (hn : s.Numbered) (he : e ∈ s.entries)
    (hready : e.state = .ready) (admission : Admission Receipt) (reservationId : String)
    (throws : Bool) :
    Quiet (ofArrival e.arrival) s (s.start config e admission reservationId throws) ∨
      ∃ ledger reservation,
        ((reservation = none ∧ ledger = s.ledger) ∨
          ∃ budgetId id, reservation = some id ∧
            s.ledger.reserve budgetId id (reservedAmounts e.unit) = .ok ledger) ∧
        s.start config e admission reservationId throws
          = { s with ledger }.launch e reservation throws := by
  have hq : e.isQueued = true := Entry.isQueued_iff.2 (.inr hready)
  cases admission with
  | wait =>
    left
    simp only [start]
    split
    · exact .refl _ s
    · refine (quiet_updateEntry fun _ _ _ => ?_).trans (quiet_notifyCapacityChanged _)
      exact quietMove_of_eq rfl rfl rfl rfl rfl (.inl rfl) rfl rfl
  | refused => exact .inl (quiet_refuse hn he hq _)
  | ready =>
    simp only [start]
    split
    · exact .inr ⟨s.ledger, none, .inl ⟨rfl, rfl⟩, rfl⟩
    · rename_i budgetId _
      split
      · exact .inl (quiet_refuse hn he hq _)
      · rename_i ledger hres
        exact .inr ⟨ledger, some reservationId, .inr ⟨budgetId, reservationId, rfl, hres⟩, rfl⟩

theorem quiet_runner (hn : s.Numbered) (he : e ∈ s.entries)
    (hp : e.runner = .pending) {runner : Runner Value} (hi : runner ≠ .idle)
    (ht : runner ≠ .threw) :
    Quiet nothing s (s.updateEntry e.arrival fun x => { x with runner }) := by
  refine quiet_updateEntry fun x hx hxa => ?_
  obtain rfl := hn.eq_of_arrival hx he hxa
  exact quietMove_of_eq rfl rfl rfl rfl rfl (.inr ⟨hp, hi, ht⟩) rfl rfl

theorem quiet_reportPartial (s : Scheduler Value Receipt) (arrival : ℕ) (value : Value) :
    Quiet nothing s (s.updateEntry arrival fun x => { x with partialValue := some value }) :=
  quiet_updateEntry fun _ _ _ => quietMove_of_eq rfl rfl rfl rfl rfl (.inl rfl) rfl rfl

theorem quiet_forget (s : Scheduler Value Receipt) (e : Entry Value Receipt) :
    Quiet nothing s (s.forget e) :=
  quiet_of_eq rfl rfl rfl rfl rfl

theorem quiet_abort (s : Scheduler Value Receipt) (g : ℕ) : Quiet nothing s (s.abort g) := by
  have hq : Quiet nothing s
      ((s.updateGeneration g fun gen => { gen with aborted := true }).mapEntries fun e =>
        if e.generation = g ∧ e.state = .running then { e with aborted := true } else e) := by
    have hgen : Quiet nothing s (s.updateGeneration g fun gen => { gen with aborted := true }) :=
      quiet_of_eq rfl rfl rfl rfl rfl
    refine hgen.trans (quiet_mapEntries fun _ _ => ?_)
    split
    · exact quietMove_of_eq rfl rfl rfl rfl rfl (.inl rfl) rfl rfl
    · exact quietMove_refl
  rw [abort]
  split
  · exact hq
  · exact hq.trans (quiet_notifyCapacityChanged _)

theorem quiet_cancelScope (s : Scheduler Value Receipt) (scopeId : String) :
    Quiet nothing s (s.cancelScope scopeId) := by
  have hq : Quiet nothing s (s.mapEntries fun e =>
      if e.unit.scopeId = some scopeId ∧ e.state = .running then { e with aborted := true }
      else e) := by
    refine quiet_mapEntries fun _ _ => ?_
    split
    · exact quietMove_of_eq rfl rfl rfl rfl rfl (.inl rfl) rfl rfl
    · exact quietMove_refl
  exact ⟨hq.held, hq.running, hq.ledger, hq.log, hq.entries⟩

theorem quiet_capacityChanged (s : Scheduler Value Receipt) : Quiet nothing s s.capacityChanged := by
  refine Quiet.trans (quiet_mapEntries fun _ _ => ?_) (quiet_notifyCapacityChanged _)
  split
  · exact quietMove_refl
  · exact quietMove_of_eq rfl rfl rfl rfl rfl (.inl rfl) rfl rfl

theorem step_cases [DecidableEq Value] {event : SchedulerEvent Value Receipt} (hc : s.Consistent)
    (h : step config s event = some s') : StepKind config event s s' := by
  have hn := hc.numbered
  cases step_ok h with
  | schedule work aborted => exact .scheduled work aborted rfl
  | loop => exact .quiet _ (quiet_loop hn _ _ _ _)
  | @tryReady g e rest skipped admission reservationId throws hmem hstatus =>
    obtain ⟨e₁, he₁, ha, -, hready⟩ := (hc.statuses g _ hstatus).2 e.arrival List.mem_cons_self
    obtain rfl := hn.eq_of_arrival he₁ hmem ha
    rw [tryReady]
    split
    · exact .quiet nothing (quiet_setStatus _ g _)
    · rename_i hskip
      obtain ⟨hroom, hkeys⟩ := not_mustSkip hskip
      rcases start_cases (s := s.countPromotion config.limits e₁) config hn hmem hready
        admission reservationId throws with hquiet | ⟨ledger, reservation, hres, hstart⟩
      · refine .quiet (ofArrival e₁.arrival) (Quiet.trans ?_ (quiet_setStatus _ g _))
        exact ⟨hquiet.held, hquiet.running, hquiet.ledger, hquiet.log, hquiet.entries⟩
      · refine .launched e₁ ledger reservation throws ⟨hmem, hready, hroom, hkeys, hres⟩ rfl ?_
        dsimp only
        rw [hstart]
        exact ⟨rfl, rfl, rfl, rfl, rfl⟩
  | conclude now => exact .quiet _ (quiet_conclude s _ _ _ now)
  | lockTimer => exact .quiet nothing (quiet_setStatus _ _ _)
  | fulfil _ hmem hpending | reject hmem hpending =>
    exact .quiet _ (quiet_runner hn hmem hpending (by simp) (by simp))
  | reportPartial arrival value => exact .quiet _ (quiet_reportPartial s arrival value)
  | finish raced _ hmem hrunning hdecides =>
    refine .finished _ raced hmem hrunning ?_ rfl
    unfold Entry.decides at hdecides
    rw [Bool.and_eq_true, decide_eq_true_eq] at hdecides
    exact hdecides.1
  | forget e => exact .quiet _ (quiet_forget s e)
  | abort g => exact .quiet _ (quiet_abort s g)
  | cancelScope scopeId => exact .quiet _ (quiet_cancelScope s scopeId)
  | capacityChanged => exact .quiet _ (quiet_capacityChanged s)
  | ledgerCall call hcall => exact .ledger call hcall rfl

end Cases

end Falryn.Orchestration.Scheduler
