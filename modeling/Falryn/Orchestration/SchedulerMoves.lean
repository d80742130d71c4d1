import Falryn.Lib.Pointwise
import Falryn.Orchestration.SchedulerStep

/-!
# What a step of the scheduler can do

Almost everything the scheduler does is *quiet*: it starts nothing and ends nothing that was started,
so the keys held, the count of running units, the ledger and the log stay as they are, and the only
entries that move are queued ones that become ready or are settled without having run.  `Quiet`
says so once, with the entries that may move as a parameter, and is a preorder; every part of a
generation's loop but `launch` is shown to be quiet.

`step_cases` then lists what a step can be: quiet, a submission, a launch, a finish, or a call of the
ledger by somebody else.
-/

namespace Falryn.Orchestration

open Pointwise

variable {Value Receipt : Type}

/-! ## Entries -/

namespace Entry

/-- A quiet move of one entry, which may change its state only if `touched`. -/
structure Quiet (touched : ℕ → ℕ → Prop) (e e' : Entry Value Receipt) : Prop where
  unit : e'.unit = e.unit
  generation : e'.generation = e.generation
  arrival : e'.arrival = e.arrival
  keys : e'.keys = e.keys
  reservation : e'.reservation = e.reservation
  runner : e'.runner = e.runner ∨
    (e.runner = .pending ∧ e'.runner ≠ .idle ∧ e'.runner ≠ .threw)
  moved : (e'.state = e.state ∧ e'.result = e.result) ∨
    (touched e.arrival e.generation ∧ e.isQueued = true ∧
      ((e.state = .blocked ∧ e'.state = .ready ∧ e'.result = e.result) ∨
        (e'.state = .settled ∧
          ∃ r, e'.result = some r ∧ r.isCompleted = false ∧ r.unitId = e.unit.id)))

variable {touched touched' : ℕ → ℕ → Prop} {e e' e'' : Entry Value Receipt}

theorem Quiet.refl (touched : ℕ → ℕ → Prop) (e : Entry Value Receipt) : Quiet touched e e :=
  ⟨rfl, rfl, rfl, rfl, rfl, .inl rfl, .inl ⟨rfl, rfl⟩⟩

theorem Quiet.idle (h : Quiet touched e e') : e'.runner = .idle ↔ e.runner = .idle := by
  rcases h.runner with hr | ⟨hp, hi, -⟩
  · rw [hr]
  · simp [hp, hi]

theorem Quiet.threw (h : Quiet touched e e') : e'.runner = .threw ↔ e.runner = .threw := by
  rcases h.runner with hr | ⟨hp, -, ht⟩
  · rw [hr]
  · simp [hp, ht]

theorem Quiet.runner_trans (h : Quiet touched e e') (h' : Quiet touched e' e'') :
    e''.runner = e.runner ∨ (e.runner = .pending ∧ e''.runner ≠ .idle ∧ e''.runner ≠ .threw) := by
  rcases h.runner with hr | ⟨hp, hi, ht⟩
  · rw [← hr]
    exact h'.runner
  · exact .inr ⟨hp, fun hi' => hi (h'.idle.1 hi'), fun ht' => ht (h'.threw.1 ht')⟩

theorem isQueued_iff : e.isQueued = true ↔ e.state = .blocked ∨ e.state = .ready := by
  simp [isQueued]

theorem Quiet.trans (h : Quiet touched e e') (h' : Quiet touched e' e'') : Quiet touched e e'' := by
  refine ⟨h'.unit.trans h.unit, h'.generation.trans h.generation, h'.arrival.trans h.arrival,
    h'.keys.trans h.keys, h'.reservation.trans h.reservation, h.runner_trans h', ?_⟩
  rcases h.moved with ⟨hs, hr⟩ | ⟨ht, hq, hmove⟩
  · -- nothing moved at first, so the second move is the whole of it
    rcases h'.moved with ⟨hs', hr'⟩ | ⟨ht', hq', hmove'⟩
    · exact .inl ⟨hs'.trans hs, hr'.trans hr⟩
    · refine .inr ⟨h.arrival ▸ h.generation ▸ ht', by rwa [isQueued, hs] at hq', ?_⟩
      rw [hs, hr, h.unit] at hmove'
      exact hmove'
  · rcases h'.moved with ⟨hs', hr'⟩ | ⟨-, hq', hmove'⟩
    · refine .inr ⟨ht, hq, ?_⟩
      rw [hs', hr']
      exact hmove
    · rcases hmove with ⟨-, hready, -⟩ | ⟨hset, -⟩
      · refine .inr ⟨ht, hq, .inr ?_⟩
        rcases hmove' with ⟨hb, -, -⟩ | hset'
        · rw [hready] at hb
          cases hb
        · rwa [h.unit] at hset'
      · -- a settled entry is not queued
        rw [isQueued_iff, hset] at hq'
        simp at hq'

theorem Quiet.mono (h : Quiet touched e e')
    (hsub : touched e.arrival e.generation → touched' e.arrival e.generation) :
    Quiet touched' e e' :=
  ⟨h.unit, h.generation, h.arrival, h.keys, h.reservation, h.runner,
    h.moved.imp id fun hm => ⟨hsub hm.1, hm.2⟩⟩

/-- A quiet move neither starts nor ends a run. -/
theorem Quiet.running_iff (h : Quiet touched e e') :
    e'.state = .running ↔ e.state = .running := by
  rcases h.moved with ⟨hs, -⟩ | ⟨-, hq, ⟨hb, hr, -⟩ | ⟨hset, -⟩⟩
  · rw [hs]
  · simp [hb, hr]
  · rcases isQueued_iff.1 hq with hq | hq <;> simp [hset, hq]

theorem Quiet.result_of_completed (h : Quiet touched e e')
    (hc : e'.result.any SchedulingResult.isCompleted = true) : e'.result = e.result := by
  rcases h.moved with ⟨-, hr⟩ | ⟨-, -, ⟨-, -, hr⟩ | ⟨-, r, hr, hn, -⟩⟩
  · exact hr
  · exact hr
  · rw [hr] at hc
    simp [hn] at hc

theorem Quiet.state_of_not_touched (h : Quiet touched e e')
    (ht : ¬ touched e.arrival e.generation) : e'.state = e.state ∧ e'.result = e.result :=
  h.moved.resolve_right fun hm => ht hm.1

theorem quiet_refuse (hq : e.isQueued = true) (ht : touched e.arrival e.generation)
    (error : SchedulingError Receipt) : Quiet touched e (e.refuse error) :=
  ⟨rfl, rfl, rfl, rfl, rfl, .inl rfl, .inr ⟨ht, hq, .inr ⟨rfl, _, rfl, rfl, rfl⟩⟩⟩

theorem quiet_settle (hq : e.isQueued = true) (ht : touched e.arrival e.generation)
    (outcome : TerminalOutcome) : Quiet touched e (e.settle outcome) :=
  ⟨rfl, rfl, rfl, rfl, rfl, .inl rfl, .inr ⟨ht, hq, .inr ⟨rfl, _, rfl, rfl, rfl⟩⟩⟩

end Entry

/-! ## Schedulers -/

namespace Scheduler

/-- The dependencies of an entry are all entries of its generation that completed. -/
def DependenciesCompleted (s : Scheduler Value Receipt) (e : Entry Value Receipt) : Prop :=
  ∀ id ∈ e.unit.dependencies, ∃ d ∈ s.entries, d.generation = e.generation ∧ d.unit.id = id
    ∧ d.result.any SchedulingResult.isCompleted = true

/-- A quiet move of one entry in the state `s`; an entry that becomes ready found its dependencies
completed. -/
def QuietMove (touched : ℕ → ℕ → Prop) (s : Scheduler Value Receipt) (e e' : Entry Value Receipt) :
    Prop :=
  Entry.Quiet touched e e' ∧ (e'.state = .ready → e.state = .ready ∨ s.DependenciesCompleted e)

/-- Nothing is started and nothing that was started ends; only entries that are `touched` move. -/
structure Quiet (touched : ℕ → ℕ → Prop) (s s' : Scheduler Value Receipt) : Prop where
  held : s'.held = s.held
  running : s'.running = s.running
  ledger : s'.ledger = s.ledger
  log : s'.log = s.log
  entries : List.Forall₂ (QuietMove touched s) s.entries s'.entries

/-! ### Quiet steps compose -/

section Preorder

variable {touched touched' : ℕ → ℕ → Prop} {s s' s'' : Scheduler Value Receipt}
  {e : Entry Value Receipt}

theorem dependenciesCompleted_congr {e' : Entry Value Receipt} (hu : e'.unit = e.unit)
    (hg : e'.generation = e.generation) :
    s.DependenciesCompleted e' ↔ s.DependenciesCompleted e := by
  rw [DependenciesCompleted, DependenciesCompleted, hu, hg]

/-- What has completed after a quiet step had completed before it. -/
theorem Quiet.dependenciesCompleted (h : Quiet touched s s')
    (hd : s'.DependenciesCompleted e) : s.DependenciesCompleted e := by
  intro id hid
  obtain ⟨d', hd', hgen, hunit, hc⟩ := hd id hid
  obtain ⟨d, hdm, hq, -⟩ := forall₂_exists_left h.entries hd'
  refine ⟨d, hdm, hq.generation ▸ hgen, hq.unit ▸ hunit, ?_⟩
  rwa [← hq.result_of_completed hc]

theorem Quiet.refl (touched : ℕ → ℕ → Prop) (s : Scheduler Value Receipt) : Quiet touched s s :=
  ⟨rfl, rfl, rfl, rfl, List.forall₂_same.2 fun e _ => ⟨.refl _ e, .inl⟩⟩

theorem Quiet.trans (h : Quiet touched s s') (h' : Quiet touched s' s'') : Quiet touched s s'' := by
  refine ⟨h'.held.trans h.held, h'.running.trans h.running, h'.ledger.trans h.ledger,
    h'.log.trans h.log, forall₂_trans (fun _ _ _ hq hq' => ?_) h.entries h'.entries⟩
  refine ⟨hq.1.trans hq'.1, fun hr => ?_⟩
  rcases hq'.2 hr with hr' | hd
  · exact hq.2 hr'
  · exact .inr ((dependenciesCompleted_congr hq.1.unit hq.1.generation).1
      (h.dependenciesCompleted hd))

theorem Quiet.mono (h : Quiet touched s s')
    (hsub : ∀ e ∈ s.entries, touched e.arrival e.generation → touched' e.arrival e.generation) :
    Quiet touched' s s' := by
  refine ⟨h.held, h.running, h.ledger, h.log, ?_⟩
  have hall := (List.forall₂_and_left (p := fun e => e ∈ s.entries) s.entries s'.entries).2
    ⟨fun e he => he, h.entries⟩
  exact hall.imp fun e _ he => ⟨he.2.1.mono (hsub e he.1), he.2.2⟩

/-- A step that leaves the entries, and all that is shared, alone. -/
theorem quiet_of_eq (hheld : s'.held = s.held) (hrun : s'.running = s.running)
    (hled : s'.ledger = s.ledger) (hlog : s'.log = s.log) (hent : s'.entries = s.entries) :
    Quiet touched s s' :=
  ⟨hheld, hrun, hled, hlog, hent ▸ (Quiet.refl touched s).entries⟩

theorem quiet_mapEntries {f : Entry Value Receipt → Entry Value Receipt}
    (hf : ∀ e ∈ s.entries, QuietMove touched s e (f e)) : Quiet touched s (s.mapEntries f) :=
  ⟨rfl, rfl, rfl, rfl, forall₂_map_self hf⟩

/-- Counters are nobody's business. -/
theorem Quiet.counters (h : Quiet touched s s') (counters : Counters) :
    Quiet touched s { s' with counters } :=
  ⟨h.held, h.running, h.ledger, h.log, h.entries⟩

theorem quiet_setStatus (s : Scheduler Value Receipt) (g : ℕ)
    (status : GenerationStatus Value Receipt) : Quiet touched s (s.setStatus g status) :=
  quiet_of_eq rfl rfl rfl rfl rfl

theorem quiet_notifyCapacityChanged (s : Scheduler Value Receipt) :
    Quiet touched s s.notifyCapacityChanged :=
  quiet_of_eq rfl rfl rfl rfl rfl

end Preorder

/-! ## The parts of a round -/

/-- No entry moves. -/
def nothing : ℕ → ℕ → Prop := fun _ _ => False

/-- Only the entry with this arrival moves. -/
def ofArrival (a : ℕ) : ℕ → ℕ → Prop := fun arrival _ => arrival = a

/-- Only entries of this generation move. -/
def ofGeneration (g : ℕ) : ℕ → ℕ → Prop := fun _ generation => generation = g

/-- Arrivals count the entries. -/
def Numbered (s : Scheduler Value Receipt) : Prop :=
  s.entries.map Entry.arrival = List.range s.entries.length

section Parts

variable {touched : ℕ → ℕ → Prop} {s s' : Scheduler Value Receipt} {g a : ℕ}
  {e : Entry Value Receipt}

theorem Quiet.arrivals (h : Quiet touched s s') :
    s'.entries.map Entry.arrival = s.entries.map Entry.arrival :=
  map_eq_of_forall₂ (fun _ _ hm => hm.1.arrival) h.entries

theorem Quiet.numbered (h : Quiet touched s s') (hn : s.Numbered) : s'.Numbered := by
  rw [Numbered, h.arrivals, hn, h.entries.length_eq]

theorem Numbered.nodup (hn : s.Numbered) : (s.entries.map Entry.arrival).Nodup := by
  rw [hn]
  exact List.nodup_range

/-- Two entries with one arrival are one entry. -/
theorem Numbered.eq_of_arrival (hn : s.Numbered) {x y : Entry Value Receipt} (hx : x ∈ s.entries)
    (hy : y ∈ s.entries) (h : x.arrival = y.arrival) : x = y :=
  List.inj_on_of_nodup_map hn.nodup hx hy h

theorem entryAt_some (h : s.entryAt a = some e) : e ∈ s.entries ∧ e.arrival = a :=
  ⟨List.mem_of_find?_eq_some h, by simpa using List.find?_some h⟩

/-- What a step found when it was taken, and what it left. -/
inductive Stepped [DecidableEq Value] (config : SchedulerConfig) (s : Scheduler Value Receipt) :
    SchedulerEvent Value Receipt → Scheduler Value Receipt → Prop where
  | schedule (work : List Submission) (aborted : Bool) :
      Stepped config s (.schedule work aborted) (s.schedule config.limits work aborted)
  | loop {g : ℕ} {gen : Generation Value Receipt} (deadlineNow readyNow : ℕ → ℕ)
      (hgen : s.generations[g]? = some gen) (hstatus : gen.status = .looping) :
      Stepped config s (.loop g deadlineNow readyNow) (s.loop config.limits g gen deadlineNow readyNow)
  | tryReady {g : ℕ} {e : Entry Value Receipt} {rest skipped : List ℕ} (admission : Admission Receipt)
      (reservationId : String) (throws : Bool) (he : e ∈ s.entries)
      (hstatus : s.status? g = some (.admitting (e.arrival :: rest) skipped)) :
      Stepped config s (.tryReady g admission reservationId throws)
        (s.tryReady config g e rest skipped admission reservationId throws)
  | conclude {g : ℕ} {skipped : List ℕ} (now : ℕ → ℕ)
      (hstatus : s.status? g = some (.admitting [] skipped)) :
      Stepped config s (.conclude g now) (s.conclude config.limits g skipped now)
  | lockTimer {g deadline : ℕ} {onCapacity : Bool} (now : ℕ)
      (hstatus : s.status? g = some (.parked onCapacity (some deadline))) :
      Stepped config s (.lockTimer g now) (s.setStatus g .looping)
  | fulfil {e : Entry Value Receipt} (value : Value) (he : e ∈ s.entries) (hpending : e.runner = .pending) :
      Stepped config s (.fulfil e.arrival value)
        (s.updateEntry e.arrival fun x => { x with runner := .fulfilled value })
  | reject {e : Entry Value Receipt} (he : e ∈ s.entries) (hpending : e.runner = .pending) :
      Stepped config s (.reject e.arrival) (s.updateEntry e.arrival fun x => { x with runner := .rejected })
  | reportPartial (arrival : ℕ) (value : Value) :
      Stepped config s (.reportPartial arrival value)
        (s.updateEntry arrival fun x => { x with partialValue := some value })
  | finish {e : Entry Value Receipt} (raced : Raced Value) (now : ℕ) (he : e ∈ s.entries)
      (hrunning : e.state = .running) (hdecides : e.decides raced now = true) :
      Stepped config s (.finish e.arrival raced now) (s.finish e raced)
  | forget (e : Entry Value Receipt) : Stepped config s (.forget e.arrival) (s.forget e)
  | abort (g : ℕ) : Stepped config s (.abort g) (s.abort g)
  | cancelScope (scopeId : String) : Stepped config s (.cancelScope scopeId) (s.cancelScope scopeId)
  | capacityChanged : Stepped config s .capacityChanged s.capacityChanged
  | ledgerCall (call : BudgetLedger.Call)
      (hcall : ∀ e ∈ s.entries, ∀ id, e.reservation = some id → call.reservationId? ≠ some id) :
      Stepped config s (.ledgerCall call) { s with ledger := s.ledger.call call }

theorem step_ok [DecidableEq Value] {event : SchedulerEvent Value Receipt} {config : SchedulerConfig}
    (h : step config s event = some s') : Stepped config s event s' := by
  cases event with
  | schedule | cancelScope | capacityChanged =>
    cases h
    constructor
  | loop | lockTimer =>
    simp only [step] at h
    repeat' split at h
    all_goals cases h
    constructor <;> assumption
  | tryReady =>
    simp only [step] at h
    split at h
    · obtain ⟨e, he, rfl⟩ := Option.map_eq_some_iff.1 h
      obtain ⟨hmem, rfl⟩ := entryAt_some he
      exact .tryReady _ _ _ hmem ‹_›
    · cases h
  | conclude | ledgerCall =>
    simp only [step] at h
    split at h <;> cases h
    constructor
    assumption
  | abort =>
    simp only [step] at h
    split at h <;> cases h
    constructor
  | fulfil | reject | reportPartial | forget =>
    obtain ⟨e, he, hb⟩ := Option.bind_eq_some_iff.1 h
    obtain ⟨hmem, rfl⟩ := entryAt_some he
    split at hb <;> cases hb
    constructor <;> assumption
  | finish =>
    obtain ⟨e, he, hb⟩ := Option.bind_eq_some_iff.1 h
    obtain ⟨hmem, rfl⟩ := entryAt_some he
    split at hb <;> cases hb
    rename_i hcond
    exact .finish _ _ hmem hcond.1 hcond.2

theorem Numbered.entryAt_eq (hn : s.Numbered) (he : e ∈ s.entries) : s.entryAt e.arrival = some e := by
  cases hf : s.entryAt e.arrival with
  | none => simpa using List.find?_eq_none.1 hf e he
  | some =>
    obtain ⟨hx, hxa⟩ := entryAt_some hf
    rw [hn.eq_of_arrival hx he hxa]

/-- Bookkeeping: everything a quiet move is about stays. -/
theorem quietMove_of_eq {e' : Entry Value Receipt} (hu : e'.unit = e.unit)
    (hg : e'.generation = e.generation) (ha : e'.arrival = e.arrival) (hk : e'.keys = e.keys)
    (hres : e'.reservation = e.reservation)
    (hrun : e'.runner = e.runner ∨
      (e.runner = .pending ∧ e'.runner ≠ .idle ∧ e'.runner ≠ .threw))
    (hs : e'.state = e.state) (hr : e'.result = e.result) : QuietMove touched s e e' :=
  ⟨⟨hu, hg, ha, hk, hres, hrun, .inl ⟨hs, hr⟩⟩, fun h => .inl (hs ▸ h)⟩

theorem quietMove_refl : QuietMove touched s e e := ⟨.refl _ e, .inl⟩

theorem quietMove_refuse (hq : e.isQueued = true) (ht : touched e.arrival e.generation)
    (error : SchedulingError Receipt) : QuietMove touched s e (e.refuse error) :=
  ⟨Entry.quiet_refuse hq ht error, nofun⟩

theorem quietMove_settle (hq : e.isQueued = true) (ht : touched e.arrival e.generation)
    (outcome : TerminalOutcome) : QuietMove touched s e (e.settle outcome) :=
  ⟨Entry.quiet_settle hq ht outcome, nofun⟩

theorem quiet_updateEntry {f : Entry Value Receipt → Entry Value Receipt}
    (hf : ∀ e ∈ s.entries, e.arrival = a → QuietMove touched s e (f e)) :
    Quiet touched s (s.updateEntry a f) := by
  refine quiet_mapEntries fun x hx => ?_
  split
  · exact hf x hx ‹_›
  · exact quietMove_refl

theorem quiet_refuse (hn : s.Numbered) (he : e ∈ s.entries) (hq : e.isQueued = true)
    (error : SchedulingError Receipt) : Quiet (ofArrival e.arrival) s (s.refuse e.arrival error) := by
  refine Quiet.counters (quiet_updateEntry fun _ hx hxa => ?_) _
  obtain rfl := hn.eq_of_arrival hx he hxa
  exact quietMove_refuse hq rfl error

theorem quiet_expire (s : Scheduler Value Receipt) (g : ℕ) (now : ℕ → ℕ) :
    Quiet (ofGeneration g) s (s.expire g now) := by
  refine Quiet.counters (quiet_mapEntries fun _ _ => ?_) _
  dsimp only
  split
  · rename_i hdue
    simp only [Bool.and_eq_true, decide_eq_true_eq] at hdue
    have h : QuietMove (ofGeneration g) s _ _ := quietMove_settle hdue.1.2 hdue.1.1 (.timedOut .none)
    exact ⟨⟨rfl, rfl, rfl, rfl, rfl, .inl rfl, h.1.moved⟩, h.2⟩
  · exact quietMove_refl

theorem byId_some {id : String} (h : s.byId g id = some e) :
    e ∈ s.entries ∧ e.generation = g ∧ e.unit.id = id := by
  have hp := List.find?_some h
  simp only [Bool.and_eq_true, decide_eq_true_eq] at hp
  exact ⟨List.mem_of_find?_eq_some h, hp.1, hp.2⟩

/-- No dependency failed and all are settled: all of them completed. -/
theorem failedDependencyOf_none : ∀ {ids : List String}, s.failedDependencyOf g ids = none →
    (∀ id ∈ ids, (s.byId g id).any (fun d => d.state = .settled) = true) →
    ∀ id ∈ ids, ∃ d ∈ s.entries, d.generation = g ∧ d.unit.id = id
      ∧ d.result.any SchedulingResult.isCompleted = true := by
  intro ids
  induction ids with
  | nil => intro _ _ id hid; cases hid
  | cons i ids ih =>
    intro h hset id hid
    obtain ⟨hi, hset⟩ := List.forall_mem_cons.1 hset
    rw [failedDependencyOf] at h
    cases hb : s.byId g i with
    | none =>
      rw [hb] at hi
      cases hi
    | some d =>
      rw [hb] at h
      simp only at h
      split at h
      · rename_i hc
        rcases List.mem_cons.1 hid with rfl | hid
        · obtain ⟨hd, hg, hu⟩ := byId_some hb
          exact ⟨d, hd, hg, hu, hc⟩
        · exact ih h hset id hid
      · cases h

theorem quiet_promote (hn : s.Numbered) (now : ℕ → ℕ) (a : ℕ) :
    Quiet (ofArrival a) s (s.promote now a) := by
  rw [promote]
  split
  · exact .refl _ s
  · rename_i he
    obtain ⟨hmem, rfl⟩ := entryAt_some he
    split
    · exact .refl _ s
    · rename_i hcond
      rw [not_or, not_not, Bool.not_eq_false] at hcond
      obtain ⟨hblocked, hset⟩ := hcond
      split
      · exact quiet_refuse hn hmem (Entry.isQueued_iff.2 (.inl hblocked)) _
      · rename_i hnone
        rw [dependenciesSettled, List.all_eq_true] at hset
        refine quiet_updateEntry fun _ hx hxa => ?_
        obtain rfl := hn.eq_of_arrival hx hmem hxa
        exact ⟨⟨rfl, rfl, rfl, rfl, rfl, .inl rfl,
          .inr ⟨rfl, Entry.isQueued_iff.2 (.inl hblocked), .inl ⟨hblocked, rfl, rfl⟩⟩⟩,
          fun _ => .inr (failedDependencyOf_none hnone hset)⟩

/-- The loop that promotes the entries of a generation. -/
theorem quiet_foldl_promote (now : ℕ → ℕ) : ∀ {as : List ℕ} {s : Scheduler Value Receipt},
    s.Numbered → (∀ e ∈ s.entries, e.arrival ∈ as → e.generation = g) →
    Quiet (ofGeneration g) s (as.foldl (fun s a => s.promote now a) s) := by
  intro as
  induction as with
  | nil => intro s _ _; exact .refl _ s
  | cons a as ih =>
    intro s hn hgen
    have h : Quiet (ofGeneration g) s (s.promote now a) :=
      (quiet_promote hn now a).mono fun e he ha => hgen e he (ha ▸ List.mem_cons_self)
    refine h.trans (ih (h.numbered hn) fun _ he' ha' => ?_)
    obtain ⟨e, he, hq, -⟩ := forall₂_exists_left h.entries he'
    rw [hq.generation]
    exact hgen e he (List.mem_cons_of_mem _ (hq.arrival ▸ ha'))

theorem quiet_finishGeneration (s : Scheduler Value Receipt) (g : ℕ) :
    Quiet touched s (s.finishGeneration g) := by
  refine ((quiet_notifyCapacityChanged s).trans (quiet_mapEntries fun _ _ => ?_)).trans
    (quiet_setStatus _ g _)
  split
  · exact quietMove_of_eq rfl rfl rfl rfl rfl (.inl rfl) rfl rfl
  · exact quietMove_refl

theorem mem_entriesOf : e ∈ s.entriesOf g ↔ e ∈ s.entries ∧ e.generation = g := by
  simp [entriesOf]

theorem quiet_settleQueued (s : Scheduler Value Receipt) (g : ℕ) :
    Quiet (ofGeneration g) s (s.settleQueued g) := by
  refine Quiet.counters (quiet_mapEntries fun _ _ => ?_) _
  split
  · rename_i hq
    simp only [Bool.and_eq_true, decide_eq_true_eq] at hq
    exact quietMove_settle hq.2 hq.1 noEffect
  · exact quietMove_refl

/-- The abort branch and the first half of a round. -/
theorem quiet_loop (hn : s.Numbered) (limits : SchedulerLimits) (gen : Generation Value Receipt)
    (deadlineNow readyNow : ℕ → ℕ) :
    Quiet (ofGeneration g) s (s.loop limits g gen deadlineNow readyNow) := by
  rw [loop]
  split
  · exact quiet_finishGeneration s g
  · split
    · split
      · exact (quiet_settleQueued s g).trans (quiet_setStatus _ g _)
      · exact (quiet_settleQueued s g).trans (quiet_finishGeneration _ g)
    · have h₁ := quiet_expire s g deadlineNow
      refine (h₁.trans (quiet_foldl_promote readyNow (h₁.numbered hn) fun _ he ha => ?_)).trans
        (quiet_setStatus _ g _)
      obtain ⟨x, hx, hxa⟩ := List.mem_map.1 ha
      obtain ⟨hx, hxg⟩ := mem_entriesOf.1 hx
      rw [← (h₁.numbered hn).eq_of_arrival hx he hxa]
      exact hxg

theorem awaitsLock_iff {skipped : List ℕ} : awaitsLock g skipped e = true ↔
    e.generation = g ∧ e.arrival ∈ skipped ∧ e.state = .ready ∧ e.readySince.isSome = true := by
  simp [awaitsLock, and_assoc]

theorem quiet_syncWaiting (s : Scheduler Value Receipt) (g : ℕ) :
    Quiet touched s (s.syncWaiting g) := by
  refine quiet_mapEntries fun _ _ => ?_
  split
  · exact quietMove_of_eq rfl rfl rfl rfl rfl (.inl rfl) rfl rfl
  · exact quietMove_refl

theorem quiet_refuseLate (s : Scheduler Value Receipt) (limits : SchedulerLimits) (g : ℕ)
    (skipped : List ℕ) (now : ℕ → ℕ) :
    Quiet (ofGeneration g) s (s.refuseLate limits g skipped now) := by
  refine Quiet.counters (quiet_mapEntries fun _ _ => ?_) _
  split
  · rename_i hx
    rw [waitedTooLong, Bool.and_eq_true, awaitsLock_iff] at hx
    exact quietMove_refuse (Entry.isQueued_iff.2 (.inr hx.1.2.2.1)) hx.1.1 _
  · exact quietMove_refl

theorem quiet_conclude (s : Scheduler Value Receipt) (limits : SchedulerLimits) (g : ℕ)
    (skipped : List ℕ) (now : ℕ → ℕ) :
    Quiet (ofGeneration g) s (s.conclude limits g skipped now) := by
  have h := (quiet_syncWaiting s g).trans (quiet_refuseLate _ limits g skipped now)
  rw [conclude]
  split
  · exact h.trans (quiet_setStatus _ g _)
  · split
    · exact h.trans (quiet_finishGeneration _ g)
    · exact h.trans (quiet_setStatus _ g _)

end Parts

end Scheduler

end Falryn.Orchestration
