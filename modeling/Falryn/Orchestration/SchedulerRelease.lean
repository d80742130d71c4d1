import Falryn.Orchestration.SchedulerLocks

/-!
# The release of locks

What is left when all started units are over.  Every way for a unit to stop leads through `finish`,
which gives back its keys, its place and its reservation, with one exception: a runner that throws
before it returns a promise.  Its closure is left before the race begins, `finish` is never called,
and the unit stays `running` for the life of the scheduler (`thrown_runner_keeps_its_lock`).

`locks_release` shows that this is the only one.
-/

namespace Falryn.Orchestration.Scheduler

open Pointwise

variable {Value Receipt : Type} {s s' : Scheduler Value Receipt} {config : SchedulerConfig}

/-! ## Reservations -/

/-- The ledger holds an open reservation of exactly what the unit reserves. -/
def Reserved (ledger : BudgetLedger) (unit : WorkUnit) (id : String) : Prop :=
  validateAmounts (reservedAmounts unit) = .ok () ∧
    ∃ r, ledger.reservation? id = some r ∧ r.isOpen = true
      ∧ r.amounts = filled (reservedAmounts unit)

/-- The reservations taken by `start` are open while their units run, and closed after. -/
structure ReservationsOk (s : Scheduler Value Receipt) : Prop where
  running : ∀ e ∈ s.entries, ∀ id, e.reservation = some id → e.state = .running →
    Reserved s.ledger e.unit id
  ended : ∀ e ∈ s.entries, ∀ id, e.reservation = some id → e.state ≠ .running →
    ∃ r, s.ledger.reservation? id = some r ∧ r.isOpen = false
  injective : ∀ e ∈ s.entries, ∀ e' ∈ s.entries, ∀ id, e.reservation = some id →
    e'.reservation = some id → e.arrival = e'.arrival

variable {e : Entry Value Receipt} {id : String}

theorem ReservationsOk.known (h : s.ReservationsOk) (he : e ∈ s.entries) (hid : e.reservation = some id) : s.ledger.reservation? id ≠ none := by
  by_cases hr : e.state = .running
  · obtain ⟨-, r, hr, -⟩ := h.running e he id hid hr
    simp [hr]
  · obtain ⟨r, hr, -⟩ := h.ended e he id hid hr
    simp [hr]

theorem Quiet.reservationsOk {touched : ℕ → ℕ → Prop} (hq : Quiet touched s s')
    (h : s.ReservationsOk) : s'.ReservationsOk := by
  refine ⟨fun e' he' id hid hrun => ?_, fun e' he' id hid hrun => ?_,
    fun _ he₁' _ he₂' id h₁ h₂ => ?_⟩
  · obtain ⟨e, he, hm, -⟩ := forall₂_exists_left hq.entries he'
    rw [hq.ledger, hm.unit]
    exact h.running e he id (hm.reservation ▸ hid) (hm.running_iff.1 hrun)
  · obtain ⟨e, he, hm, -⟩ := forall₂_exists_left hq.entries he'
    rw [hq.ledger]
    exact h.ended e he id (hm.reservation ▸ hid) fun hr => hrun (hm.running_iff.2 hr)
  · obtain ⟨e₁, he₁, hm₁, -⟩ := forall₂_exists_left hq.entries he₁'
    obtain ⟨e₂, he₂, hm₂, -⟩ := forall₂_exists_left hq.entries he₂'
    rw [hm₁.arrival, hm₂.arrival]
    exact h.injective e₁ he₁ e₂ he₂ id (hm₁.reservation ▸ h₁) (hm₂.reservation ▸ h₂)

theorem Submitted.reservationsOk {work : List Submission} (hsub : s.Submitted s' work)
    (h : s.ReservationsOk) : s'.ReservationsOk := by
  obtain ⟨new, gen, hent, -, -, -, -, hfresh, -⟩ := hsub.added
  have hold : ∀ e ∈ s'.entries, ∀ id, e.reservation = some id → e ∈ s.entries := by
    intro e he id hid
    rw [hent] at he
    rcases List.mem_append.1 he with he | he
    · exact he
    · rw [(hfresh e he).reservation] at hid
      cases hid
  refine ⟨fun e he id hid => ?_, fun e he id hid => ?_, fun e₁ h₁ e₂ h₂ id hi₁ hi₂ => ?_⟩
  · rw [hsub.ledger]
    exact h.running e (hold e he id hid) id hid
  · rw [hsub.ledger]
    exact h.ended e (hold e he id hid) id hid
  · exact h.injective e₁ (hold e₁ h₁ id hi₁) e₂ (hold e₂ h₂ id hi₂) id hi₁ hi₂

/-- A launch takes a reservation nobody else has, or none. -/
theorem reservationsOk_launched (hc : s.Consistent) (h : s.ReservationsOk) {ledger : BudgetLedger} {reservation : Option String} {throws : Bool}
    (hl : Launches config s e ledger reservation)
    (ha : Agree ({ s with ledger }.launch e reservation throws) s') : s'.ReservationsOk := by
  -- the ledger keeps what it held, and holds the new reservation
  have hkept : ∀ x ∈ s.entries, ∀ id, x.reservation = some id →
      ledger.reservation? id = s.ledger.reservation? id ∧ reservation ≠ some id := by
    intro x hx id hid
    rcases hl.reserved with ⟨rfl, rfl⟩ | ⟨budgetId, id', rfl, hres⟩
    · exact ⟨rfl, by simp⟩
    · have hne : id ≠ id' := by
        rintro rfl
        exact h.known hx hid (BudgetLedger.reserve_ok hres).2.1
      exact ⟨(BudgetLedger.reserve_reservation? hres).2 id hne, by simpa using hne.symm⟩
  have hnew : ∀ id, reservation = some id → Reserved ledger e.unit id := by
    rintro id rfl
    rcases hl.reserved with ⟨h₀, -⟩ | ⟨budgetId, id', h₀, hres⟩
    · cases h₀
    · cases h₀
      exact ⟨(BudgetLedger.reserve_ok hres).1, (BudgetLedger.reserve_reservation? hres).1⟩
  have hled : s'.ledger = ledger := ha.ledger
  have hmem : ∀ e' ∈ s'.entries, ∃ x ∈ s.entries, e'.unit = x.unit ∧ e'.arrival = x.arrival
      ∧ ((x.arrival = e.arrival ∧ e'.state = .running ∧ e'.reservation = reservation)
        ∨ (x.arrival ≠ e.arrival ∧ (e'.state = .running ↔ x.state = .running)
          ∧ e'.reservation = x.reservation)) := by
    intro e' he'
    rw [ha.entries, launch_entries] at he'
    obtain ⟨x, hx, rfl⟩ := List.mem_map.1 he'
    have hsame := launchedEntry_same { s with ledger } e reservation throws x
    refine ⟨x, hx, hsame.1, hsame.2.2.1, ?_⟩
    by_cases hxe : x.arrival = e.arrival
    · have hself := launchedEntry_self (s := { s with ledger }) hxe reservation throws
      exact .inl ⟨hxe, hself.1, hself.2.1⟩
    · have hq := (launchedEntry_of_ne (s := { s with ledger }) hxe reservation throws).1
      exact .inr ⟨hxe, hq.running_iff, hq.reservation⟩
  refine ⟨fun e' he' id hid hrun => ?_, fun e' he' id hid hrun => ?_,
    fun e₁ he₁ e₂ he₂ id h₁ h₂ => ?_⟩
  · obtain ⟨x, hx, hu, -, ⟨hxe, -, hres⟩ | ⟨-, hst, hres⟩⟩ := hmem e' he'
    · obtain rfl := hc.numbered.eq_of_arrival hx hl.mem hxe
      rw [hled, hu]
      exact hnew id (hres ▸ hid)
    · have hx' := h.running x hx id (hres ▸ hid) (hst.1 hrun)
      rw [hled, hu, Reserved, (hkept x hx id (hres ▸ hid)).1]
      exact hx'
  · obtain ⟨x, hx, -, -, ⟨-, hst, -⟩ | ⟨-, hst, hres⟩⟩ := hmem e' he'
    · exact absurd hst hrun
    · rw [hled, (hkept x hx id (hres ▸ hid)).1]
      exact h.ended x hx id (hres ▸ hid) fun hr => hrun (hst.2 hr)
  · obtain ⟨x₁, hx₁, -, ha₁, hc₁⟩ := hmem e₁ he₁
    obtain ⟨x₂, hx₂, -, ha₂, hc₂⟩ := hmem e₂ he₂
    rw [ha₁, ha₂]
    rcases hc₁ with ⟨hxe₁, -, hr₁⟩ | ⟨-, -, hr₁⟩ <;> rcases hc₂ with ⟨hxe₂, -, hr₂⟩ | ⟨-, -, hr₂⟩
    · rw [hxe₁, hxe₂]
    · exact absurd (hr₁ ▸ h₁) (hkept x₂ hx₂ id (hr₂ ▸ h₂)).2
    · exact absurd (hr₂ ▸ h₂) (hkept x₁ hx₁ id (hr₁ ▸ h₁)).2
    · exact h.injective x₁ hx₁ x₂ hx₂ id (hr₁ ▸ h₁) (hr₂ ▸ h₂)

/-- **`finish` closes the reservation of its unit, and no other.** -/
theorem settleReservation_spec (h : s.ReservationsOk) (he : e ∈ s.entries)
    (hrun : e.state = .running) (raced : Raced Value) (hid : e.reservation = some id) :
    (∃ r, (s.settleReservation e raced).reservation? id = some r ∧ r.isOpen = false)
      ∧ ∀ id', id' ≠ id →
        (s.settleReservation e raced).reservation? id' = s.ledger.reservation? id' := by
  obtain ⟨hvalid, r, hr, hopen, ham⟩ := h.running e he id hid hrun
  have hclose : ∃ used, s.settleReservation e raced = s.ledger.close r used := by
    rw [settleReservation, hid]
    cases raced with
    | value value =>
      refine ⟨filled (reservedAmounts e.unit), ?_⟩
      dsimp only
      rw [BudgetLedger.call, BudgetLedger.consume_reserved hr hopen hvalid ham]
      rfl
    | _ =>
      refine ⟨fun _ => 0, ?_⟩
      dsimp only
      rw [BudgetLedger.call, BudgetLedger.release_open hr hopen]
      rfl
  obtain ⟨used, hused⟩ := hclose
  obtain ⟨-, hothers⟩ := BudgetLedger.close_spec hr used
  rw [hused]
  refine ⟨⟨{ r with isOpen := false }, ?_, rfl⟩, hothers⟩
  rw [BudgetLedger.close_reservation?, hr, Option.map_some, if_pos rfl]

theorem reservationsOk_finish (hc : s.Consistent) (h : s.ReservationsOk)
    (he : e ∈ s.entries) (hrun : e.state = .running) (raced : Raced Value) :
    (s.finish e raced).ReservationsOk := by
  obtain ⟨hent, -, -, hled, -⟩ := finish_spec hc.numbered he raced
  have hmem : ∀ e' ∈ (s.finish e raced).entries, ∃ x ∈ s.entries, e'.unit = x.unit
      ∧ e'.arrival = x.arrival ∧ e'.reservation = x.reservation
      ∧ ((x = e ∧ e'.state ≠ .running) ∨ (x.arrival ≠ e.arrival ∧ e'.state = x.state)) := by
    intro e' he'
    rw [hent] at he'
    obtain ⟨x, hx, rfl⟩ := List.mem_map.1 he'
    split
    · rename_i hxe
      exact ⟨x, hx, rfl, rfl, rfl,
        .inl ⟨hc.numbered.eq_of_arrival hx he hxe, by simp [finishedEntry]⟩⟩
    · rename_i hxe
      exact ⟨x, hx, rfl, rfl, rfl, .inr ⟨hxe, rfl⟩⟩
  -- a reservation of another unit is another reservation
  have hother : ∀ x ∈ s.entries, x.arrival ≠ e.arrival → ∀ id, x.reservation = some id →
      (s.settleReservation e raced).reservation? id = s.ledger.reservation? id := by
    intro x hx hxe id hid
    cases hres : e.reservation with
    | none =>
      rw [settleReservation, hres]
    | some =>
      refine (settleReservation_spec h he hrun raced hres).2 id ?_
      rintro rfl
      exact hxe (h.injective x hx e he id hid hres)
  refine ⟨fun e' he' id hid hr => ?_, fun e' he' id hid hr => ?_, fun e₁ he₁ e₂ he₂ id h₁ h₂ => ?_⟩
  · obtain ⟨x, hx, hu, -, hres, ⟨rfl, hst⟩ | ⟨hxe, hst⟩⟩ := hmem e' he'
    · exact absurd hr hst
    · have hx' := h.running x hx id (hres ▸ hid) (hst ▸ hr)
      rw [hled, hu, Reserved, hother x hx hxe id (hres ▸ hid)]
      exact hx'
  · obtain ⟨x, hx, -, -, hres, ⟨rfl, -⟩ | ⟨hxe, hst⟩⟩ := hmem e' he'
    · rw [hled]
      exact (settleReservation_spec h hx hrun raced (hres ▸ hid)).1
    · rw [hled, hother x hx hxe id (hres ▸ hid)]
      exact h.ended x hx id (hres ▸ hid) (hst ▸ hr)
  · obtain ⟨x₁, hx₁, -, ha₁, hr₁, -⟩ := hmem e₁ he₁
    obtain ⟨x₂, hx₂, -, ha₂, hr₂, -⟩ := hmem e₂ he₂
    rw [ha₁, ha₂]
    exact h.injective x₁ hx₁ x₂ hx₂ id (hr₁ ▸ h₁) (hr₂ ▸ h₂)

variable {event : SchedulerEvent Value Receipt}

theorem step_reservationsOk [DecidableEq Value]
    (hc : s.Consistent) (hr : s.ReservationsOk) (h : step config s event = some s') :
    s'.ReservationsOk := by
  cases step_cases hc h with
  | quiet _ hq => exact hq.reservationsOk hr
  | scheduled work aborted hs =>
    rw [hs]
    exact (submitted_schedule s config.limits work aborted).reservationsOk hr
  | launched e ledger _ _ hl _ ha => exact reservationsOk_launched hc hr hl ha
  | finished e raced he hrun _ hs =>
    rw [hs]
    exact reservationsOk_finish hc hr he hrun raced
  | ledger _ hid hs =>
    subst hs
    refine ⟨fun e he id hi hrun => ?_, fun e he id hi hrun => ?_, hr.injective⟩
    · rw [Reserved, BudgetLedger.call_reservation? _ _ (hid e he id hi)]
      exact hr.running e he id hi hrun
    · rw [BudgetLedger.call_reservation? _ _ (hid e he id hi)]
      exact hr.ended e he id hi hrun

/-! ## Units that are over -/

/-- A started unit has ended, or was abandoned by an abort or a deadline. -/
def IsOver (now : ℕ) (e : Entry Value Receipt) : Prop :=
  (∃ value, e.runner = .fulfilled value) ∨ e.runner = .rejected ∨ e.runner = .threw
    ∨ e.aborted = true ∨ ∃ deadline, e.unit.deadline = some deadline ∧ deadline ≤ now

/-- No continuation of a started unit is waiting to run. -/
def Quiescent [DecidableEq Value] (now : ℕ) (s : Scheduler Value Receipt) : Prop :=
  ∀ e ∈ s.runningEntries, ∀ raced, e.decides raced now = false

/-- No key is held, no place is taken, no reservation taken by `start` is open, and any unit would
find its keys free. -/
structure Freed (config : SchedulerConfig) (s : Scheduler Value Receipt) : Prop where
  held : ∀ k, s.held k = 0
  running : s.running = 0
  reservations : ∀ e ∈ s.entries, ∀ id, e.reservation = some id → ¬ s.ledger.IsOpen id
  admissible : 0 < config.limits.maxConcurrentPerKey →
    ∀ keys, s.keysAvailable config.limits keys = true

/-- What the invariants leave open when nothing runs: nothing. -/
theorem freed_of_idle (hl : s.LocksOk config) (hr : s.ReservationsOk)
    (hidle : s.runningEntries = []) : s.Freed config := by
  have howners : s.owners = [] := by rw [owners, hidle, List.map_nil]
  rw [LocksOk, howners] at hl
  obtain ⟨hheld, hrunning⟩ := hl.eq_zero
  refine ⟨hheld, hrunning, fun e he id hid => ?_, fun hpos _ => ?_⟩
  · have hst : e.state ≠ .running := by
      intro hst
      have hmem := mem_runningEntries.2 ⟨he, hst⟩
      rw [hidle] at hmem
      cases hmem
    obtain ⟨r, hr, hclosed⟩ := hr.ended e he id hid hst
    rintro ⟨r', hr', hopen⟩
    rw [hr] at hr'
    cases hr'
    rw [hclosed] at hopen
    cases hopen
  · rw [keysAvailable, List.all_eq_true]
    intro key _
    rw [hheld key]
    exact decide_eq_true hpos

variable {now : ℕ}

/-- A race with a unit that is over has a winner, unless its runner threw. -/
theorem exists_decides [DecidableEq Value] (h : IsOver now e)
    (ht : e.runner ≠ .threw) : ∃ raced, e.decides raced now = true := by
  rcases h with ⟨value, h⟩ | h | h | h | ⟨deadline, h, hle⟩
  · exact ⟨.value value, by simp [Entry.decides, h]⟩
  · exact ⟨.error, by simp [Entry.decides, h]⟩
  · exact absurd h ht
  · exact ⟨.aborted, by simp [Entry.decides, h, ht]⟩
  · exact ⟨.expired, by simp [Entry.decides, h, ht, hle]⟩

/-- All running units are over, and none of them threw. -/
def AllOver (now : ℕ) (s : Scheduler Value Receipt) : Prop :=
  ∀ e ∈ s.runningEntries, IsOver now e ∧ e.runner ≠ .threw

theorem step_finish [DecidableEq Value] {arrival : ℕ} {raced : Raced Value}
    (h : step config s (.finish arrival raced now) = some s') :
    ∃ e ∈ s.entries, e.arrival = arrival ∧ e.state = .running ∧ s' = s.finish e raced := by
  obtain ⟨e, he, hfin⟩ := Option.bind_eq_some_iff.1 h
  obtain ⟨hmem, ha⟩ := entryAt_some he
  split at hfin
  · rename_i hcond
    cases hfin
    exact ⟨e, hmem, ha, hcond.1, rfl⟩
  · cases hfin

/-- Whoever still runs after a finish ran before it, just as it was. -/
theorem runningEntries_finish (hc : s.Consistent) (he : e ∈ s.entries)
    (raced : Raced Value) : ∀ x ∈ (s.finish e raced).runningEntries, x ∈ s.runningEntries := by
  intro x hx
  obtain ⟨hx, hrun⟩ := mem_runningEntries.1 hx
  rw [(finish_spec hc.numbered he raced).1] at hx
  obtain ⟨y, hy, rfl⟩ := List.mem_map.1 hx
  split at hrun
  · simp [finishedEntry] at hrun
  · rename_i hne
    rw [if_neg hne]
    exact mem_runningEntries.2 ⟨hy, hrun⟩

/-- **The continuations do run**: as many of them as units are running. -/
theorem exists_drain [DecidableEq Value] (config : SchedulerConfig) : ∀ (n : ℕ) {s : Scheduler Value Receipt},
    s.Consistent → s.AllOver now → s.runningEntries.length = n →
    ∃ ends s', (∀ event ∈ ends, SchedulerEvent.isFinish event = true)
      ∧ StateMachine.run (step config) s ends = some s' ∧ s'.runningEntries = [] := by
  intro n
  induction n with
  | zero =>
    intro s _ _ hlen
    exact ⟨[], s, by simp, rfl, List.length_eq_zero_iff.1 hlen⟩
  | succ n ih =>
    intro s hc hover hlen
    obtain ⟨e, he⟩ := List.exists_mem_of_length_pos (l := s.runningEntries) (by omega)
    obtain ⟨hmem, hrun⟩ := mem_runningEntries.1 he
    obtain ⟨raced, hdec⟩ := exists_decides (hover e he).1 (hover e he).2
    have hstep : step config s (.finish e.arrival raced now) = some (s.finish e raced) := by
      simp only [step, hc.numbered.entryAt_eq hmem, Option.bind_some]
      exact if_pos ⟨hrun, hdec⟩
    have hlen' : (s.finish e raced).runningEntries.length = n := by
      have hp := (owners_finish hc.numbered hmem hrun raced).length_eq
      rw [owners, List.length_map, hlen, List.length_cons, owners, List.length_map] at hp
      omega
    obtain ⟨ends, s', hall, hends, hidle⟩ := ih (step_consistent hc hstep)
      (fun x hx => hover x (runningEntries_finish hc hmem raced x hx)) hlen'
    exact ⟨.finish e.arrival raced now :: ends, s',
      List.forall_mem_cons.2 ⟨rfl, hall⟩, StateMachine.run_cons.2 ⟨_, hstep, hends⟩, hidle⟩

/-! ## Runners that throw -/

/-- No runner has thrown. -/
def NoneThrew (s : Scheduler Value Receipt) : Prop := ∀ e ∈ s.entries, e.runner ≠ .threw

theorem step_noneThrew [DecidableEq Value]
    (hc : s.Consistent) (hnone : s.NoneThrew) (hev : event.throwsSynchronously = false)
    (h : step config s event = some s') : s'.NoneThrew := by
  cases step_cases hc h with
  | quiet _ hq =>
    intro e' he' ht
    obtain ⟨e, he, hm, -⟩ := forall₂_exists_left hq.entries he'
    exact hnone e he (hm.threw.1 ht)
  | scheduled work aborted hs =>
    intro e' he' ht
    obtain ⟨new, gen, hent, -, -, -, -, hfresh, -⟩ :=
      (submitted_schedule s config.limits work aborted).added
    rw [hs, hent] at he'
    rcases List.mem_append.1 he' with he' | he'
    · exact hnone e' he' ht
    · rw [(hfresh e' he').runner] at ht
      cases ht
  | launched e ledger reservation _ _ hthrows ha =>
    intro e' he' ht
    rw [hev] at hthrows
    subst hthrows
    rw [ha.entries, launch_entries] at he'
    obtain ⟨x, hx, rfl⟩ := List.mem_map.1 he'
    by_cases hxe : x.arrival = e.arrival
    · rw [(launchedEntry_self hxe reservation false).2.2] at ht
      cases ht
    · exact hnone x hx ((launchedEntry_of_ne hxe reservation false).1.threw.1 ht)
  | finished e raced he _ _ hs =>
    intro e' he' ht
    rw [hs, (finish_spec hc.numbered he raced).1] at he'
    obtain ⟨x, hx, rfl⟩ := List.mem_map.1 he'
    refine hnone x hx ?_
    split at ht <;> exact ht
  | ledger _ _ hs =>
    rw [hs]
    exact hnone

/-- The invariants of a run, together. -/
structure Healthy (config : SchedulerConfig) (s : Scheduler Value Receipt) : Prop where
  consistent : s.Consistent
  locks : s.LocksOk config
  reservations : s.ReservationsOk
  noneThrew : s.NoneThrew

theorem step_healthy [DecidableEq Value]
    (hh : s.Healthy config) (hev : event.throwsSynchronously = false)
    (h : step config s event = some s') : s'.Healthy config :=
  ⟨step_consistent hh.consistent h, step_locksOk hh.consistent hh.locks h,
    step_reservationsOk hh.consistent hh.reservations h,
    step_noneThrew hh.consistent hh.noneThrew hev h⟩

theorem healthy_createScheduler (ledger : BudgetLedger) :
    (createScheduler ledger : Scheduler Value Receipt).Healthy config := by
  refine ⟨consistent_createScheduler ledger, LockTable.accounts_nil, ⟨?_, ?_, ?_⟩, ?_⟩
  all_goals
    intro e he
    cases he

theorem finish_allOver [DecidableEq Value]
    (hh : s.Healthy config) (hover : s.AllOver now) (hev : event.isFinish = true)
    (h : step config s event = some s') : s'.AllOver now := by
  cases event with
  | finish _ raced =>
    obtain ⟨e, he, -, -, rfl⟩ := step_finish h
    exact fun x hx => hover x (runningEntries_finish hh.consistent he raced x hx)
  | _ => cases hev

/-- **Locks release on every terminal path, as long as no runner throws synchronously.**  Take any
run in which no call of a runner throws before it returns a promise, to a state in which every
started unit has ended or was abandoned.  The continuations that are then due can all run, and
however they run, once none is left no key is held, `running` is zero, no reservation taken by
`start` is open, and a later unit finds its keys free. -/
theorem locks_release [DecidableEq Value] (config : SchedulerConfig) (ledger : BudgetLedger)
    (events : List (SchedulerEvent Value Receipt)) (s : Scheduler Value Receipt) (now : ℕ)
    (h : Reaches config ledger events s)
    (hthrow : ∀ event ∈ events, event.throwsSynchronously = false)
    (hover : ∀ e ∈ s.entries, e.runner ≠ .idle → IsOver now e) :
    (∃ ends s', (∀ event ∈ ends, SchedulerEvent.isFinish event = true)
        ∧ StateMachine.run (step config) s ends = some s' ∧ s'.Quiescent now)
      ∧ ∀ ends s', (∀ event ∈ ends, SchedulerEvent.isFinish event = true) →
        StateMachine.run (step config) s ends = some s' → s'.Quiescent now → s'.Freed config := by
  have hh : s.Healthy config :=
    StateMachine.run_preserves (I := Healthy config)
      (fun event => event.throwsSynchronously = false) (fun _ _ _ hh hev hstep => step_healthy hh hev hstep) (healthy_createScheduler ledger) hthrow h
  have hall : s.AllOver now := by
    intro e he
    obtain ⟨hmem, hrun⟩ := mem_runningEntries.1 he
    exact ⟨hover e hmem ((hh.consistent.entries e hmem).running hrun).1, hh.noneThrew e hmem⟩
  constructor
  · obtain ⟨ends, s', hends, hrun, hidle⟩ := exists_drain config _ hh.consistent hall rfl
    refine ⟨ends, s', hends, hrun, fun e he => ?_⟩
    rw [hidle] at he
    cases he
  · intro ends s' hends hrun hquiet
    have hs' : s'.Healthy config ∧ s'.AllOver now := by
      refine StateMachine.run_preserves (I := fun t => Healthy config t ∧ AllOver now t)
        (fun event => event.isFinish = true) ?_ ⟨hh, hall⟩ hends hrun
      intro t event t' ht hev hstep
      have hno : event.throwsSynchronously = false := by
        cases event <;> first | rfl | cases hev
      exact ⟨step_healthy ht.1 hno hstep, finish_allOver ht.1 ht.2 hev hstep⟩
    refine freed_of_idle hs'.1.locks hs'.1.reservations ?_
    rw [List.eq_nil_iff_forall_not_mem]
    intro e he
    obtain ⟨raced, hdec⟩ := exists_decides (hs'.2 e he).1 (hs'.2 e he).2
    rw [hquiet e he raced] at hdec
    cases hdec

/-! ### A unit that fulfils, and one that throws -/

/-- One unit runs to its end and its key is free again. -/
theorem fulfilled_runner_releases : ∃ s : Scheduler ℕ Unit,
    Reaches plainConfig .empty (startOne 0 "only" false ++ [.fulfil 0 7]) s
      ∧ s.held "file:notes.txt" = 1
      ∧ ∀ ends s', (∀ event ∈ ends, SchedulerEvent.isFinish event = true) →
        StateMachine.run (step plainConfig) s ends = some s' → s'.Quiescent 0 →
        s'.Freed plainConfig := by
  have hrun : ((StateMachine.run (step plainConfig) (createScheduler .empty)
      (startOne 0 "only" false ++ [.fulfil 0 7])).map
        fun s : Scheduler ℕ Unit => (s.held "file:notes.txt", s.entries.map Entry.runner))
      = some (1, [.fulfilled 7]) := by
    decide +kernel
  obtain ⟨s, hs, hst⟩ := Option.map_eq_some_iff.1 hrun
  obtain ⟨hheld, hrunners⟩ := Prod.mk.inj hst
  refine ⟨s, hs, hheld, (locks_release plainConfig .empty _ s 0 hs ?_ ?_).2⟩
  · decide
  · intro e he _
    have hmem := List.mem_map_of_mem (f := Entry.runner) he
    rw [hrunners, List.mem_singleton] at hmem
    exact .inl ⟨7, hmem⟩

/-- A unit whose runner throws synchronously is over at once, no continuation of it is due, and its
key and its place are never given back: a later unit on the key waits. -/
theorem thrown_runner_keeps_its_lock : ∃ s : Scheduler ℕ Unit,
    Reaches plainConfig .empty
        (startOne 0 "thrown" true ++ [.forget 0] ++ startOne 1 "later" false) s
      ∧ (∀ e ∈ s.entries, e.runner ≠ .idle → IsOver 0 e) ∧ s.Quiescent 0
      ∧ s.held "file:notes.txt" = 1 ∧ s.running = 1
      ∧ s.entries.map Entry.state = [.running, .ready] ∧ ¬ s.Freed plainConfig := by
  have hrun : ((StateMachine.run (step plainConfig) (createScheduler .empty)
      (startOne 0 "thrown" true ++ [.forget 0] ++ startOne 1 "later" false)).map
        fun s : Scheduler ℕ Unit => (s.held "file:notes.txt", s.running,
          s.entries.map fun e => (e.state, e.runner)))
      = some (1, 1, [(.running, .threw), (.ready, .idle)]) := by
    decide +kernel
  obtain ⟨s, hs, hst⟩ := Option.map_eq_some_iff.1 hrun
  obtain ⟨hheld, hrest⟩ := Prod.mk.inj hst
  obtain ⟨hrunning, hpairs⟩ := Prod.mk.inj hrest
  have hmem : ∀ e ∈ s.entries,
      (e.state = .running ∧ e.runner = .threw) ∨ (e.state = .ready ∧ e.runner = .idle) := by
    intro e he
    have := List.mem_map_of_mem (f := fun e : Entry ℕ Unit => (e.state, e.runner)) he
    rw [hpairs] at this
    simpa using this
  refine ⟨s, hs, fun e he hne => ?_, fun e he _ => ?_, hheld, hrunning, ?_, fun hfreed => ?_⟩
  · rcases hmem e he with ⟨-, ht⟩ | ⟨-, ht⟩
    · exact .inr (.inr (.inl ht))
    · exact absurd ht hne
  · obtain ⟨he, hrun⟩ := mem_runningEntries.1 he
    rcases hmem e he with ⟨-, ht⟩ | ⟨hst, -⟩
    · simp [Entry.decides, ht]
    · rw [hst] at hrun
      cases hrun
  · have := congrArg (List.map Prod.fst) hpairs
    rwa [List.map_map] at this
  · have := hfreed.held "file:notes.txt"
    rw [hheld] at this
    cases this

end Falryn.Orchestration.Scheduler
