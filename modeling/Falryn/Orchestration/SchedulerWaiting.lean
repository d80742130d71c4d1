import Falryn.Orchestration.SchedulerResults

/-!
# The units that wait

`waitingUnits` is one set for all generations: the report counts it, and so do the limits of the queue.
A generation brings its part of the set up to date once in a round, after it has tried its ready units,
and takes it out when it is over.  In between the set may lag behind: `Loose` says how far.  A generation
that is aborted while units of it run settles what is queued and goes to its await without that update.

A run is watched here together with the generations whose code is between two awaits.
-/

namespace Falryn.Orchestration

open Pointwise

variable {Value Receipt : Type}

/-! ## Definitions -/

namespace Scheduler

section Definitions

variable (s : Scheduler Value Receipt)

/-- `waitingUnits`. -/
def waitingUnits : List (Entry Value Receipt) := s.entries.filter Entry.waiting

def hasReturned (g : ℕ) : Bool := s.status? g matches some (.returned _)

/-- Whether a generation is at one of its two awaits. -/
def isParked (g : ℕ) : Bool := s.status? g matches some (.parked _ _)

/-- The set is that of the blocked and the ready units of all generations that have not returned. -/
def WaitingExact : Prop :=
  s.waitingUnits = s.entries.filter fun e => e.isQueued && !s.hasReturned e.generation

/-- Whether an event leads a generation to an await: in its abort branch, as long as units of it run, or
at the end of a round that settled nothing late. -/
def parks (config : SchedulerConfig) : SchedulerEvent Value Receipt → Bool
  | .loop g _ _ => !s.allSettled g &&
      (s.generations[g]?).any fun gen => gen.aborted && decide (gen.inflight.length > 0)
  | .conclude g now => !s.allSettled g &&
      match s.status? g with
      | some (.admitting _ skipped) => !s.entries.any (waitedTooLong config.limits g skipped now)
      | _ => false
  | _ => false

end Definitions

/-- A run as it is watched. -/
structure Watched (Value Receipt : Type) where
  scheduler : Scheduler Value Receipt
  /-- The generations whose code is between two awaits. -/
  inRound : ℕ → Bool

namespace Watched

def start (ledger : BudgetLedger) : Watched Value Receipt := ⟨createScheduler ledger, fun _ => false⟩

/-- A generation that has run some of its code is in a round until it parks or returns. -/
def roundsAfter (inRound : ℕ → Bool) (s : Scheduler Value Receipt) : Option ℕ → ℕ → Bool
  | some g => Function.update inRound g (!s.isParked g && !s.hasReturned g)
  | none => inRound

def step [DecidableEq Value] (config : SchedulerConfig) (w : Watched Value Receipt)
    (event : SchedulerEvent Value Receipt) : Option (Watched Value Receipt) :=
  (Scheduler.step config w.scheduler event).map fun s => ⟨s, roundsAfter w.inRound s event.runs⟩

/-- Between two steps, an await: some generation has just come to one, or no code runs at all. -/
def AtAwait (w : Watched Value Receipt) (event : SchedulerEvent Value Receipt) : Prop :=
  (∃ g, event.runs = some g ∧ w.scheduler.isParked g = true) ∨ ∀ g, w.inRound g = false

/-- The condition on a step that leads to an await: nothing of a generation in its abort branch waits,
and no other generation is in a round in which it has settled a unit that waits. -/
def Synced (config : SchedulerConfig) (w : Watched Value Receipt) (event : SchedulerEvent Value Receipt) :
    Prop :=
  w.scheduler.parks config event = true → ∀ e ∈ w.scheduler.entries, e.waiting = true →
    if event.runs = some e.generation then ¬ event matches .loop _ _ _
    else w.inRound e.generation = true → e.isQueued = true

instance (config : SchedulerConfig) (w : Watched Value Receipt) (event : SchedulerEvent Value Receipt) :
    Decidable (Synced config w event) :=
  inferInstanceAs (Decidable (_ → ∀ e ∈ w.scheduler.entries, _))

end Watched

end Scheduler

/-! ## Entries -/

namespace Entry

/-- What a unit's place in the set depends on stays. -/
structure Still (e e' : Entry Value Receipt) : Prop where
  generation : e'.generation = e.generation
  waiting : e'.waiting = e.waiting
  queued : e'.isQueued = e.isQueued
  running : e'.state = .running → e.state = .running

/-- In the middle of a round a queued unit waits, and one that waits does not run. -/
def Loose (e : Entry Value Receipt) : Prop :=
  (e.isQueued = true → e.waiting = true) ∧ (e.waiting = true → e.state ≠ .running)

/-- A move of a round of the generation `g`. -/
structure Loosens (g : ℕ) (e e' : Entry Value Receipt) : Prop where
  generation : e'.generation = e.generation
  elsewhere : e.generation ≠ g → Still e e'
  own : e.generation = g → Loose e → Loose e'

variable {e e' e'' : Entry Value Receipt} {g : ℕ}

theorem Still.refl (e : Entry Value Receipt) : Still e e := ⟨rfl, rfl, rfl, id⟩

theorem Still.trans (h : Still e e') (h' : Still e' e'') : Still e e'' :=
  ⟨h'.generation.trans h.generation, h'.waiting.trans h.waiting, h'.queued.trans h.queued,
    fun hr => h.running (h'.running hr)⟩

theorem Still.loose (h : Still e e') (hl : Loose e) : Loose e' := by
  refine ⟨fun hq => ?_, fun hw hr => ?_⟩
  · rw [h.waiting]
    exact hl.1 (h.queued ▸ hq)
  · exact hl.2 (h.waiting ▸ hw) (h.running hr)

theorem Still.loosens (h : Still e e') : Loosens g e e' := ⟨h.generation, fun _ => h, fun _ => h.loose⟩

theorem Loosens.trans (h : Loosens g e e') (h' : Loosens g e' e'') : Loosens g e e'' := by
  refine ⟨h'.generation.trans h.generation, fun hg => ?_, fun hg hl => ?_⟩
  · exact (h.elsewhere hg).trans (h'.elsewhere (h.generation ▸ hg))
  · exact h'.own (h.generation.trans hg) (h.own hg hl)

/-- A move of an own unit. -/
theorem loosens_own (hg : e.generation = g) (hgen : e'.generation = e.generation) (h : Loose e') :
    Loosens g e e' :=
  ⟨hgen, fun hne => absurd hg hne, fun _ _ => h⟩

theorem loose_of_settled (h : e.state = .settled) : Loose e := by
  refine ⟨fun hq => ?_, fun _ hr => ?_⟩
  · rw [isQueued_iff, h] at hq
    simp at hq
  · rw [h] at hr
    cases hr

end Entry

namespace Scheduler

variable {s s' s'' : Scheduler Value Receipt} {config : SchedulerConfig} {g j : ℕ}
  {e : Entry Value Receipt} {event : SchedulerEvent Value Receipt} {t : Scheduler Value Receipt}

/-! ## The parts of a round -/

/-- A part of a round of the generation `g`. -/
def Loosens (g : ℕ) (s s' : Scheduler Value Receipt) : Prop :=
  List.Forall₂ (Entry.Loosens g) s.entries s'.entries

theorem Loosens.refl (s : Scheduler Value Receipt) : Loosens g s s :=
  List.forall₂_same.2 fun e _ => (Entry.Still.refl e).loosens

theorem Loosens.trans (h : Loosens g s s') (h' : Loosens g s' s'') : Loosens g s s'' :=
  forall₂_trans (R := Entry.Loosens g) (S := Entry.Loosens g) (fun _ _ _ h₁ h₂ => h₁.trans h₂) h h'

theorem loosens_settleQueued (s : Scheduler Value Receipt) : Loosens g s (s.settleQueued g) := by
  refine forall₂_map_self fun x _ => ?_
  dsimp only
  split
  · rename_i hq
    simp only [Bool.and_eq_true, decide_eq_true_eq] at hq
    exact Entry.loosens_own hq.1 rfl (Entry.loose_of_settled rfl)
  · exact (Entry.Still.refl x).loosens

theorem loosens_expire (s : Scheduler Value Receipt) (now : ℕ → ℕ) :
    Loosens g s (s.expire g now) := by
  refine forall₂_map_self fun x _ => ?_
  dsimp only
  split
  · rename_i hdue
    simp only [Bool.and_eq_true, decide_eq_true_eq] at hdue
    exact Entry.loosens_own hdue.1.1 rfl (Entry.loose_of_settled rfl)
  · exact (Entry.Still.refl x).loosens

theorem loosens_refuse (hn : s.Numbered) (he : e ∈ s.entries) (hg : e.generation = g)
    (error : SchedulingError Receipt) : Loosens g s (s.refuse e.arrival error) := by
  refine forall₂_map_self fun x hx => ?_
  split
  · rename_i hxa
    obtain rfl := hn.eq_of_arrival hx he hxa
    exact Entry.loosens_own hg rfl (Entry.loose_of_settled rfl)
  · exact (Entry.Still.refl x).loosens

theorem loosens_promote (hn : s.Numbered) (now : ℕ → ℕ) {a : ℕ}
    (ha : ∀ e ∈ s.entries, e.arrival = a → e.generation = g) : Loosens g s (s.promote now a) := by
  rw [promote]
  split
  · exact .refl s
  · rename_i e he
    obtain ⟨hmem, rfl⟩ := entryAt_some he
    split
    · exact .refl s
    · rename_i hcond
      rw [not_or, not_not] at hcond
      split
      · exact loosens_refuse hn hmem (ha e hmem rfl) _
      · refine forall₂_map_self fun x hx => ?_
        split
        · rename_i hxa
          -- a blocked unit was queued, and so is a ready one
          obtain rfl := hn.eq_of_arrival hx hmem hxa
          have hq : x.isQueued = true := Entry.isQueued_iff.2 (.inl hcond.1)
          exact Entry.Still.loosens ⟨rfl, rfl, hq.symm, (by simp)⟩
        · exact (Entry.Still.refl x).loosens

theorem loosens_foldl_promote (now : ℕ → ℕ) : ∀ {as : List ℕ} {s : Scheduler Value Receipt},
    s.Numbered → (∀ e ∈ s.entries, e.arrival ∈ as → e.generation = g) →
    Loosens g s (as.foldl (fun s a => s.promote now a) s) := by
  intro as
  induction as with
  | nil => exact fun _ _ => .refl _
  | cons a as ih =>
    intro s hn hgen
    have hq := quiet_promote hn now a
    refine Loosens.trans (loosens_promote hn now fun e he ha => hgen e he (ha ▸ List.mem_cons_self))
      (ih (hq.numbered hn) fun _ he' ha' => ?_)
    obtain ⟨e, he, hm, -⟩ := forall₂_exists_left hq.entries he'
    rw [hm.generation]
    exact hgen e he (List.mem_cons_of_mem _ (hm.arrival ▸ ha'))

theorem loosens_launch (hn : s.Numbered) (he : e ∈ s.entries) (hg : e.generation = g)
    (reservation : Option String) (throws : Bool) : Loosens g s (s.launch e reservation throws) := by
  refine forall₂_map_self fun x hx => ?_
  split
  · rename_i hxa
    obtain rfl := hn.eq_of_arrival hx he hxa
    refine Entry.loosens_own hg rfl ⟨fun hq => ?_, nofun⟩
    rw [Entry.isQueued_iff] at hq
    simp at hq
  · split
    · exact Entry.Still.loosens ⟨rfl, rfl, rfl, id⟩
    · exact (Entry.Still.refl x).loosens

theorem loosens_start (hn : s.Numbered) (he : e ∈ s.entries) (hg : e.generation = g)
    (admission : Admission Receipt) (reservationId : String) (throws : Bool) :
    Loosens g s (s.start config e admission reservationId throws) := by
  cases admission with
  | wait =>
    simp only [start]
    split
    · exact .refl s
    · refine forall₂_map_self fun _ _ => ?_
      split <;> exact Entry.Still.loosens ⟨rfl, rfl, rfl, id⟩
  | refused => exact loosens_refuse hn he hg _
  | ready =>
    simp only [start]
    split
    · exact loosens_launch hn he hg none throws
    · split
      · exact loosens_refuse hn he hg _
      · exact loosens_launch (s := { s with ledger := _ }) hn he hg _ throws

theorem loosens_syncWaiting (s : Scheduler Value Receipt) : Loosens g s (s.syncWaiting g) := by
  refine forall₂_map_self fun x _ => ?_
  split
  · refine Entry.loosens_own ‹_› rfl ⟨id, fun hw hr => ?_⟩
    rcases Entry.isQueued_iff.1 hw with hst | hst <;> exact nomatch hst.symm.trans hr
  · exact (Entry.Still.refl x).loosens

theorem loosens_refuseLate (s : Scheduler Value Receipt) (limits : SchedulerLimits)
    (skipped : List ℕ) (now : ℕ → ℕ) : Loosens g s (s.refuseLate limits g skipped now) := by
  refine forall₂_map_self fun x _ => ?_
  split
  · rename_i hx
    rw [waitedTooLong, Bool.and_eq_true, awaitsLock_iff] at hx
    exact Entry.loosens_own hx.1.1 rfl (Entry.loose_of_settled rfl)
  · exact (Entry.Still.refl x).loosens

/-! ## A round -/

theorem Follows.hasReturned (h : Follows s s' j) : s'.hasReturned j = s.hasReturned j := by
  rcases h with h | ⟨⟨_, _, hp⟩, h | h⟩
  · rw [Scheduler.hasReturned, h, Scheduler.hasReturned]
  · rw [Scheduler.hasReturned, h, Scheduler.hasReturned, hp]
  · rw [Scheduler.hasReturned, h, Scheduler.hasReturned, hp]

/-- **What an event of the loop of a generation leads to.** -/
inductive RoundStep (config : SchedulerConfig) (event : SchedulerEvent Value Receipt) (g : ℕ)
    (s s' : Scheduler Value Receipt) : Prop where
  /-- The generation is over and out of the set. -/
  | ended (hret : s'.hasReturned g = true) (t : Scheduler Value Receipt) (ht : Loosens g s t)
      (hent : s'.entries
        = t.entries.map fun e => if e.generation = g then { e with waiting := false } else e)
  /-- Its round goes on. -/
  | inside (hret : s'.hasReturned g = false) (hpark : s'.isParked g = false) (h : Loosens g s s')
  /-- It comes to an await. -/
  | parked (hret : s'.hasReturned g = false) (hparks : s.parks config event = true)
      (h : Loosens g s s')
      (hown : ∀ e' ∈ s'.entries, e'.generation = g → e'.waiting = true → e'.isQueued = true ∨
        ∃ e ∈ s.entries, e.generation = g ∧ e.waiting = true ∧ ∃ d r, event = .loop g d r)

theorem status?_setStatus_some {status : GenerationStatus Value Receipt}
    (h : g < t.generations.length) : (t.setStatus g status).status? g = some status := by
  rw [status?_setStatus_self, status?, List.getElem?_eq_getElem h]
  rfl

/-- The end of a generation. -/
theorem roundStep_finishGeneration (hg : g < t.generations.length)
    (ht : Loosens g s t) : RoundStep config event g s (t.finishGeneration g) := by
  refine .ended ?_ t ht rfl
  rw [hasReturned, finishGeneration, status?_setStatus_some]
  rwa [mapEntries, notifyCapacityChanged, List.length_map]

theorem roundStep_loop (hn : s.Numbered) {gen : Generation Value Receipt}
    (hgen : s.generations[g]? = some gen) {deadlineNow readyNow : ℕ → ℕ} :
    RoundStep config (.loop g deadlineNow readyNow) g s
      (s.loop config.limits g gen deadlineNow readyNow) := by
  have hg : g < s.generations.length := (List.getElem?_eq_some_iff.1 hgen).1
  rw [loop]
  split
  · exact roundStep_finishGeneration hg (.refl s)
  · rename_i hall
    split
    · rename_i haborted
      split
      · rename_i hinflight
        have hstatus : ((s.settleQueued g).setStatus g (.parked false none)).status? g
            = some (.parked false none) := status?_setStatus_some hg
        refine .parked (by rw [hasReturned, hstatus]) ?_ (loosens_settleQueued s) ?_
        · rw [parks, hgen, Option.any_some, haborted, Bool.not_eq_true _ |>.mp hall]
          simpa using hinflight
        · intro e' he' hge hw
          obtain ⟨e, he, rfl⟩ := List.mem_map.1 he'
          refine .inr ⟨e, he, ?_, ?_, deadlineNow, readyNow, rfl⟩
          · dsimp only at hge
            split at hge <;> exact hge
          · dsimp only at hw
            split at hw <;> exact hw
      · exact roundStep_finishGeneration hg (loosens_settleQueued s)
    · have h₁ := quiet_expire s g deadlineNow
      have hloose : Loosens g s _ := (loosens_expire s deadlineNow).trans
        (@loosens_foldl_promote _ _ _ readyNow (((s.expire g deadlineNow).entriesOf g).map Entry.arrival) _
          (h₁.numbered hn) fun e he ha => by
            obtain ⟨x, hx, hxa⟩ := List.mem_map.1 ha
            obtain ⟨hx, hxg⟩ := mem_entriesOf.1 hx
            rw [← (h₁.numbered hn).eq_of_arrival hx he hxa]
            exact hxg)
      have hstatus := fun status : GenerationStatus Value Receipt =>
        @status?_setStatus_some _ _ g ((((s.expire g deadlineNow).entriesOf g).map Entry.arrival).foldl
            (fun s a => s.promote readyNow a) (s.expire g deadlineNow)) status
          (by rw [generations_foldl_promote]; exact hg)
      refine .inside ?_ ?_ hloose
      · rw [hasReturned, hstatus]
      · rw [isParked, hstatus]

theorem allSettled_syncWaiting (s : Scheduler Value Receipt) (g : ℕ) :
    (s.syncWaiting g).allSettled g = s.allSettled g := by
  simp only [allSettled, entriesOf, syncWaiting, mapEntries, List.all_filter, List.all_map]
  congr 1
  funext x
  rw [Function.comp_apply]
  split <;> rfl

variable {limits : SchedulerLimits} {skipped : List ℕ} {now : ℕ → ℕ}

theorem late_syncWaiting : (s.syncWaiting g).entries.any (waitedTooLong limits g skipped now)
    = s.entries.any (waitedTooLong limits g skipped now) := by
  rw [syncWaiting, mapEntries, List.any_map]
  congr 1
  funext x
  rw [Function.comp_apply]
  split <;> rfl

theorem entries_refuseLate_of_not_late
    (h : ¬ s.entries.any (waitedTooLong limits g skipped now) = true) :
    (s.refuseLate limits g skipped now).entries = s.entries := by
  rw [refuseLate, mapEntries]
  refine (List.map_congr_left fun x hx => if_neg fun hlate => ?_).trans (List.map_id _)
  exact h (List.any_eq_true.2 ⟨x, hx, hlate⟩)

theorem roundStep_conclude (hst : s.status? g = some (.admitting [] skipped)) :
    RoundStep config (.conclude g now) g s (s.conclude config.limits g skipped now) := by
  obtain ⟨gen, hgen, -⟩ := Option.map_eq_some_iff.1 hst
  have hg : g < s.generations.length := (List.getElem?_eq_some_iff.1 hgen).1
  have hloose : Loosens g s ((s.syncWaiting g).refuseLate config.limits g skipped now) :=
    (loosens_syncWaiting s).trans (loosens_refuseLate _ _ _ _)
  have hstatus : ∀ status, (((s.syncWaiting g).refuseLate config.limits g skipped now).setStatus g
      status).status? g = some status := fun status => status?_setStatus_some hg
  rw [conclude]
  split
  · exact .inside (by rw [hasReturned, hstatus]) (by rw [isParked, hstatus]) hloose
  · rename_i hlate
    split
    · exact roundStep_finishGeneration hg hloose
    · rename_i hall
      have hent := entries_refuseLate_of_not_late hlate
      refine .parked (by rw [hasReturned, hstatus]) ?_ hloose fun e' he' hge hw => ?_
      · rw [allSettled, entriesOf, hent, ← entriesOf, ← allSettled, allSettled_syncWaiting] at hall
        rw [late_syncWaiting] at hlate
        simp only [parks, hst, Bool.not_eq_true _ |>.mp hall, Bool.not_eq_true _ |>.mp hlate,
          Bool.not_false, Bool.and_self]
      · have hmem : e' ∈ (s.syncWaiting g).entries := hent ▸ he'
        obtain ⟨x, -, rfl⟩ := List.mem_map.1 hmem
        left
        split at hw
        · rwa [if_pos ‹_›]
        · rw [if_neg ‹_›] at hge
          exact absurd hge ‹_›

theorem roundStep_tryReady (hc : s.Consistent) {rest : List ℕ}
    (hst : s.status? g = some (.admitting (e.arrival :: rest) skipped)) (he : e ∈ s.entries)
    (admission : Admission Receipt) (reservationId : String) (throws : Bool) :
    RoundStep config event g s
      (s.tryReady config g e rest skipped admission reservationId throws) := by
  obtain ⟨e₁, he₁, ha, hge, -⟩ := (hc.statuses g _ hst).2 e.arrival List.mem_cons_self
  obtain rfl := hc.numbered.eq_of_arrival he₁ he ha
  obtain ⟨gen, hgen, -⟩ := Option.map_eq_some_iff.1 hst
  have hg : g < s.generations.length := (List.getElem?_eq_some_iff.1 hgen).1
  rw [tryReady]
  split
  · have hstatus := fun status : GenerationStatus Value Receipt =>
      @status?_setStatus_some _ _ _ _ status hg
    exact .inside (by rw [hasReturned, hstatus]) (by rw [isParked, hstatus]) (.refl s)
  · have hloose := @loosens_start _ _ (s.countPromotion config.limits e₁) config _ _ hc.numbered
      he hge admission reservationId throws
    have hlen := congrArg List.length (@works_start _ _ (s.countPromotion config.limits e₁)
      config e₁ admission reservationId throws)
    rw [works, works, List.length_map, List.length_map] at hlen
    have hstatus := fun status : GenerationStatus Value Receipt =>
      @status?_setStatus_some _ _ _ _ status (hlen.symm ▸ hg)
    exact .inside (by rw [hasReturned, hstatus]) (by rw [isParked, hstatus]) hloose

theorem step_round [DecidableEq Value] (hc : s.Consistent) (h : step config s event = some s')
    (hr : event.runs = some g) : RoundStep config event g s s' := by
  cases step_ok h with
  | loop _ _ hgen =>
    cases hr
    exact roundStep_loop hc.numbered hgen
  | tryReady _ _ _ hmem hst =>
    cases hr
    exact roundStep_tryReady hc hst hmem _ _ _
  | conclude _ hst =>
    cases hr
    exact roundStep_conclude hst
  | _ => cases hr

theorem step_still [DecidableEq Value] (hc : s.Consistent) (h : step config s event = some s')
    (hs : ∀ work aborted, event ≠ .schedule work aborted) (hr : event.runs = none) :
    List.Forall₂ Entry.Still s.entries s'.entries := by
  have hrefl : List.Forall₂ Entry.Still s.entries s.entries :=
    List.forall₂_same.2 fun e _ => .refl e
  -- an entry is changed at most in fields the set does not depend on
  have hmap : ∀ f : Entry Value Receipt → Entry Value Receipt, (∀ e ∈ s.entries, Entry.Still e (f e)) →
      List.Forall₂ Entry.Still s.entries (s.entries.map f) := fun f hf => forall₂_map_self hf
  cases step_ok h with
  | schedule work aborted => exact absurd rfl (hs work aborted)
  | loop | tryReady | conclude => cases hr
  | lockTimer | forget | ledgerCall => exact hrefl
  | finish raced _ hmem hrunning =>
    rw [(finish_spec hc.numbered hmem raced).1]
    refine hmap _ fun x hx => ?_
    split
    · -- a unit that runs was not queued
      rename_i hxa
      obtain rfl := hc.numbered.eq_of_arrival hx hmem hxa
      refine ⟨rfl, rfl, ?_, nofun⟩
      rw [Entry.isQueued, Entry.isQueued, hrunning]
      rfl
    · exact .refl x
  | abort g =>
    have ha : (s.abort g).entries = s.entries.map fun e =>
        if e.generation = g ∧ e.state = .running then { e with aborted := true } else e := by
      rw [abort]
      split <;> rfl
    rw [ha]
    refine hmap _ fun x _ => ?_
    split <;> exact ⟨rfl, rfl, rfl, id⟩
  | _ =>
    refine hmap _ fun x _ => ?_
    split <;> exact ⟨rfl, rfl, rfl, id⟩

/-! ## The invariant -/

/-- Nothing of another generation moves in a round. -/
theorem RoundStep.others (h : RoundStep config event g s s') {e' : Entry Value Receipt}
    (he' : e' ∈ s'.entries) (hne : e'.generation ≠ g) : ∃ e ∈ s.entries, Entry.Still e e' := by
  have hother : ∀ {t : Scheduler Value Receipt} {x : Entry Value Receipt}, Loosens g s t →
      x ∈ t.entries → x.generation ≠ g → ∃ e ∈ s.entries, Entry.Still e x := by
    intro t x ht hx hxg
    obtain ⟨e, he, hm⟩ := forall₂_exists_left ht hx
    exact ⟨e, he, hm.elsewhere (hm.generation ▸ hxg)⟩
  cases h with
  | ended _ t ht hent =>
    rw [hent] at he'
    obtain ⟨x, hx, rfl⟩ := List.mem_map.1 he'
    by_cases hg : x.generation = g
    · simp [hg] at hne
    · rw [if_neg hg]
      exact hother ht hx hg
  | inside _ _ ht | parked _ _ ht _ => exact hother ht he' hne

namespace Watched

variable {w w' : Watched Value Receipt}

/-- What the set tells of a unit between two steps. -/
structure Tells (w : Watched Value Receipt) (e : Entry Value Receipt) : Prop where
  queued : e.isQueued = true → w.scheduler.hasReturned e.generation = false → e.waiting = true
  waiting : e.waiting = true → w.scheduler.hasReturned e.generation = false ∧ e.state ≠ .running
    ∧ (w.inRound e.generation = false → e.isQueued = true)

structure Ok (w : Watched Value Receipt) : Prop where
  consistent : w.scheduler.Consistent
  tells : ∀ e ∈ w.scheduler.entries, w.Tells e

theorem Tells.still {e' : Entry Value Receipt} (h : w.Tells e) (hs : Entry.Still e e')
    (hret : w'.scheduler.hasReturned e.generation = w.scheduler.hasReturned e.generation)
    (hin : w'.inRound e.generation = w.inRound e.generation) : w'.Tells e' := by
  constructor
  · rw [hs.queued, hs.waiting, hs.generation, hret]
    exact h.queued
  · rw [hs.waiting, hs.queued, hs.generation, hret, hin]
    intro hw
    obtain ⟨hr, hst, hq⟩ := h.waiting hw
    exact ⟨hr, fun hrun => hst (hs.running hrun), hq⟩

theorem ok_schedule (h : w.Ok) (work : List Submission) (aborted : Bool) :
    Ok ⟨w.scheduler.schedule config.limits work aborted, w.inRound⟩ := by
  have hsub := submitted_schedule w.scheduler config.limits work aborted
  refine ⟨hsub.consistent h.consistent, fun e he => ?_⟩
  by_cases hold : e ∈ w.scheduler.entries
  · refine (h.tells e hold).still (.refl e) ?_ rfl
    obtain ⟨new, gen, -, hgen, -⟩ := hsub.added
    rw [hasReturned, hasReturned, status?, hgen, getElem?_status_append,
      if_pos (h.consistent.generation_lt e hold)]
    rfl
  · revert he
    rw [schedule]
    split
    · intro he
      obtain ⟨item, -, arrival, rfl⟩ := mem_newEntries ((List.mem_append.1 he).resolve_left hold)
      refine ⟨fun _ hr => ?_, fun hw => by cases hw⟩
      rw [hasReturned, status?, refuseGeneration, getElem?_status_append] at hr
      simp [Submission.toEntry] at hr
    · split
      · intro he
        obtain ⟨x, hx, rfl⟩ := List.mem_map.1 ((List.mem_append.1 he).resolve_left hold)
        obtain ⟨item, -, arrival, rfl⟩ := mem_newEntries hx
        refine ⟨fun hq => ?_, fun hw => by cases hw⟩
        cases hq
      · intro he
        obtain ⟨x, hx, rfl⟩ := List.mem_map.1 ((List.mem_append.1 he).resolve_left hold)
        obtain ⟨item, -, arrival, rfl⟩ := mem_newEntries hx
        refine ⟨fun _ _ => rfl, fun _ => ⟨?_, by simp [Submission.toEntry], fun _ => rfl⟩⟩
        rw [hasReturned, status?, getElem?_status_append]
        simp [Submission.toEntry]

theorem ok_step [DecidableEq Value] (h : w.Ok) (hsync : Synced config w event) (hstep : w.step config event = some w') :
    w'.Ok := by
  obtain ⟨s', hs', rfl⟩ := Option.map_eq_some_iff.1 hstep
  by_cases hev : ∃ work aborted, event = .schedule work aborted
  · obtain ⟨work, aborted, rfl⟩ := hev
    cases hs'
    exact ok_schedule h work aborted
  have hfollows := fun j (hj : event.runs ≠ some j) =>
    (step_follows hs' (fun work aborted he => hev ⟨work, aborted, he⟩) hj).hasReturned
  refine ⟨step_consistent h.consistent hs', fun e' he' => ?_⟩
  cases hr : event.runs with
  | none =>
    obtain ⟨e, he, hs⟩ := forall₂_exists_left
      (step_still h.consistent hs' (fun work aborted he => hev ⟨work, aborted, he⟩) hr) he'
    exact (h.tells e he).still hs (hfollows _ (by rw [hr]; nofun)) rfl
  | some g =>
    have hround := step_round h.consistent hs' hr
    by_cases hg : e'.generation = g
    · obtain ⟨status, hst, hne⟩ := step_runs hs' hr
      have hret : w.scheduler.hasReturned g = false := by
        rw [hasReturned, hst]
        split
        · exact absurd (Option.some.inj ‹_›) (hne _)
        · rfl
      -- what the round has loosened was told exactly enough before
      have hloose : ∀ {t : Scheduler Value Receipt} {x : Entry Value Receipt},
          Loosens g w.scheduler t → x ∈ t.entries → x.generation = g → x.Loose := by
        intro t x ht hx hxg
        obtain ⟨e, he, hm⟩ := forall₂_exists_left ht hx
        have hge := hm.generation.symm.trans hxg
        have htell := h.tells e he
        exact hm.own hge ⟨fun hq => htell.queued hq (hge ▸ hret), fun hw => (htell.waiting hw).2.1⟩
      cases hround with
      | ended hret' t ht hent =>
        rw [hent] at he'
        obtain ⟨x, hx, rfl⟩ := List.mem_map.1 he'
        split
        · refine ⟨fun _ hr' => ?_, nofun⟩
          rw [‹x.generation = g›, hret'] at hr'
          cases hr'
        · rw [if_neg ‹_›] at hg
          exact absurd hg ‹_›
      | inside hret' hpark ht =>
        have hl := hloose ht he' hg
        refine ⟨fun hq _ => hl.1 hq, fun hw => ⟨hg ▸ hret', hl.2 hw, fun hin => ?_⟩⟩
        simp [roundsAfter, hg, hpark, hret'] at hin
      | parked hret' hparks ht hown =>
        have hl := hloose ht he' hg
        refine ⟨fun hq _ => hl.1 hq, fun hw => ⟨hg ▸ hret', hl.2 hw, fun _ => ?_⟩⟩
        refine (hown e' he' hg hw).resolve_right fun ⟨e, he, hge, hwe, d, r, hloop⟩ => ?_
        have hdrained := hsync hparks e he hwe
        rw [hge, if_pos hr, hloop] at hdrained
        exact hdrained rfl
    · obtain ⟨e, he, hs⟩ := hround.others he' hg
      have hge : e.generation ≠ g := hs.generation ▸ hg
      refine (h.tells e he).still hs (hfollows _ (by rw [hr]; simpa using hge.symm)) ?_
      exact Function.update_of_ne hge _ _

/-- Every run of a scheduler can be watched. -/
theorem exists_run [DecidableEq Value] : ∀ {events : List (SchedulerEvent Value Receipt)}
    {s t : Scheduler Value Receipt} {w : Watched Value Receipt},
    StateMachine.run (Scheduler.step config) s events = some t → w.scheduler = s →
    ∃ w', StateMachine.run (Watched.step config) w events = some w' ∧ w'.scheduler = t := by
  intro events
  induction events with
  | nil =>
    intro s t w h hw
    cases h
    exact ⟨w, rfl, hw⟩
  | cons event events ih =>
    intro s t w h hw
    obtain ⟨s', hs', h⟩ := StateMachine.run_cons.1 h
    obtain ⟨w', hrun, ht⟩ := ih (w := ⟨s', roundsAfter w.inRound s' event.runs⟩) h rfl
    refine ⟨w', StateMachine.run_cons.2 ⟨_, ?_, hrun⟩, ht⟩
    rw [step, hw, hs', Option.map_some]

end Watched

/-- **Waiting units.**  In a run of which every step that leads to an await is `Synced`, the set is at
every await exactly that of the blocked and the ready units of the generations that have not returned. -/
theorem waiting_exact_at_awaits [DecidableEq Value] (config : SchedulerConfig) (ledger : BudgetLedger)
    (events : List (SchedulerEvent Value Receipt)) (event : SchedulerEvent Value Receipt)
    (s : Scheduler Value Receipt) (hreach : Reaches config ledger (events ++ [event]) s)
    (hsync : StateMachine.Along (Watched.step config) (Watched.Synced config) (.start ledger)
      (events ++ [event])) :
    ∃ w, StateMachine.run (Watched.step config) (.start ledger) (events ++ [event]) = some w
      ∧ w.scheduler = s ∧ (w.AtAwait event → s.WaitingExact) := by
  obtain ⟨w, hw, rfl⟩ := Watched.exists_run (w := .start ledger) hreach rfl
  refine ⟨w, hw, rfl, fun hawait => ?_⟩
  obtain ⟨v, hv, hstep⟩ := StateMachine.run_concat.1 hw
  obtain ⟨hbefore, hlast⟩ := StateMachine.along_append.1 hsync
  have hok : v.Ok := StateMachine.run_along_preserves (fun _ _ _ h hs => Watched.ok_step h hs)
    ⟨consistent_createScheduler ledger, fun e he => by cases he⟩ hbefore hv
  have hsynced := (hlast v hv).1
  have hok' := Watched.ok_step hok hsynced hstep
  have hqueued : ∀ e ∈ w.scheduler.entries, e.waiting = true → e.isQueued = true := by
    intro e' he' hwait
    obtain ⟨-, -, hexact⟩ := (hok'.tells e' he').waiting hwait
    by_cases hin : w.inRound e'.generation = false
    · exact hexact hin
    obtain ⟨g, hr, hparked⟩ := hawait.resolve_right fun h => hin (h _)
    obtain ⟨s', hs', rfl⟩ := Option.map_eq_some_iff.1 hstep
    -- the unit is of another generation, which was in a round before
    have hg : e'.generation ≠ g := by
      rintro rfl
      exact hin (by simp [Watched.roundsAfter, hr, hparked])
    have hround := step_round hok.consistent hs' hr
    obtain ⟨e, he, hs⟩ := hround.others he' hg
    have hparks : v.scheduler.parks config event = true := by
      cases hround with
      | ended hret' =>
        revert hparked hret'
        rw [isParked, hasReturned]
        cases hst : s'.status? g with
        | none => nofun
        | some status => cases status <;> simp
      | inside _ hpark => rw [hpark] at hparked; cases hparked
      | parked _ hparks => exact hparks
    have hother := hsynced hparks e he (hs.waiting ▸ hwait)
    rw [← hs.generation, hr, if_neg fun h => hg (Option.some.inj h).symm] at hother
    refine hs.queued ▸ hother ?_
    rw [hr, Watched.roundsAfter] at hin
    rw [← Bool.not_eq_false, ← Function.update_of_ne hg (!s'.isParked g && !s'.hasReturned g) v.inRound]
    exact hin
  refine List.filter_congr fun e he => ?_
  have htell := hok'.tells e he
  rw [Bool.eq_iff_iff, Bool.and_eq_true, Bool.not_eq_true']
  exact ⟨fun hwait => ⟨hqueued e he hwait, (htell.waiting hwait).1⟩, fun h => htell.queued h.1 h.2⟩

/-- A generation of two writers, up to the await of the first round. -/
def twoWriters : List (SchedulerEvent ℕ Unit) :=
  [.schedule [writing "first", writing "second"] false, .loop 0 (fun _ => 0) (fun _ => 0),
    .tryReady 0 .ready "" false, .tryReady 0 .ready "" false]

/-- The second writer is in the set while the first one runs. -/
theorem second_writer_waits : ∃ s : Scheduler ℕ Unit,
    Reaches plainConfig .empty (twoWriters ++ [.conclude 0 fun _ => 0]) s ∧ s.WaitingExact
      ∧ s.waitingUnits.map (fun e => e.unit.id) = ["second"] := by
  have hrun : ((StateMachine.run (step plainConfig) (createScheduler .empty)
      (twoWriters ++ [.conclude 0 fun _ => 0])).map fun s : Scheduler ℕ Unit =>
        (s.waitingUnits.map fun e => e.unit.id, s.isParked 0)) = some (["second"], true) := by
    decide +kernel
  obtain ⟨s, hs, hst⟩ := Option.map_eq_some_iff.1 hrun
  obtain ⟨hids, hparked⟩ := Prod.mk.inj hst
  obtain ⟨w, -, rfl, hexact⟩ := waiting_exact_at_awaits plainConfig .empty twoWriters
    (.conclude 0 fun _ => 0) s hs (by decide +kernel)
  exact ⟨_, hs, hexact (.inl ⟨0, rfl, hparked⟩), hids⟩

/-- The generation is aborted while the first writer runs: at its await the second one has settled and is
still in the set. -/
theorem not_waiting_exact : ∃ w : Watched ℕ Unit,
    StateMachine.run (Watched.step plainConfig) (.start .empty) (twoWriters
      ++ [.conclude 0 fun _ => 0, .abort 0] ++ [.loop 0 (fun _ => 0) fun _ => 0]) = some w
      ∧ w.AtAwait (.loop 0 (fun _ => 0) fun _ => 0) ∧ ¬ w.scheduler.WaitingExact := by
  have hrun : ((StateMachine.run (Watched.step plainConfig) (.start .empty) (twoWriters
      ++ [.conclude 0 fun _ => 0, .abort 0] ++ [.loop 0 (fun _ => 0) fun _ => 0])).map
        fun w : Watched ℕ Unit => (w.scheduler.waitingUnits.map Entry.isQueued, w.scheduler.isParked 0))
      = some ([false], true) := by
    decide +kernel
  obtain ⟨w, hw, hst⟩ := Option.map_eq_some_iff.1 hrun
  obtain ⟨hqueued, hparked⟩ := Prod.mk.inj hst
  refine ⟨w, hw, .inl ⟨0, rfl, hparked⟩, fun hexact => ?_⟩
  obtain ⟨e, he⟩ := List.exists_mem_of_length_pos (l := w.scheduler.waitingUnits)
    (by rw [← List.length_map Entry.isQueued, hqueued]; exact Nat.one_pos)
  have hnot := List.mem_map_of_mem (f := Entry.isQueued) he
  rw [hqueued, List.mem_singleton] at hnot
  rw [hexact, List.mem_filter, Bool.and_eq_true, hnot] at he
  exact nomatch he.2.1

end Scheduler

end Falryn.Orchestration
