import Falryn.Lib.FrameCycles
import Falryn.Orchestration.SchedulerLocks

/-!
# Dependencies and results

Which runners are called, after what, and what a generation reports.  The log of a scheduler tells
when runners were called and when units completed; `History` is what it says about the entries, and is
kept by every step.  A generation whose units are malformed is over as soon as it is submitted, and a
generation that is over stays as it is (`step_returned`).
-/

namespace Falryn.Orchestration.Scheduler

open Pointwise

variable {Value Receipt : Type} {s s' : Scheduler Value Receipt} {config : SchedulerConfig}

/-! ## Malformed generations -/

/-- The unit with the first id names the second one as a dependency. -/
def DependsOn (work : List WorkUnit) (id dependency : String) : Prop :=
  ∃ unit ∈ work, unit.id = id ∧ dependency ∈ unit.dependencies

/-- An id occurs twice, an edge leaves the generation, or the dependencies form a cycle. -/
def Malformed (work : List WorkUnit) : Prop :=
  ¬ (work.map WorkUnit.id).Nodup
    ∨ (∃ unit ∈ work, ∃ dependency ∈ unit.dependencies, dependency ∉ work.map WorkUnit.id)
    ∨ ∃ id, Relation.TransGen (DependsOn work) id id

theorem nodup_of_firstDuplicate : ∀ {ids seen : List String}, firstDuplicate seen ids = none →
    ids.Nodup ∧ ∀ id ∈ ids, id ∉ seen := by
  intro ids
  induction ids with
  | nil => exact fun _ => ⟨List.nodup_nil, nofun⟩
  | cons id ids ih =>
    intro seen h
    rw [firstDuplicate] at h
    split at h
    · cases h
    · rename_i hid
      obtain ⟨hnodup, hnot⟩ := ih h
      refine ⟨List.nodup_cons.2 ⟨fun hmem => hnot id hmem List.mem_cons_self, hnodup⟩, ?_⟩
      rw [List.forall_mem_cons]
      exact ⟨hid, fun x hx hs => hnot x hx (List.mem_cons_of_mem _ hs)⟩

variable {work : List WorkUnit} {j : ℕ} {results : List (SchedulingResult Value Receipt)}

theorem known_of_firstUnknown (h : firstUnknown work = none) :
    ∀ unit ∈ work, ∀ dependency ∈ unit.dependencies, dependency ∈ work.map WorkUnit.id := by
  intro unit hunit dependency hdep
  have hfind := List.findSome?_eq_none_iff.1 h unit hunit
  rw [Option.map_eq_none_iff, List.find?_eq_none] at hfind
  simpa using hfind dependency hdep

/-- In a generation without duplicate ids the search sees every edge. -/
theorem mem_dependenciesOf (hnodup : (work.map WorkUnit.id).Nodup)
    (hknown : ∀ unit ∈ work, ∀ dependency ∈ unit.dependencies, dependency ∈ work.map WorkUnit.id)
    {id dependency : String} (h : DependsOn work id dependency) :
    dependency ∈ dependenciesOf work id := by
  obtain ⟨unit, hunit, rfl, hdep⟩ := h
  rw [dependenciesOf]
  split
  · rename_i found hfound
    obtain rfl : found = unit :=
      List.inj_on_of_nodup_map hnodup (List.mem_of_find?_eq_some hfound) hunit
        (by simpa using List.find?_some hfound)
    exact List.mem_filter.2 ⟨hdep, decide_eq_true (hknown found hunit dependency hdep)⟩
  · rename_i hnone
    have := List.find?_eq_none.1 hnone unit hunit
    simp at this

theorem dependenciesOf_closed (work : List WorkUnit) :
    ∀ id ∈ work.map WorkUnit.id, ∀ dependency ∈ dependenciesOf work id,
      dependency ∈ work.map WorkUnit.id := by
  intro id _ dependency hdep
  rw [dependenciesOf] at hdep
  split at hdep
  · simpa using (List.mem_filter.1 hdep).2
  · cases hdep

/-- **What validation lets through is well formed.** -/
theorem not_malformed_of_validate
    (h : (validate work : Option (SchedulingError Receipt)) = none) : ¬ Malformed work := by
  rw [validate] at h
  split at h
  · cases h
  rename_i hdup
  split at h
  · cases h
  rename_i hunknown
  rw [Option.map_eq_none_iff] at h
  obtain ⟨hnodup, -⟩ := nodup_of_firstDuplicate hdup
  have hknown := known_of_firstUnknown hunknown
  rintro (hd | ⟨unit, hunit, dependency, hdep, hnot⟩ | ⟨id, hcycle⟩)
  · exact hd hnodup
  · exact hnot (hknown unit hunit dependency hdep)
  · have hmem : id ∈ work.map WorkUnit.id := by
      obtain ⟨_, ⟨unit, hunit, rfl, -⟩, -⟩ := Relation.TransGen.head'_iff.1 hcycle
      exact List.mem_map_of_mem hunit
    have hacc := FrameSearch.acc_of_findCycle (dependenciesOf_closed work) h id hmem
    refine DepthFirst.not_transGen_self hacc (Relation.transGen_swap.1 ?_)
    exact Relation.TransGen.mono (fun _ _ hd => mem_dependenciesOf hnodup hknown hd) _ _ hcycle

theorem schedule_malformed (limits : SchedulerLimits) {work : List Submission} (aborted : Bool)
    (hm : Malformed (work.map Submission.unit)) :
    ∃ results, (s.schedule limits work aborted).status? s.generations.length
        = some (.returned results) ∧ results.all SchedulingResult.isRefused = true := by
  rw [schedule]
  split
  · rename_i error _
    refine ⟨work.map fun item => .refused item.unit.id error refusedOutcome (recoveryFor error),
      ?_, ?_⟩
    · rw [status?, refuseGeneration, getElem?_status_append, if_neg (lt_irrefl _), if_pos rfl]
    · rw [List.all_map]
      exact List.all_eq_true.2 fun _ _ => rfl
  · rename_i hvalid
    exact absurd hm (not_malformed_of_validate hvalid)

/-! ## A generation that has returned -/

theorem Follows.returned (h : Follows s s' j)
    (hs : s.status? j = some (.returned results)) : s'.status? j = some (.returned results) := by
  rcases h with h | ⟨⟨onCapacity, deadline, hp⟩, -⟩
  · rw [h, hs]
  · rw [hs] at hp
    cases hp

variable {event : SchedulerEvent Value Receipt}

/-- **What a generation has returned stays.** -/
theorem step_returned [DecidableEq Value]
    (h : step config s event = some s')
    (hs : s.status? j = some (.returned results)) : s'.status? j = some (.returned results) := by
  by_cases hev : ∃ work aborted, event = .schedule work aborted
  · obtain ⟨work, aborted, rfl⟩ := hev
    cases h
    obtain ⟨new, gen, -, hgen, -⟩ := (submitted_schedule s config.limits work aborted).added
    have hlt : j < s.generations.length := by
      obtain ⟨gen, hgen, -⟩ := Option.map_eq_some_iff.1 hs
      exact (List.getElem?_eq_some_iff.1 hgen).1
    rw [status?, hgen, getElem?_status_append, if_pos hlt]
    exact hs
  · refine (step_follows h (fun work aborted he => hev ⟨work, aborted, he⟩) fun hr => ?_).returned hs
    obtain ⟨status, hst, hne⟩ := step_runs h hr
    exact hne results (Option.some.inj (hst.symm.trans hs))

/-! ## Entries go on -/

/-- What any step leaves of an entry. -/
structure Advances (e e' : Entry Value Receipt) : Prop where
  unit : e'.unit = e.unit
  generation : e'.generation = e.generation
  arrival : e'.arrival = e.arrival
  completed : e.result.any SchedulingResult.isCompleted = true →
    e'.result.any SchedulingResult.isCompleted = true

theorem Advances.refl (e : Entry Value Receipt) : Advances e e := ⟨rfl, rfl, rfl, id⟩

variable {e e' : Entry Value Receipt} {touched : ℕ → ℕ → Prop} {before : List LogEvent}
  {ledger : BudgetLedger}

theorem advances_of_quiet (hok : EntryOk e) (h : Entry.Quiet touched e e') : Advances e e' := by
  refine ⟨h.unit, h.generation, h.arrival, fun hc => ?_⟩
  rcases h.moved with ⟨-, hr⟩ | ⟨-, hq, -⟩
  · rwa [hr]
  · rw [(hok.queued hq).2.1] at hc
    cases hc

theorem advances_finished (hc : s.Consistent) {x : Entry Value Receipt} (he : e ∈ s.entries)
    (hrun : e.state = .running) (raced : Raced Value) (hx : x ∈ s.entries) :
    Advances x (if x.arrival = e.arrival then finishedEntry raced x else x) := by
  split
  · rename_i hxe
    obtain rfl := hc.numbered.eq_of_arrival hx he hxe
    refine ⟨rfl, rfl, rfl, fun hcomp => ?_⟩
    rw [((hc.entries x hx).running hrun).2] at hcomp
    cases hcomp
  · exact .refl x

theorem Submitted.entries_fresh {work : List Submission} (h : s.Submitted s' work) :
    ∃ new, s'.entries = s.entries ++ new
      ∧ ∀ e ∈ new, s.Fresh e ∧ s.entries.length ≤ e.arrival := by
  obtain ⟨new, gen, hent, -, -, -, harr, hfresh, -⟩ := h.added
  refine ⟨new, hent, fun e he => ⟨hfresh e he, ?_⟩⟩
  have ha := List.mem_map_of_mem (f := Entry.arrival) he
  rw [harr, List.mem_range'_1] at ha
  exact ha.1

/-- **Entries are only ever added, and a completed unit stays completed.** -/
theorem step_advances [DecidableEq Value] (hc : s.Consistent) (h : step config s event = some s') :
    ∃ old new, s'.entries = old ++ new ∧ List.Forall₂ Advances s.entries old
      ∧ (∀ e ∈ new, s.Fresh e ∧ s.entries.length ≤ e.arrival) := by
  cases step_cases hc h with
  | quiet _ hq =>
    refine ⟨s'.entries, [], (List.append_nil _).symm, ?_, by simp⟩
    have hmem := (List.forall₂_and_left (p := fun e => e ∈ s.entries) _ _).2 ⟨fun _ he => he, hq.entries⟩
    exact hmem.imp fun e _ hm => advances_of_quiet (hc.entries e hm.1) hm.2.1
  | scheduled work aborted hs =>
    obtain ⟨new, hent, hfresh⟩ := (submitted_schedule s config.limits work aborted).entries_fresh
    rw [hs]
    exact ⟨s.entries, new, hent, List.forall₂_same.2 fun e _ => .refl e, hfresh⟩
  | launched e ledger reservation throws _ _ ha =>
    refine ⟨s'.entries, [], (List.append_nil _).symm, ?_, by simp⟩
    rw [ha.entries, launch_entries]
    refine forall₂_map_self fun x _ => ?_
    obtain ⟨hu, hg, har, -, hr⟩ := launchedEntry_same { s with ledger } e reservation throws x
    exact ⟨hu, hg, har, fun _ => by rwa [hr]⟩
  | finished e raced he hrun _ hs =>
    refine ⟨s'.entries, [], (List.append_nil _).symm, ?_, by simp⟩
    rw [hs, (finish_spec hc.numbered he raced).1]
    exact forall₂_map_self fun x hx => advances_finished hc he hrun raced hx
  | ledger _ _ hs =>
    refine ⟨s.entries, [], by rw [hs, List.append_nil], ?_, by simp⟩
    exact List.forall₂_same.2 fun e _ => .refl e

/-! ## The log -/

/-- Every dependency of an entry is an entry of its generation that has completed, and had when the
log was `before`. -/
def CompletedBefore (s : Scheduler Value Receipt) (before : List LogEvent)
    (e : Entry Value Receipt) : Prop :=
  ∀ id ∈ e.unit.dependencies, ∃ d ∈ s.entries, d.generation = e.generation ∧ d.unit.id = id
    ∧ d.result.any SchedulingResult.isCompleted = true ∧ .completed d.arrival ∈ before

/-- What the log says about the entries. -/
structure History (s : Scheduler Value Receipt) : Prop where
  once : ∀ a, s.log.count (.invoked a) ≤ 1
  known : ∀ a, .invoked a ∈ s.log → a < s.entries.length
  idle : ∀ e ∈ s.entries, e.runner = .idle → .invoked e.arrival ∉ s.log
  completed : ∀ e ∈ s.entries, e.result.any SchedulingResult.isCompleted = true →
    .completed e.arrival ∈ s.log
  ready : ∀ e ∈ s.entries, e.state = .ready → s.DependenciesCompleted e
  ordered : ∀ e ∈ s.entries, ∀ before after, s.log = before ++ .invoked e.arrival :: after →
    s.CompletedBefore before e

/-- Whatever had completed still has. -/
def Persists (s s' : Scheduler Value Receipt) : Prop :=
  ∀ e ∈ s.entries, ∃ e' ∈ s'.entries, Advances e e'

theorem DependenciesCompleted.persists (hp : s.Persists s')
    (h : s.DependenciesCompleted e) (hu : e'.unit = e.unit) (hg : e'.generation = e.generation) :
    s'.DependenciesCompleted e' := by
  intro id hid
  obtain ⟨d, hd, hdg, hdu, hdc⟩ := h id (hu ▸ hid)
  obtain ⟨d', hd', hadv⟩ := hp d hd
  exact ⟨d', hd', by rw [hadv.generation, hdg, hg], by rw [hadv.unit, hdu], hadv.completed hdc⟩

theorem CompletedBefore.persists (hp : s.Persists s') (h : s.CompletedBefore before e) (hu : e'.unit = e.unit)
    (hg : e'.generation = e.generation) : s'.CompletedBefore before e' := by
  intro id hid
  obtain ⟨d, hd, hdg, hdu, hdc, hlog⟩ := h id (hu ▸ hid)
  obtain ⟨d', hd', hadv⟩ := hp d hd
  exact ⟨d', hd', by rw [hadv.generation, hdg, hg], by rw [hadv.unit, hdu], hadv.completed hdc,
    hadv.arrival ▸ hlog⟩

theorem Numbered.lt (hn : s.Numbered) (he : e ∈ s.entries) : e.arrival < s.entries.length := by
  have h := List.mem_map_of_mem (f := Entry.arrival) he
  rw [hn] at h
  exact List.mem_range.1 h

/-- Where an element stands in a list that has just grown by one. -/
theorem eq_or_of_concat {l after : List LogEvent} {x y : LogEvent}
    (h : l ++ [x] = before ++ y :: after) :
    (y = x ∧ before = l) ∨ ∃ after', l = before ++ y :: after' := by
  rcases List.eq_nil_or_concat after with rfl | ⟨after', z, rfl⟩
  · obtain ⟨h₁, h₂⟩ := List.append_inj' h rfl
    cases h₂
    exact .inl ⟨rfl, h₁.symm⟩
  · refine .inr ⟨after', ?_⟩
    rw [List.concat_eq_append, ← List.cons_append, ← List.append_assoc] at h
    exact (List.append_inj' h rfl).1

/-- What any step leaves of the history. -/
structure Continues (s s' : Scheduler Value Receipt) : Prop where
  persists : s.Persists s'
  length_le : s.entries.length ≤ s'.entries.length
  ordered : ∀ e' ∈ s'.entries, ∀ before after, s.log = before ++ .invoked e'.arrival :: after →
    s'.CompletedBefore before e'

theorem step_continues [DecidableEq Value]
    (hc : s.Consistent) (hh : s.History) (h : step config s event = some s') : s.Continues s' := by
  obtain ⟨old, new, hent, hadv, hnew⟩ := step_advances hc h
  have hp : s.Persists s' := by
    intro e he
    obtain ⟨e', he', h⟩ := forall₂_exists_right hadv he
    exact ⟨e', hent ▸ List.mem_append_left _ he', h⟩
  refine ⟨hp, ?_, fun e' he' before after hlog => ?_⟩
  · rw [hent, List.length_append, ← hadv.length_eq]
    omega
  · rw [hent] at he'
    rcases List.mem_append.1 he' with he' | he'
    · obtain ⟨e, he, h⟩ := forall₂_exists_left hadv he'
      rw [h.arrival] at hlog
      exact (hh.ordered e he before after hlog).persists hp h.unit h.generation
    · have hlt := hh.known e'.arrival (hlog ▸ by simp)
      have hle := (hnew e' he').2
      omega

theorem Quiet.history (hq : Quiet touched s s') (hh : s.History)
    (hk : s.Continues s') : s'.History := by
  refine ⟨hq.log ▸ hh.once, fun a ha => ?_, fun e' he' hi => ?_, fun e' he' hcomp => ?_,
    fun e' he' hr => ?_, hq.log ▸ hk.ordered⟩
  · exact (hh.known a (hq.log ▸ ha)).trans_le hk.length_le
  · obtain ⟨e, he, hm, -⟩ := forall₂_exists_left hq.entries he'
    rw [hq.log, hm.arrival]
    exact hh.idle e he (hm.idle.1 hi)
  · obtain ⟨e, he, hm, -⟩ := forall₂_exists_left hq.entries he'
    rw [hq.log, hm.arrival]
    exact hh.completed e he (hm.result_of_completed hcomp ▸ hcomp)
  · obtain ⟨e, he, hm, hdeps⟩ := forall₂_exists_left hq.entries he'
    have hdone : s.DependenciesCompleted e := (hdeps hr).elim (hh.ready e he) id
    exact hdone.persists hk.persists hm.unit hm.generation

theorem Submitted.history {work : List Submission} (hsub : s.Submitted s' work) (hh : s.History)
    (hk : s.Continues s') : s'.History := by
  obtain ⟨new, hent, hfresh⟩ := hsub.entries_fresh
  -- a new entry has not run, has no completed result and is not ready
  refine ⟨hsub.log ▸ hh.once, fun a ha => ?_, fun e he hi => ?_, fun e he hcomp => ?_,
    fun e he hr => ?_, hsub.log ▸ hk.ordered⟩
  · exact (hh.known a (hsub.log ▸ ha)).trans_le hk.length_le
  · rw [hsub.log]
    rw [hent] at he
    rcases List.mem_append.1 he with he | he
    · exact hh.idle e he hi
    · intro hmem
      have hlt := hh.known _ hmem
      have hle := (hfresh e he).2
      omega
  · rw [hsub.log]
    rw [hent] at he
    rcases List.mem_append.1 he with he | he
    · exact hh.completed e he hcomp
    · rcases (hfresh e he).1.state with ⟨-, hr⟩ | ⟨-, r, hr, hnot, -⟩
      · rw [hr] at hcomp
        cases hcomp
      · simp [hr, hnot] at hcomp
  · rw [hent] at he
    rcases List.mem_append.1 he with he | he
    · exact (hh.ready e he hr).persists hk.persists rfl rfl
    · rcases (hfresh e he).1.state with ⟨hst, -⟩ | ⟨hst, -⟩ <;> simp [hst] at hr

theorem history_launched (hc : s.Consistent) (hh : s.History) (hk : s.Continues s') {reservation : Option String} {throws : Bool}
    (hl : Launches config s e ledger reservation)
    (ha : Agree ({ s with ledger }.launch e reservation throws) s') : s'.History := by
  have hlog : s'.log = s.log ++ [.invoked e.arrival] := ha.log
  have hent : s'.entries = s.entries.map (launchedEntry { s with ledger } e reservation throws) :=
    ha.entries
  -- it had not run
  have hnot : .invoked e.arrival ∉ s.log :=
    hh.idle e hl.mem ((hc.entries e hl.mem).queued (Entry.isQueued_iff.2 (.inr hl.ready))).1
  have hmem : ∀ e' ∈ s'.entries, ∃ x ∈ s.entries, e'.unit = x.unit ∧ e'.generation = x.generation
      ∧ e'.arrival = x.arrival ∧ e'.result = x.result
      ∧ ((x = e ∧ e'.state = .running ∧ e'.runner ≠ .idle) ∨ (x.arrival ≠ e.arrival
        ∧ e'.state = x.state ∧ (e'.runner = .idle ↔ x.runner = .idle))) := by
    intro e' he'
    rw [hent] at he'
    obtain ⟨x, hx, rfl⟩ := List.mem_map.1 he'
    obtain ⟨hu, hg, har, -, hr⟩ := launchedEntry_same { s with ledger } e reservation throws x
    refine ⟨x, hx, hu, hg, har, hr, ?_⟩
    by_cases hxe : x.arrival = e.arrival
    · obtain ⟨hst, -, hrun⟩ := launchedEntry_self (s := { s with ledger }) hxe reservation throws
      refine .inl ⟨hc.numbered.eq_of_arrival hx hl.mem hxe, hst, ?_⟩
      rw [hrun]
      split <;> simp
    · have hq := (launchedEntry_of_ne (s := { s with ledger }) hxe reservation throws).1
      exact .inr ⟨hxe, (hq.state_of_not_touched fun hf => hf).1, hq.idle⟩
  refine ⟨fun a => ?_, fun a hmem' => ?_, fun e' he' hi => ?_, fun e' he' hcomp => ?_,
    fun e' he' hr => ?_, fun e' he' before _ hsplit => ?_⟩
  · rw [hlog, List.count_append, List.count_singleton]
    by_cases hae : a = e.arrival
    · rw [hae, List.count_eq_zero.2 hnot]
      split <;> omega
    · have := hh.once a
      simpa [Ne.symm hae] using this
  · rw [hlog, List.mem_append, List.mem_singleton] at hmem'
    refine Nat.lt_of_lt_of_le ?_ hk.length_le
    rcases hmem' with h | h
    · exact hh.known a h
    · cases h
      exact hc.numbered.lt hl.mem
  · obtain ⟨x, hx, -, -, har, -, ⟨-, -, hrun⟩ | ⟨hxe, -, hrun⟩⟩ := hmem e' he'
    · exact absurd hi hrun
    · rw [hlog, List.mem_append, List.mem_singleton, har]
      rintro (h | h)
      · exact hh.idle x hx (hrun.1 hi) h
      · injection h with h
        exact hxe h
  · obtain ⟨x, hx, -, -, har, hr, -⟩ := hmem e' he'
    rw [hlog, har]
    exact List.mem_append_left _ (hh.completed x hx (hr ▸ hcomp))
  · obtain ⟨x, hx, hu, hg, -, -, ⟨-, hst, -⟩ | ⟨-, hst, -⟩⟩ := hmem e' he'
    · rw [hst] at hr
      cases hr
    · exact (hh.ready x hx (hst ▸ hr)).persists hk.persists hu hg
  · rw [hlog] at hsplit
    rcases eq_or_of_concat hsplit with ⟨hinv, rfl⟩ | ⟨after', h⟩
    · -- this call: the entry was ready, so its dependencies had completed
      obtain ⟨x, hx, hu, hg, har, -⟩ := hmem e' he'
      obtain rfl : x = e := hc.numbered.eq_of_arrival hx hl.mem (by rw [← har]; injection hinv)
      have hdone : s.CompletedBefore s.log x := fun id hid => by
        obtain ⟨d, hd, hdg, hdu, hdc⟩ := hh.ready x hx hl.ready id hid
        exact ⟨d, hd, hdg, hdu, hdc, hh.completed d hd hdc⟩
      exact hdone.persists hk.persists hu hg
    · exact hk.ordered e' he' before after' h

theorem history_finish (hc : s.Consistent) (hh : s.History)
    (he : e ∈ s.entries) (raced : Raced Value) (hk : s.Continues (s.finish e raced)) :
    (s.finish e raced).History := by
  obtain ⟨hent, -, -, -, hlog⟩ := finish_spec hc.numbered he raced
  have hmem : ∀ e' ∈ (s.finish e raced).entries, ∃ x ∈ s.entries, e'.unit = x.unit
      ∧ e'.generation = x.generation ∧ e'.arrival = x.arrival ∧ e'.runner = x.runner
      ∧ ((x = e ∧ e' = finishedEntry raced x) ∨ e' = x) := by
    intro e' he'
    rw [hent] at he'
    obtain ⟨x, hx, rfl⟩ := List.mem_map.1 he'
    split
    · rename_i hxe
      exact ⟨x, hx, rfl, rfl, rfl, rfl, .inl ⟨hc.numbered.eq_of_arrival hx he hxe, rfl⟩⟩
    · exact ⟨x, hx, rfl, rfl, rfl, rfl, .inr rfl⟩
  -- calls of runners are not logged here
  have hinvoked : ∀ a, .invoked a ∈ (s.finish e raced).log ↔ .invoked a ∈ s.log := by
    intro a
    rw [hlog]
    split <;> simp
  have hcount : ∀ a, (s.finish e raced).log.count (.invoked a) = s.log.count (.invoked a) := by
    intro a
    rw [hlog]
    split <;> simp
  refine ⟨fun a => hcount a ▸ hh.once a, fun a ha => ?_, fun e' he' hi => ?_, fun e' he' hcomp => ?_,
    fun e' he' hr => ?_, fun e' he' before after hsplit => ?_⟩
  · exact (hh.known a ((hinvoked a).1 ha)).trans_le hk.length_le
  · obtain ⟨x, hx, -, -, har, hrun, -⟩ := hmem e' he'
    rw [hinvoked, har]
    exact hh.idle x hx (hrun ▸ hi)
  · obtain ⟨x, hx, -, -, -, -, ⟨rfl, rfl⟩ | rfl⟩ := hmem e' he'
    · cases raced with
      | value value => simp [hlog, finishedEntry]
      | _ => cases hcomp
    · rw [hlog]
      exact List.mem_append_left _ (hh.completed e' hx hcomp)
  · obtain ⟨x, hx, -, -, -, -, ⟨rfl, rfl⟩ | rfl⟩ := hmem e' he'
    · cases hr
    · exact (hh.ready e' hx hr).persists hk.persists rfl rfl
  · rw [hlog] at hsplit
    split at hsplit
    · rcases eq_or_of_concat hsplit with ⟨hinv, -⟩ | ⟨after', h⟩
      · cases hinv
      · exact hk.ordered e' he' before after' h
    · rw [if_neg Bool.false_ne_true, List.append_nil] at hsplit
      exact hk.ordered e' he' before after hsplit

theorem step_history [DecidableEq Value] (hc : s.Consistent)
    (hh : s.History) (h : step config s event = some s') : s'.History := by
  have hk := step_continues hc hh h
  cases step_cases hc h with
  | quiet _ hq => exact hq.history hh hk
  | scheduled work aborted hs =>
    rw [hs] at hk ⊢
    exact (submitted_schedule s config.limits work aborted).history hh hk
  | launched e ledger _ _ hl _ ha => exact history_launched hc hh hk hl ha
  | finished e raced he _ _ hs =>
    rw [hs] at hk ⊢
    exact history_finish hc hh he raced hk
  | ledger _ _ hs =>
    rw [hs]
    exact ⟨hh.once, hh.known, hh.idle, hh.completed, hh.ready, hh.ordered⟩

/-! ## Generations and their units -/

/-- What every generation is to its entries: they are its units, in order; if it is malformed it is
over, and everything was refused. -/
structure GenerationsOk (s : Scheduler Value Receipt) : Prop where
  units : ∀ g work, s.works[g]? = some work → (s.entriesOf g).map Entry.unit = work
  malformed : ∀ g work, s.works[g]? = some work → Malformed work → ∃ results,
    s.status? g = some (.returned results) ∧ results.all SchedulingResult.isRefused = true

theorem step_generationsOk_of_not_schedule [DecidableEq Value] (hc : s.Consistent) (hg : s.GenerationsOk)
    (hne : ∀ work aborted, event ≠ .schedule work aborted)
    (h : step config s event = some s') : s'.GenerationsOk := by
  have hworks := step_works h hne
  refine ⟨fun g work hwork => ?_, fun g work hwork hm => ?_⟩
  · rw [hworks] at hwork
    rw [← hg.units g work hwork]
    have hsame : List.Forall₂ Advances s.entries s'.entries := by
      obtain ⟨old, new, hent, hadv, hnew⟩ := step_advances hc h
      have hnil : new = [] := by
        rw [List.eq_nil_iff_forall_not_mem]
        intro e he
        have hlt := (step_consistent hc h).generation_lt e (hent ▸ List.mem_append_right _ he)
        have hlen := congrArg List.length hworks
        rw [works, works, List.length_map, List.length_map] at hlen
        rw [(hnew e he).1.generation, hlen] at hlt
        exact lt_irrefl _ hlt
      rw [hent, hnil, List.append_nil]
      exact hadv
    have hof : List.Forall₂ Advances (s.entriesOf g) (s'.entriesOf g) :=
      forall₂_filter (fun _ _ ha => by rw [ha.generation]) hsame
    exact map_eq_of_forall₂ (fun _ _ ha => ha.unit) hof
  · rw [hworks] at hwork
    obtain ⟨results, hst, hall⟩ := hg.malformed g work hwork hm
    exact ⟨results, step_returned h hst, hall⟩

theorem generationsOk_schedule (hc : s.Consistent) (hg : s.GenerationsOk) (limits : SchedulerLimits)
    (work : List Submission) (aborted : Bool) : (s.schedule limits work aborted).GenerationsOk := by
  have hsub := submitted_schedule s limits work aborted
  obtain ⟨new, gen, -, hgen, hwork, -⟩ := hsub.added
  have hworks : (s.schedule limits work aborted).works = s.works ++ [work.map Submission.unit] := by
    rw [works, hgen, List.map_append, works, List.map_singleton, hwork]
  have hcases : ∀ g units, (s.schedule limits work aborted).works[g]? = some units →
      (g < s.generations.length ∧ s.works[g]? = some units)
        ∨ (g = s.generations.length ∧ units = work.map Submission.unit) := by
    intro g units hu
    have hlen : s.works.length = s.generations.length := List.length_map _
    rw [hworks, List.getElem?_append, hlen] at hu
    split at hu
    · exact .inl ⟨‹_›, hu⟩
    · rw [List.getElem?_singleton] at hu
      split at hu
      · cases hu
        exact .inr ⟨by omega, rfl⟩
      · cases hu
  refine ⟨fun g units hu => ?_, fun g units hu hm => ?_⟩
  · rcases hcases g units hu with ⟨hlt, hold⟩ | ⟨rfl, rfl⟩
    · rw [hsub.entriesOf_of_lt hlt]
      exact hg.units g units hold
    · obtain ⟨new', hnew', -, hunits, -⟩ := hsub.entriesOf_new hc
      rw [hnew', hunits]
  · rcases hcases g units hu with ⟨hlt, hold⟩ | ⟨rfl, rfl⟩
    · obtain ⟨results, hst, hall⟩ := hg.malformed g units hold hm
      refine ⟨results, ?_, hall⟩
      rw [status?, hgen, getElem?_status_append, if_pos hlt]
      exact hst
    · exact schedule_malformed limits aborted hm

theorem step_generationsOk [DecidableEq Value]
    (hc : s.Consistent) (hg : s.GenerationsOk) (h : step config s event = some s') :
    s'.GenerationsOk := by
  by_cases hev : ∃ work aborted, event = .schedule work aborted
  · obtain ⟨work, aborted, rfl⟩ := hev
    cases h
    exact generationsOk_schedule hc hg _ work aborted
  · exact step_generationsOk_of_not_schedule hc hg (fun work aborted he => hev ⟨work, aborted, he⟩) h

/-! ## The result -/

/-- The invariants of this module, together. -/
structure Accountable (s : Scheduler Value Receipt) : Prop where
  consistent : s.Consistent
  history : s.History
  generations : s.GenerationsOk

theorem reaches_accountable [DecidableEq Value]
    {events : List (SchedulerEvent Value Receipt)} (h : Reaches config ledger events s) :
    s.Accountable := by
  refine StateMachine.run_invariant (I := Accountable) (fun _ _ _ ht hstep => ?_) ?_ h
  · exact ⟨step_consistent ht.consistent hstep, step_history ht.consistent ht.history hstep,
      step_generationsOk ht.consistent ht.generations hstep⟩
  · refine ⟨consistent_createScheduler ledger, ⟨?_, ?_, ?_, ?_, ?_, ?_⟩, ⟨?_, ?_⟩⟩
    all_goals simp [createScheduler, works]

/-- **Dependencies and results.**  In every state a scheduler can reach, of every generation submitted
to it: its entries are the submitted units in their order; the runner of each was called at most once,
and only after each of its dependencies had completed; a unit that was refused was never called; in a
malformed generation no runner was called and every unit is refused; and what the generation has
returned is one result for each submitted unit, in submission order and under its id, where a
refusal again means that the unit was never called. -/
theorem dependency_and_result_safety [DecidableEq Value] (config : SchedulerConfig)
    (ledger : BudgetLedger) (events : List (SchedulerEvent Value Receipt))
    (s : Scheduler Value Receipt) (h : Reaches config ledger events s) (g : ℕ)
    (work : List WorkUnit) (hg : s.works[g]? = some work) :
    (s.entriesOf g).map Entry.unit = work
      ∧ (∀ e ∈ s.entriesOf g, s.log.count (.invoked e.arrival) ≤ 1
        ∧ (∀ before after, s.log = before ++ .invoked e.arrival :: after →
          s.CompletedBefore before e)
        ∧ (∀ r, e.result = some r → r.isRefused = true → .invoked e.arrival ∉ s.log))
      ∧ (Malformed work → (∀ e ∈ s.entriesOf g, .invoked e.arrival ∉ s.log)
        ∧ ∃ results, s.status? g = some (.returned results)
          ∧ ∀ r ∈ results, r.isRefused = true)
      ∧ ∀ results, s.status? g = some (.returned results) →
        results.map SchedulingResult.unitId = work.map WorkUnit.id
          ∧ List.Forall₂ (fun e r => r.isRefused = true → .invoked e.arrival ∉ s.log)
            (s.entriesOf g) results := by
  obtain ⟨hc, hh, hgen⟩ := reaches_accountable h
  have hunits := hgen.units g work hg
  have hreturned : ∀ results, s.status? g = some (.returned results) →
      List.Forall₂ (fun e r => r.isRefused = true → .invoked e.arrival ∉ s.log)
        (s.entriesOf g) results := by
    intro results hst
    have hok := (List.forall₂_and_left (p := fun e => e ∈ s.entriesOf g) _ _).2
      ⟨fun _ he => he, hc.statuses g _ hst⟩
    refine hok.imp fun e r hr => ?_
    exact fun href => hh.idle e (mem_entriesOf.1 hr.1).1 (hr.2.2 href)
  refine ⟨hunits, fun e he => ?_, fun hm => ?_, fun results hst => ⟨?_, hreturned results hst⟩⟩
  · have hmem := (mem_entriesOf.1 he).1
    exact ⟨hh.once e.arrival, hh.ordered e hmem,
      fun r hr href => hh.idle e hmem (((hc.entries e hmem).result r hr).2 href)⟩
  · obtain ⟨results, hst, hall⟩ := hgen.malformed g work hg hm
    rw [List.all_eq_true] at hall
    refine ⟨fun e he => ?_, results, hst, hall⟩
    have hand := hreturned results hst
    obtain ⟨r, hr, hnot⟩ := forall₂_exists_right hand he
    exact hnot (hall r hr)
  · have hok : List.Forall₂ (fun e r => r.unitId = e.unit.id) (s.entriesOf g) results :=
      (hc.statuses g _ hst).imp fun _ _ hr => hr.1
    rw [← hunits, List.map_map]
    exact map_eq_of_forall₂ (fun _ _ hr => hr) hok

/-! ### Two units, one after the other -/

/-- A generation in which the second unit depends on the first. -/
def chain : List Submission :=
  [writing "first", ⟨{ writer "second" with dependencies := ["first"] }, 0, 0⟩]

/-- The chain from its submission to its end. -/
def chainRun : List (SchedulerEvent ℕ Unit) :=
  [.schedule chain false, .loop 0 (fun _ => 0) (fun _ => 0), .tryReady 0 .ready "" false,
    .conclude 0 fun _ => 0, .fulfil 0 7, .finish 0 (.value 7) 0,
    .loop 0 (fun _ => 0) (fun _ => 0), .tryReady 0 .ready "" false, .conclude 0 fun _ => 0,
    .fulfil 1 8, .finish 1 (.value 8) 0, .loop 0 (fun _ => 0) (fun _ => 0)]

theorem chain_runs_in_order : ∃ s : Scheduler ℕ Unit, Reaches plainConfig .empty chainRun s
    ∧ s.log = [.invoked 0, .completed 0, .invoked 1, .completed 1]
    ∧ (s.entriesOf 0).map Entry.unit = chain.map Submission.unit
    ∧ ∃ results, s.status? 0 = some (.returned results)
      ∧ results.map SchedulingResult.unitId = ["first", "second"] := by
  have hrun : ((StateMachine.run (step plainConfig) (createScheduler .empty) chainRun).map
      fun s : Scheduler ℕ Unit => (s.log, s.works, s.status? 0))
      = some ([.invoked 0, .completed 0, .invoked 1, .completed 1], [chain.map Submission.unit],
        some (.returned [.completed "first" 7, .completed "second" 8])) := by
    decide +kernel
  obtain ⟨s, hs, hst⟩ := Option.map_eq_some_iff.1 hrun
  obtain ⟨hlog, hrest⟩ := Prod.mk.inj hst
  obtain ⟨hworks, hstatus⟩ := Prod.mk.inj hrest
  have h := dependency_and_result_safety plainConfig .empty _ s hs 0 (chain.map Submission.unit)
    (by rw [hworks]; rfl)
  exact ⟨s, hs, hlog, h.1, _, hstatus, (h.2.2.2 _ hstatus).1⟩

end Falryn.Orchestration.Scheduler
