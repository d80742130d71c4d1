import Falryn.Runtime.ToolLoopEffects

/-!
# What becomes of a proposal

Every proposal the loop is given should be bound and recorded, or reported as refused, and once
(`EachDisposedOnce`).  A batch the loop takes up is: from the top of an iteration on, one variable
holds the batch, and every exit reports it or leaves a record of each call.  Between the answer of the
model and the top of the loop the variable still holds the batch before.  An exit there reports the
wrong batch or none, so a batch has to be taken up (`Taken`) for its proposals to be accounted for.

`Accounted` is the invariant: the offered proposals are those with a record, then those of the batch
that is being executed, then those reported.
-/

namespace Falryn.Runtime

open Orchestration Sessions Tools WorkerPool

namespace LoopState

/-! ## The property -/

/-- The run is over. -/
def isOver (s : LoopState) : Prop := s.point = .threw ∨ ∃ o, s.point = .returned o

/-- **Each proposal has one disposition.**  When the run is over, the offered proposals are those with
a record, in the order of the records, and those reported. -/
structure EachDisposedOnce (options : ToolCallLoopOptions) (s : LoopState) : Prop where
  disposed : s.isOver → ∃ bound, s.offered = bound ++ s.refused
    ∧ s.results.map ToolInvocationRecord.toolCallId = bound.map ToolProposal.toolCallId
  recordedOnce : (s.results.map ToolInvocationRecord.toolCallId).Nodup
  executedOnce : s.executed.Nodup
  boundPerIteration : ∀ batch ∈ s.batches, batch.length ≤ (limits options).maxToolCallsPerIteration
  batchCount : s.batches.length ≤ (limits options).maxIterations
  inOrder : s.isOver → s.results.map ToolInvocationRecord.toolCallId
    = s.batches.flatten.map fun bound => bound.proposal.toolCallId

/-! ## When a batch is taken up -/

section Taken

variable (options : ToolCallLoopOptions) (input : RunToolCallLoopInput)

/-- A proposal of the batch has too long an id to be bound, and nothing else refuses the batch
before that is noticed. -/
def Overlong (iteration : ℕ) (seen : List String) (proposals : List ToolProposal) : Prop :=
  iteration ≤ (limits options).maxIterations ∧ (∀ p ∈ proposals, p.toolCallId ∉ seen)
    ∧ ∃ lowered before p after bound resolved,
      lowerProfileProposals options.disclosed proposals options.definitions = .ok lowered
      ∧ lowered.length ≤ (limits options).maxToolCallsPerIteration
      ∧ lowered = before ++ p :: after
      ∧ bindProposals options.catalog (nextInvocationId input iteration) [] before = .ok bound
      ∧ resolveProposal options.catalog (before.map ToolProposal.toolCallId).reverse p = .ok resolved
      ∧ nextInvocationId input iteration p = none

/-- The declared fallback, if there is one, allows the batch. -/
def FallbackAllows (s : LoopState) (proposals : List ToolProposal) : Prop :=
  ∀ from_ allowed maximum, s.point = .continuing (some (.available from_ allowed maximum)) →
    (∀ p ∈ proposals, nativeNameOf options.disclosed p ∈ allowed)
      ∧ s.fallbackTransitions + proposals.length ≤ maximum

/-- The turn can execute what the model has answered. -/
def TurnReady (s : LoopState) : Prop :=
  ∃ turn, s.coordinator.get input.turnId = some turn ∧ turn.status = .active
    ∧ (turn.phase = .awaitingModel ∨ turn.phase = .handlingModelEvent)

/-- What an answer of the model has to find for its batch to be taken up: the signal is not aborted,
and there is no batch, or the fallback allows it, the turn can execute it and its ids are short
enough.  An abort does no harm where the model has repeated the batch before. -/
def Taken (s : LoopState) : LoopEvent → Prop
  | .continued result =>
    if s.aborted then result.proposals = s.proposals
    else result.proposals = [] ∨ FallbackAllows options s result.proposals ∧ TurnReady input s
      ∧ ¬ Overlong options input (s.iteration + 1) s.seenToolCallIds result.proposals
  | _ => True

end Taken

/-! ## The invariant -/

/-- The books of a run: `bound` has its records, `live` is being executed and the runner may have
been called with `begun` of it, and `rest` has neither. -/
structure Accounted (options : ToolCallLoopOptions) (s : LoopState) (bound live : List ToolProposal)
    (begun : List String) (rest : List ToolProposal) : Prop where
  offered : s.offered = bound ++ live ++ rest
  recorded : s.results.map ToolInvocationRecord.toolCallId = bound.map ToolProposal.toolCallId
  fresh : ((bound ++ live).map ToolProposal.toolCallId).Nodup
  seen : ∀ p ∈ bound ++ live, p.toolCallId ∈ s.seenToolCallIds
  batched : (s.batches.flatten.map fun bound => bound.proposal.toolCallId)
    = (bound ++ live).map ToolProposal.toolCallId
  batchSize : ∀ batch ∈ s.batches, batch.length ≤ (limits options).maxToolCallsPerIteration
  batchCount : s.batches.length ≤ s.iteration
  iterations : s.iteration ≤ (limits options).maxIterations
  executed : s.executed.Sublist (bound.map ToolProposal.toolCallId ++ begun)

/-- A record answers the call it was made for. -/
def Answers (bound : BoundToolInvocation) (record : ToolInvocationRecord) : Prop :=
  record.toolCallId = bound.proposal.toolCallId

/-- A batch is that of the current proposals. -/
def Current (s : LoopState) (batch : List BoundToolInvocation) : Prop :=
  (batch.map fun bound => bound.proposal.toolCallId) = s.proposals.map ToolProposal.toolCallId

/-- The invariant of a run whose batches are all taken up. -/
def Books (options : ToolCallLoopOptions) (s : LoopState) : Prop :=
  match s.point with
  | .executing batch pool _ => s.refused = [] ∧ s.Current batch ∧ Sound batch Answers pool
    ∧ ∃ bound, Accounted options s bound s.proposals
      ((s.proposals.map ToolProposal.toolCallId).take pool.next) []
  | .executingBatch batch => s.refused = [] ∧ s.Current batch
    ∧ ∃ bound, Accounted options s bound s.proposals (s.proposals.map ToolProposal.toolCallId) []
  | .continuing _ => s.refused = [] ∧ ∃ bound, Accounted options s bound [] [] []
  | .threw => False
  | _ => ∃ bound, Accounted options s bound [] [] s.refused

variable {options : ToolCallLoopOptions} {input : RunToolCallLoopInput} {s t : LoopState}
  {bound live rest : List ToolProposal} {begun : List String}

/-- What the invariant says of a run. -/
theorem Books.eachDisposedOnce (h : s.Books options) : s.EachDisposedOnce options := by
  have hmain : ∃ bound live begun rest, Accounted options s bound live begun rest
      ∧ (begun.Sublist (live.map ToolProposal.toolCallId))
      ∧ (s.isOver → live = [] ∧ rest = s.refused) := by
    rw [Books] at h
    split at h
    · rename_i hp
      obtain ⟨-, -, -, bound, hacc⟩ := h
      refine ⟨bound, _, _, _, hacc, List.take_sublist _ _, ?_⟩
      rintro (hover | ⟨o, hover⟩) <;> rw [hp] at hover <;> cases hover
    · rename_i hp
      obtain ⟨-, -, bound, hacc⟩ := h
      refine ⟨bound, _, _, _, hacc, List.Sublist.refl _, ?_⟩
      rintro (hover | ⟨o, hover⟩) <;> rw [hp] at hover <;> cases hover
    · obtain ⟨hrefused, bound, hacc⟩ := h
      exact ⟨bound, [], [], [], hacc, List.nil_sublist _, fun _ => ⟨rfl, hrefused.symm⟩⟩
    · exact h.elim
    · obtain ⟨bound, hacc⟩ := h
      exact ⟨bound, [], [], s.refused, hacc, List.nil_sublist _, fun _ => ⟨rfl, rfl⟩⟩
  obtain ⟨bound, live, begun, rest, hacc, hbegun, hover⟩ := hmain
  refine ⟨fun ho => ?_, ?_, ?_, hacc.batchSize, hacc.batchCount.trans hacc.iterations, fun ho => ?_⟩
  · obtain ⟨rfl, rfl⟩ := hover ho
    exact ⟨bound, by rw [hacc.offered, List.append_nil], hacc.recorded⟩
  · rw [hacc.recorded]
    refine hacc.fresh.sublist ?_
    rw [List.map_append]
    exact List.sublist_append_left _ _
  · refine (hacc.fresh.sublist ?_ : s.executed.Nodup)
    rw [List.map_append]
    exact hacc.executed.trans ((List.Sublist.refl _).append hbegun)
  · obtain ⟨rfl, -⟩ := hover ho
    rw [hacc.recorded, hacc.batched, List.append_nil]

/-! ## Binding -/

/-- The books while the current batch is neither bound nor reported. -/
structure Pending (options : ToolCallLoopOptions) (s : LoopState) (bound : List ToolProposal) :
    Prop where
  refused : s.refused = []
  accounted : Accounted options s bound [] [] s.proposals

/-- A run that settles leaves nothing unaccounted for. -/
theorem Accounted.settling (h : Accounted options s bound [] [] rest) (hrest : s.refused = rest)
    (settlement : Settlement) : (s.settling settlement).Books options := by
  subst hrest
  exact ⟨bound, { h with }⟩

theorem Pending.report (h : s.Pending options bound) (reason : String) (settlement : Settlement) :
    (s.report reason settlement).Books options := by
  have hrefused : (s.report reason settlement).refused = s.proposals := by
    rw [LoopState.report, h.refused, List.nil_append]
  have hacc : Accounted options (s.report reason settlement) bound [] [] s.proposals :=
    { h.accounted with }
  rw [← hrefused] at hacc
  exact ⟨bound, hacc⟩

/-- The books do not depend on what else the ids of a batch are compared with. -/
theorem Pending.see (h : s.Pending options bound) (ids : List String) :
    Pending options { s with seenToolCallIds := s.seenToolCallIds ++ ids } bound :=
  ⟨h.refused, { h.accounted with
    seen := fun p hp => List.mem_append_left _ (h.accounted.seen p hp) }⟩

variable {batch : List BoundToolInvocation} {records : List ToolInvocationRecord}

/-- **A batch that is bound** is executed under the ids of the current proposals. -/
theorem Pending.execute (h : s.Pending options bound) (hcurrent : s.Current batch)
    (hsize : batch.length ≤ (limits options).maxToolCallsPerIteration)
    (hfresh : ((bound ++ s.proposals).map ToolProposal.toolCallId).Nodup)
    (hseen : ∀ p ∈ s.proposals, p.toolCallId ∈ s.seenToolCallIds)
    (hcount : s.batches.length < s.iteration) : (s.execute options batch).Books options := by
  have hoffered : s.offered = bound ++ s.proposals ++ [] := by
    rw [h.accounted.offered, List.append_nil, List.append_nil]
  have hmem : ∀ p ∈ bound ++ s.proposals, p.toolCallId ∈ s.seenToolCallIds := by
    intro p hp
    rcases List.mem_append.1 hp with hp | hp
    · exact h.accounted.seen p (List.mem_append_left _ hp)
    · exact hseen p hp
  have hbatched : ((s.batches ++ [batch]).flatten.map fun bound => bound.proposal.toolCallId)
      = (bound ++ s.proposals).map ToolProposal.toolCallId := by
    rw [List.flatten_append, List.map_append, h.accounted.batched, List.append_nil, List.map_append,
      List.flatten_singleton, hcurrent]
  have hsizes : ∀ b ∈ s.batches ++ [batch],
      b.length ≤ (limits options).maxToolCallsPerIteration := by
    intro b hb
    rcases List.mem_append.1 hb with hb | hb
    · exact h.accounted.batchSize b hb
    · obtain rfl := List.mem_singleton.1 hb
      exact hsize
  have hlength : (s.batches ++ [batch]).length ≤ s.iteration := by
    rw [List.length_append, List.length_singleton]
    exact hcount
  have hexecuted : s.executed.Sublist (bound.map ToolProposal.toolCallId) := by
    simpa using h.accounted.executed
  rw [LoopState.execute]
  split
  · refine ⟨h.refused, hcurrent, bound, hoffered, h.accounted.recorded, hfresh, hmem, hbatched,
      hsizes, hlength, h.accounted.iterations, ?_⟩
    change (s.executed ++ batch.map fun bound => bound.proposal.toolCallId).Sublist _
    rw [hcurrent]
    exact hexecuted.append (List.Sublist.refl _)
  · refine ⟨h.refused, hcurrent, sound_init _ _ fun _ => ?_, bound, hoffered,
      h.accounted.recorded, hfresh, hmem, hbatched, hsizes, hlength, h.accounted.iterations, ?_⟩
    · -- there is a worker as soon as there is a call
      have hpos : 1 ≤ (limits options).maxConcurrentTools := by
        simp only [limits, normalizeLimits, clamp, maxConcurrentToolsCap]
        split <;> omega
      rw [← List.length_eq_zero_iff]
      omega
    · simpa [Pool.init] using hexecuted

/-- **An iteration that has begun** binds its batch or reports it. -/
theorem Pending.bind (h : s.Pending options bound) (hcount : s.batches.length < s.iteration)
    (hshort : ¬ Overlong options input s.iteration s.seenToolCallIds s.proposals) :
    (s.bind options input).Books options := by
  rw [LoopState.bind]
  split
  · exact h.report _ _
  · rename_i hnone
    have hnew : ∀ p ∈ s.proposals, p.toolCallId ∉ s.seenToolCallIds := by
      simpa [List.find?_eq_none] using hnone
    have hsee := h.see (s.proposals.map ToolProposal.toolCallId)
    dsimp only
    split
    · exact hsee.report _ _
    · rename_i lowered hlower
      split
      · exact hsee.report _ _
      · -- binding throws only over an id that is too long
        rename_i hthrew
        refine absurd ⟨h.accounted.iterations, hnew, lowered, ?_⟩ hshort
        rw [bindToolProposals] at hthrew
        split at hthrew
        · cases hthrew
        · rename_i hle
          obtain ⟨before, p, after, bound, resolved, hsplit, hbound, hres, hid⟩ :=
            bindProposals_threw_iff.1 hthrew
          rw [List.append_nil] at hres
          exact ⟨before, p, after, bound, resolved, hlower, not_lt.1 hle, hsplit, hbound, hres, hid⟩
      · -- nothing was proposed
        rename_i hok
        obtain ⟨hmap, -, -⟩ := bindToolProposals_ok hok
        have hnil : s.proposals = [] := by
          have hids := lowerProfileProposals_toolCallId hlower
          rw [← hmap] at hids
          simpa using hids.symm
        exact hsee.accounted.settling (h.refused.trans hnil.symm) _
      · rename_i batch _ hok
        obtain ⟨hmap, hnodup, hsize⟩ := bindToolProposals_ok hok
        have hids := lowerProfileProposals_toolCallId hlower
        rw [hids] at hnodup
        refine hsee.execute ?_ hsize ?_ (fun p hp => ?_) hcount
        · change (batch.map fun bound => bound.proposal.toolCallId) = _
          rw [← hids, ← hmap, List.map_map]
          rfl
        · rw [List.map_append, List.nodup_append]
          refine ⟨by simpa using h.accounted.fresh, hnodup, ?_⟩
          rintro id hid _ hid' rfl
          obtain ⟨p, hp, rfl⟩ := List.mem_map.1 hid
          obtain ⟨q, hq, heq⟩ := List.mem_map.1 hid'
          exact hnew q hq (heq ▸ h.accounted.seen p (List.mem_append_left _ hp))
        · exact List.mem_append_right _ (List.mem_map_of_mem hp)

/-- **The top of the loop** binds the current batch or reports it. -/
theorem Pending.top (h : s.Pending options bound)
    (hshort : s.aborted = false →
      ¬ Overlong options input (s.iteration + 1) s.seenToolCallIds s.proposals) :
    (s.top options input).Books options := by
  rw [LoopState.top]
  split
  · exact h.report _ _
  · rename_i hab
    split
    · exact h.report _ _
    · rename_i hlt
      have hnext : Pending options { s with iteration := s.iteration + 1 } bound :=
        ⟨h.refused, { h.accounted with
          batchCount := h.accounted.batchCount.trans (Nat.le_succ _)
          iterations := not_le.1 hlt }⟩
      exact hnext.bind (Nat.lt_succ_of_le h.accounted.batchCount)
        (hshort (Bool.not_eq_true _ ▸ hab))

/-! ## Executing -/

/-- **Taking a call** keeps the books: the runner is called with the next id of the batch. -/
theorem Books.take {pool : Pool ToolInvocationRecord}
    {sawAbort : Bool} {worker : ℕ} (hp : s.point = .executing batch pool sawAbort)
    (h : s.Books options) (ht : s.take batch pool sawAbort worker = some t) : t.Books options := by
  rw [Books, hp] at h
  obtain ⟨hrefused, hcurrent, hsound, bound, hacc⟩ := h
  have hnext : ∀ {immediate pool'}, pool.take worker immediate = some pool' →
      pool'.next = pool.next + 1 := by
    intro immediate pool' htake
    rw [Pool.take] at htake
    split at htake
    · split at htake
      · cases htake
        rfl
      · split at htake <;> cases htake <;> rfl
    · cases htake
  have hmore : ((s.proposals.map ToolProposal.toolCallId).take pool.next).Sublist
      ((s.proposals.map ToolProposal.toolCallId).take (pool.next + 1)) :=
    (List.take_prefix_take_left (Nat.le_succ _)).sublist
  rw [LoopState.take] at ht
  split at ht
  · obtain ⟨pool', hpool, rfl⟩ := Option.map_eq_some_iff.1 ht
    refine ⟨hrefused, hcurrent, hsound.take (fun _ _ _ hj hi => ?_) hpool, bound,
      { hacc with executed := ?_ }⟩
    · rw [hj] at hi
      cases hi
      rfl
    · rw [hnext hpool]
      exact hacc.executed.trans ((List.Sublist.refl _).append hmore)
  · obtain ⟨pool', hpool, rfl⟩ := Option.map_eq_some_iff.1 ht
    refine ⟨hrefused, hcurrent, hsound.take (fun i job answer _ hi => by cases hi) hpool, bound,
      { hacc with executed := ?_ }⟩
    rw [hnext hpool, List.take_add_one, ← List.append_assoc]
    refine hacc.executed.append ?_
    have hcall : (batch[pool.next]?.map fun bound => bound.proposal.toolCallId)
        = (s.proposals.map ToolProposal.toolCallId)[pool.next]? := by
      rw [← hcurrent, List.getElem?_map]
    rw [hcall]

theorem Accounted.cycle (h : Accounted options s bound [] [] []) (hrefused : s.refused = [])
    (fallback : Option FallbackResolution) : (s.cycle options input fallback).Books options := by
  rw [LoopState.cycle]
  split
  · exact h.settling hrefused _
  · exact ⟨hrefused, bound, { h with }⟩

/-- **A batch that was executed** has a record of each of its calls. -/
theorem Accounted.afterBatch (h : Accounted options s bound s.proposals begun [])
    (hrefused : s.refused = []) (hbegun : begun.Sublist (s.proposals.map ToolProposal.toolCallId))
    (hrecords : records.map ToolInvocationRecord.toolCallId
      = s.proposals.map ToolProposal.toolCallId) (aborted : Bool) :
    (s.afterBatch options input records aborted).Books options := by
  have hacc : Accounted options { s with results := s.results ++ records }
      (bound ++ s.proposals) [] [] [] :=
    { h with
      offered := by rw [List.append_nil]; exact h.offered
      recorded := by rw [List.map_append, h.recorded, hrecords, List.map_append]
      fresh := by rw [List.append_nil]; exact h.fresh
      seen := by rw [List.append_nil]; exact h.seen
      batched := by rw [List.append_nil]; exact h.batched
      executed := by
        rw [List.append_nil, List.map_append]
        exact h.executed.trans ((List.Sublist.refl _).append hbegun) }
  rw [LoopState.afterBatch]
  split
  · exact hacc.settling hrefused _
  · split
    · exact hacc.cycle hrefused _
    · exact hacc.settling hrefused _
    · exact hacc.settling hrefused _
    · split
      · exact hacc.cycle hrefused _
      · exact hacc.settling hrefused _

/-- The records of a batch carry the ids of its calls. -/
theorem toolCallId_of_answers (h : List.Forall₂ Answers batch records) :
    records.map ToolInvocationRecord.toolCallId
      = batch.map fun bound => bound.proposal.toolCallId := by
  induction h with
  | nil => rfl
  | cons hfirst _ ih => rw [List.map_cons, List.map_cons, hfirst, ih]

theorem toolCallId_zipWith
    {outcomes : List ToolInvocationOutcome} (h : outcomes.length = batch.length) :
    (List.zipWith recordFromOutcome batch outcomes).map ToolInvocationRecord.toolCallId
      = batch.map fun bound => bound.proposal.toolCallId := by
  induction batch generalizing outcomes with
  | nil => rfl
  | cons _ batch ih =>
    cases outcomes with
    | nil => cases h
    | cons _ outcomes =>
      rw [List.zipWith_cons_cons, List.map_cons, List.map_cons, ih (by simpa using h)]
      rfl

/-! ## Continuing -/

/-- **A turn that is ready goes on** to the top of the loop with the new batch. -/
theorem proceed_of_ready (options : ToolCallLoopOptions) (h : TurnReady input s)
    (proposals : List ToolProposal) :
    ∃ coordinator, s.proceed options input proposals
      = ({ s with coordinator, proposals } : LoopState).top options input := by
  obtain ⟨turn, hget, hactive, hphase⟩ := h
  -- the turn executes once it handles the answer
  have hexecutes : ∀ c turn, TurnCoordinator.get c input.turnId = some turn →
      turn.status = .active → turn.phase = .handlingModelEvent →
      ∃ c', applyCommand options input c .beginExecutingCapability none = .ok c' := by
    intro c turn hget hactive hphase
    rcases TurnCoordinator.apply_moves options.gate
      ⟨.beginExecutingCapability, input.configurationGeneration, none, none, none⟩ hget hactive
      (by simp [terminalCommands]) (by simp) with ⟨error, -, hno⟩ | ⟨c', target, happ, -, -⟩
    · rw [hphase] at hno
      cases hno
    · exact ⟨c', happ⟩
  rcases hphase with hphase | hphase
  · rcases TurnCoordinator.apply_moves options.gate
      ⟨.beginHandlingModelEvent, input.configurationGeneration, none, none, none⟩ hget hactive
      (by simp [terminalCommands]) (by simp) with ⟨error, -, hno⟩ | ⟨c', target, happ, hget', hto⟩
    · rw [hphase] at hno
      cases hno
    · obtain rfl : target = .handlingModelEvent := by
        rw [hphase] at hto
        exact (Option.some.inj hto).symm
      obtain ⟨c'', happ'⟩ := hexecutes c' _ hget' hactive rfl
      have hhandle : s.handleModelEvent options input = .ok c' := by
        rw [handleModelEvent, hget, if_pos (by simp [hphase])]
        exact happ
      exact ⟨c'', by rw [proceed, hhandle]; dsimp only; rw [happ']⟩
  · obtain ⟨c'', happ⟩ := hexecutes s.coordinator turn hget hactive hphase
    have hhandle : s.handleModelEvent options input = .ok s.coordinator := by
      rw [handleModelEvent, hget, if_neg (by simp [hphase])]
    exact ⟨c'', by rw [proceed, hhandle]; dsimp only; rw [happ]⟩

theorem not_overlong_nil (iteration : ℕ) (seen : List String) :
    ¬ Overlong options input iteration seen [] := by
  rintro ⟨-, -, lowered, before, p, after, bound, resolved, hlower, -, rfl, -⟩
  have hids := congrArg List.length (lowerProfileProposals_toolCallId hlower)
  simp at hids

variable {proposals : List ToolProposal}

/-- **A further batch** is taken up, unless there is none. -/
theorem Accounted.proceed
    (h : Accounted options s bound [] [] proposals) (hrefused : s.refused = [])
    (hready : proposals = [] ∨ TurnReady input s)
    (hshort : ¬ Overlong options input (s.iteration + 1) s.seenToolCallIds proposals) :
    (s.proceed options input proposals).Books options := by
  have htop : ∀ coordinator, (({ s with coordinator, proposals } : LoopState).top options
      input).Books options := fun coordinator =>
    Pending.top (s := { s with coordinator, proposals }) ⟨hrefused, { h with }⟩ fun _ => hshort
  rcases hready with rfl | hready
  · rw [LoopState.proceed]
    split
    · exact h.settling hrefused _
    · rename_i coordinator _
      split
      · exact Accounted.settling (s := { s with coordinator }) { h with } hrefused _
      · exact htop _
  · obtain ⟨coordinator, heq⟩ := proceed_of_ready options hready proposals
    rw [heq]
    exact htop coordinator

variable {fallback : Option FallbackResolution} {result : ContinueModelResult}

theorem Accounted.proceedFallback (h : Accounted options s bound [] [] proposals)
    (hrefused : s.refused = []) (hp : s.point = .continuing fallback)
    (htaken : proposals = [] ∨ FallbackAllows options s proposals ∧ TurnReady input s
      ∧ ¬ Overlong options input (s.iteration + 1) s.seenToolCallIds proposals) :
    (s.proceedFallback options input fallback proposals).Books options := by
  have hshort : ¬ Overlong options input (s.iteration + 1) s.seenToolCallIds proposals := by
    rcases htaken with rfl | ⟨-, -, hshort⟩
    · exact not_overlong_nil _ _
    · exact hshort
  have hready : proposals = [] ∨ TurnReady input s := htaken.imp_right fun htaken => htaken.2.1
  have hempty : proposals = [] → ∀ settlement, (s.settling settlement).Books options := by
    rintro rfl settlement
    exact h.settling hrefused _
  unfold LoopState.proceedFallback
  split
  · rename_i from_ allowed maximum
    dsimp only
    split
    · -- the model has proposed a tool that the fallback does not declare
      rename_i hfind
      obtain ⟨p, hpmem, hname⟩ := List.mem_map.1 (List.mem_of_find?_eq_some hfind)
      rcases htaken with rfl | ⟨hallows, -⟩
      · cases hpmem
      · have hundeclared := List.find?_some hfind
        rw [← hname] at hundeclared
        simp [(hallows from_ allowed maximum hp).1 p hpmem] at hundeclared
    · split
      · rename_i hlimit
        rcases htaken with hnil | ⟨hallows, -⟩
        · exact hempty hnil _
        · rcases hlimit with hnil | hlimit
          · exact hempty (List.map_eq_nil_iff.1 hnil) _
          · rw [List.length_map] at hlimit
            exact absurd (hallows from_ allowed maximum hp).2 (not_le.2 hlimit)
      · exact Accounted.proceed { h with } hrefused hready hshort
  · exact h.proceed hrefused hready hshort

theorem Accounted.stop (h : Accounted options s bound [] [] []) (hrefused : s.refused = []) :
    (s.stop options input).Books options := by
  rw [LoopState.stop]
  split
  · exact h.settling hrefused _
  · split
    · exact h.settling hrefused _
    · rename_i coordinator _
      exact Accounted.settling (s := { s with coordinator }) { h with } hrefused _

/-- **The answer of the model** keeps the books if its batch is taken up. -/
theorem Books.afterModel (h : s.Books options) (hp : s.point = .continuing fallback)
    (htaken : Taken options input s (.continued result)) :
    (s.afterModel options input fallback result).Books options := by
  rw [Books, hp] at h
  obtain ⟨hrefused, bound, hacc⟩ := h
  have hoffered : Accounted options { s with offered := s.offered ++ result.proposals }
      bound [] [] result.proposals :=
    { hacc with offered := by rw [hacc.offered, List.append_nil] }
  rw [Taken] at htaken
  unfold LoopState.afterModel
  dsimp only
  split
  · rename_i hab
    rw [if_pos hab] at htaken
    rw [htaken] at hoffered ⊢
    exact Pending.report (s := { s with offered := s.offered ++ s.proposals })
      ⟨hrefused, hoffered⟩ _ _
  · rename_i hab
    rw [if_neg hab] at htaken
    split
    · exact hoffered.settling hrefused _
    · exact hoffered.stop hrefused
    · exact hoffered.proceedFallback hrefused hp htaken

/-! ## Runs -/

variable {event : LoopEvent}

/-- **One step keeps the books** if the batch it brings, if any, is taken up. -/
theorem Books.step (h : s.Books options)
    (htaken : Taken options input s event) (hstep : s.step options input event = some t) :
    t.Books options := by
  -- the books do not mention the signal or the turn
  have hkeep : ∀ coordinator aborted,
      Books options { s with coordinator, aborted } := by
    intro coordinator aborted
    rw [Books] at h ⊢
    dsimp only
    split at h
    · rename_i hp
      rw [hp]
      obtain ⟨hrefused, hcurrent, hsound, bound, hacc⟩ := h
      exact ⟨hrefused, hcurrent, hsound, bound, { hacc with }⟩
    · rename_i hp
      rw [hp]
      obtain ⟨hrefused, hcurrent, bound, hacc⟩ := h
      exact ⟨hrefused, hcurrent, bound, { hacc with }⟩
    · rename_i hp
      rw [hp]
      obtain ⟨hrefused, bound, hacc⟩ := h
      exact ⟨hrefused, bound, { hacc with }⟩
    · exact h.elim
    · obtain ⟨bound, hacc⟩ := h
      exact ⟨bound, { hacc with }⟩
  have hsettle : ∀ settlement, s.decided? = some settlement →
      (s.settle options input settlement).Books options := by
    intro settlement hdecided
    rw [decided?] at hdecided
    split at hdecided
    · rename_i hp
      rw [Books, hp] at h
      obtain ⟨bound, hacc⟩ := h
      exact ⟨bound, { hacc with }⟩
    · rename_i hp
      rw [Books, hp] at h
      obtain ⟨bound, hacc⟩ := h
      exact ⟨bound, { hacc with }⟩
    · cases hdecided
  cases event with
  | abort =>
    simp only [LoopState.step] at hstep
    split at hstep
    · cases hstep
      exact hkeep _ true
    · cases hstep
  | command =>
    simp only [LoopState.step] at hstep
    split at hstep
    · split at hstep
      · cases hstep
        exact hkeep _ _
      · cases hstep
        exact h
    · cases hstep
  | reported | settle =>
    simp only [LoopState.step] at hstep
    split at hstep
    · rename_i hp
      cases hstep
      exact hsettle _ (by rw [decided?, hp])
    · cases hstep
  | take worker =>
    simp only [LoopState.step] at hstep
    split at hstep
    · rename_i hp
      exact h.take hp hstep
    · cases hstep
  | ran worker =>
    simp only [LoopState.step] at hstep
    split at hstep
    · rename_i batch pool sawAbort hp
      obtain ⟨pool', hpool, rfl⟩ := Option.map_eq_some_iff.1 hstep
      rw [Books, hp] at h
      obtain ⟨hrefused, hcurrent, hsound, bound, hacc⟩ := h
      refine ⟨hrefused, hcurrent, hsound.settle (fun _ _ answer hj hi => ?_) hpool, bound,
        { hacc with executed := ?_ }⟩
      · rw [hj] at hi
        cases hi
        rfl
      · have hnext : pool'.next = pool.next := by
          rw [Pool.settle] at hpool
          split at hpool
          · obtain ⟨answer, -, rfl⟩ := Option.map_eq_some_iff.1 hpool
            rfl
          · cases hpool
        rw [hnext]
        exact hacc.executed
    · cases hstep
  | joined =>
    simp only [LoopState.step] at hstep
    split at hstep
    · rename_i batch pool sawAbort hp
      split at hstep
      · rename_i hdone
        cases hstep
        rw [Books, hp] at h
        obtain ⟨hrefused, hcurrent, hsound, bound, hacc⟩ := h
        refine hacc.afterBatch hrefused (List.take_sublist _ _) ?_ _
        rw [toolCallId_of_answers (hsound.answers hdone)]
        exact hcurrent
      · cases hstep
    · cases hstep
  | ranBatch =>
    simp only [LoopState.step] at hstep
    split at hstep
    · rename_i batch hp
      split at hstep
      · rename_i hlength
        cases hstep
        rw [Books, hp] at h
        obtain ⟨hrefused, hcurrent, bound, hacc⟩ := h
        refine hacc.afterBatch hrefused (List.Sublist.refl _) ?_ _
        rw [toolCallId_zipWith hlength]
        exact hcurrent
      · cases hstep
    · cases hstep
  | continued =>
    simp only [LoopState.step] at hstep
    split at hstep
    · rename_i hp
      cases hstep
      exact h.afterModel hp htaken
    · cases hstep

/-! ## Batches that are not taken up -/

/-- A proposal is lost, or a batch was reported in the place of another. -/
def Lost (s : LoopState) : Prop :=
  (s.isOver ∨ ∃ settlement, s.decided? = some settlement)
    ∧ ¬ ∃ bound, s.offered = bound ++ s.refused
      ∧ s.results.map ToolInvocationRecord.toolCallId = bound.map ToolProposal.toolCallId

/-- A batch nobody reports is lost. -/
theorem Accounted.lost (h : Accounted options s bound [] [] proposals) (hne : s.refused ≠ proposals)
    (hclosed : s.isOver ∨ ∃ settlement, s.decided? = some settlement) : s.Lost := by
  refine ⟨hclosed, ?_⟩
  rintro ⟨bound', hoffered, hrecorded⟩
  have hlength : bound.length = bound'.length := by
    rw [h.recorded] at hrecorded
    simpa using congrArg List.length hrecorded
  rw [h.offered, List.append_nil] at hoffered
  exact hne (List.append_inj hoffered hlength).2.symm

theorem Accounted.lost_settling
    (h : Accounted options s bound [] [] proposals) (hrefused : s.refused = [])
    (hne : proposals ≠ []) (settlement : Settlement) : (s.settling settlement).Lost := by
  refine Accounted.lost (s := s.settling settlement) { h with } ?_ (.inr ⟨settlement, rfl⟩)
  exact fun heq => hne (heq.symm.trans hrefused)

theorem Accounted.lost_report
    (h : Accounted options s bound [] [] proposals) (hrefused : s.refused = [])
    (hne : s.proposals ≠ proposals) (reason : String) (settlement : Settlement) :
    (s.report reason settlement).Lost := by
  refine Accounted.lost (s := s.report reason settlement) { h with } ?_ (.inr ⟨settlement, rfl⟩)
  change s.refused ++ s.proposals ≠ proposals
  rw [hrefused, List.nil_append]
  exact hne

/-- **A turn that is not ready** ends the run. -/
theorem proceed_of_not_ready (options : ToolCallLoopOptions) (h : ¬ TurnReady input s)
    (proposals : List ToolProposal) :
    ∃ coordinator error, s.proceed options input proposals
      = ({ s with coordinator } : LoopState).settling (.turnError error) := by
  rw [proceed]
  split
  · exact ⟨s.coordinator, _, rfl⟩
  · rename_i coordinator hhandle
    split
    · exact ⟨coordinator, _, rfl⟩
    · rename_i happ
      refine absurd ?_ h
      rw [handleModelEvent] at hhandle
      split at hhandle
      · obtain ⟨turn, target, hget, hactive, hto, -⟩ := TurnCoordinator.apply_moves_ok
          (by simp [terminalCommands]) (by simp) hhandle
        exact ⟨turn, hget, hactive, .inl (phaseTarget_beginHandlingModelEvent hto)⟩
      · cases hhandle
        obtain ⟨turn, target, hget, hactive, hto, -⟩ := TurnCoordinator.apply_moves_ok
          (by simp [terminalCommands]) (by simp) happ
        exact ⟨turn, hget, hactive, .inr (phaseTarget_beginExecutingCapability hto)⟩

/-- **An id that is too long** makes the run throw. -/
theorem top_of_overlong (hab : s.aborted = false)
    (h : Overlong options input (s.iteration + 1) s.seenToolCallIds s.proposals) :
    ∃ seenToolCallIds, s.top options input
      = { s with iteration := s.iteration + 1, seenToolCallIds, point := .threw } := by
  obtain ⟨hlt, hnew, lowered, before, p, after, bound, resolved, hlower, hle, hsplit, hbound, hres,
    hid⟩ := h
  have hfind : (s.proposals.find? fun proposal => proposal.toolCallId ∈ s.seenToolCallIds)
      = none := by
    simpa [List.find?_eq_none] using hnew
  have hthrew : bindToolProposals options.catalog lowered
      (limits options).maxToolCallsPerIteration (nextInvocationId input (s.iteration + 1))
      = .error .threw := by
    rw [bindToolProposals, if_neg (not_lt.2 hle), bindProposals_threw_iff]
    exact ⟨before, p, after, bound, resolved, hsplit, hbound, by rwa [List.append_nil], hid⟩
  refine ⟨s.seenToolCallIds ++ s.proposals.map ToolProposal.toolCallId, ?_⟩
  rw [top, if_neg (by simp [hab]), if_neg (by omega), bind]
  dsimp only
  rw [hfind]
  dsimp only
  rw [hlower]
  dsimp only
  rw [hthrew]

theorem ne_nil_of_overlong {iteration : ℕ} {seen : List String}
    (h : Overlong options input iteration seen proposals) : proposals ≠ [] := by
  rintro rfl
  exact not_overlong_nil iteration seen h

/-- A batch that is bound but for an id that is too long is lost. -/
theorem Accounted.lost_top (h : Accounted options s bound [] [] s.proposals)
    (hrefused : s.refused = []) (hab : s.aborted = false)
    (hlong : Overlong options input (s.iteration + 1) s.seenToolCallIds s.proposals) :
    (s.top options input).Lost := by
  obtain ⟨seenToolCallIds, heq⟩ := top_of_overlong hab hlong
  rw [heq]
  refine ⟨.inl (.inl rfl), ?_⟩
  exact (Accounted.lost (s := { s with point := .threw }) { h with }
    (fun hnil => ne_nil_of_overlong hlong (hnil.symm.trans hrefused)) (.inl (.inl rfl))).2

/-- **An answer whose batch is not taken up** loses it. -/
theorem Books.lost_afterModel (h : s.Books options) (hp : s.point = .continuing fallback)
    (htaken : ¬ Taken options input s (.continued result)) :
    (s.afterModel options input fallback result).Lost := by
  rw [Books, hp] at h
  obtain ⟨hrefused, bound, hacc⟩ := h
  have hoffered : Accounted options { s with offered := s.offered ++ result.proposals }
      bound [] [] result.proposals :=
    { hacc with offered := by rw [hacc.offered, List.append_nil] }
  rw [Taken] at htaken
  unfold LoopState.afterModel
  dsimp only
  split
  · rename_i hab
    rw [if_pos hab] at htaken
    exact hoffered.lost_report hrefused (Ne.symm htaken) _ _
  · rename_i hab
    rw [if_neg hab, not_or] at htaken
    obtain ⟨hne, htaken⟩ := htaken
    cases result with
    | stop | failed reason => exact absurd rfl hne
    | proceed proposals =>
      dsimp only [ContinueModelResult.proposals] at hoffered hne htaken ⊢
      -- the batch is allowed by the fallback, and the turn or an id stops it
      have hproceed : FallbackAllows options s proposals → ∀ s', s'.refused = [] →
          s'.aborted = s.aborted → s'.iteration = s.iteration →
          s'.seenToolCallIds = s.seenToolCallIds → s'.coordinator = s.coordinator →
          Accounted options s' bound [] [] proposals →
          (s'.proceed options input proposals).Lost := by
        intro hallows s' hr ha hi hs hc hacc'
        by_cases hready : TurnReady input s
        · have hlong : Overlong options input (s'.iteration + 1) s'.seenToolCallIds proposals := by
            rw [hi, hs]
            by_contra hshort
            exact htaken ⟨hallows, hready, hshort⟩
          have hready' : TurnReady input s' := by
            rw [TurnReady, hc]
            exact hready
          obtain ⟨coordinator, heq⟩ := proceed_of_ready options hready' proposals
          rw [heq]
          exact Accounted.lost_top (s := { s' with coordinator, proposals }) { hacc' with } hr
            (ha.trans (Bool.not_eq_true _ ▸ hab)) hlong
        · have hready' : ¬ TurnReady input s' := by
            rw [TurnReady, hc]
            exact hready
          obtain ⟨coordinator, error, heq⟩ := proceed_of_not_ready options hready' proposals
          rw [heq]
          exact Accounted.lost_settling (s := { s' with coordinator }) { hacc' with } hr hne _
      unfold LoopState.proceedFallback
      split
      · rename_i from_ allowed maximum
        dsimp only
        split
        · exact hoffered.lost_settling hrefused hne _
        · rename_i hfind
          split
          · exact hoffered.lost_settling hrefused hne _
          · rename_i hlimit
            rw [not_or, List.length_map, not_lt] at hlimit
            refine hproceed ?_ _ hrefused rfl rfl rfl rfl { hoffered with }
            intro from' allowed' maximum' hp'
            rw [hp] at hp'
            cases hp'
            refine ⟨fun _ hpmem => ?_, hlimit.2⟩
            have hall := List.find?_eq_none.1 hfind _
              (List.mem_map_of_mem (f := nativeNameOf options.disclosed) hpmem)
            simpa using hall
      · rename_i hno
        refine hproceed ?_ _ hrefused rfl rfl rfl rfl hoffered
        intro from' allowed' maximum' hp'
        rw [hp] at hp'
        cases hp'
        exact absurd rfl (hno _ _ _)

/-- Only an answer of the model can fail to be taken up. -/
theorem Books.lost_step (h : s.Books options)
    (htaken : ¬ Taken options input s event) (hstep : s.step options input event = some t) :
    t.Lost := by
  cases event with
  | continued =>
    simp only [LoopState.step] at hstep
    split at hstep
    · rename_i hp
      cases hstep
      exact h.lost_afterModel hp htaken
    · cases hstep
  | _ => exact absurd trivial htaken

/-- What is lost stays lost. -/
theorem Lost.step (h : s.Lost) (hstep : s.step options input event = some t) : t.Lost := by
  obtain ⟨hclosed, hlost⟩ := h
  have hpoint : (∀ batch pool sawAbort, s.point ≠ .executing batch pool sawAbort)
      ∧ (∀ batch, s.point ≠ .executingBatch batch) ∧ ∀ fallback, s.point ≠ .continuing fallback := by
    rcases hclosed with (hp | ⟨o, hp⟩) | ⟨settlement, hdecided⟩
    · simp [hp]
    · simp [hp]
    · refine ⟨fun _ _ _ hp => ?_, fun _ hp => ?_, fun _ hp => ?_⟩ <;> rw [decided?, hp] at hdecided <;>
        cases hdecided
  obtain ⟨hexecuting, hbatch, hcontinuing⟩ := hpoint
  cases event with
  | abort =>
    simp only [LoopState.step] at hstep
    split at hstep
    · cases hstep
      exact ⟨hclosed, hlost⟩
    · cases hstep
  | command transition =>
    simp only [LoopState.step] at hstep
    split at hstep
    · split at hstep <;> cases hstep <;> exact ⟨hclosed, hlost⟩
    · cases hstep
  | reported | settle =>
    simp only [LoopState.step] at hstep
    split at hstep
    · cases hstep
      exact ⟨.inl (.inr ⟨_, rfl⟩), hlost⟩
    · cases hstep
  | take worker | ran worker outcome | joined | ranBatch outcomes | continued result =>
    simp only [LoopState.step] at hstep
    cases hstep

/-! ## Runs -/

/-- What the first batch has to be for the run to take it up: if the turn can execute it and the
signal is not aborted, its ids are short enough. -/
def StartTaken (options : ToolCallLoopOptions) (input : RunToolCallLoopInput)
    (coordinator : TurnCoordinator) (aborted : Bool) : Prop :=
  ∀ turn, coordinator.get input.turnId = some turn → turn.status = .active →
    turn.phase = .handlingModelEvent → aborted = false →
    ¬ Overlong options input 1 [] input.proposals

/-- Nothing has happened yet. -/
theorem accounted_nil (hr : s.results = []) (hb : s.batches = []) (he : s.executed = [])
    (hi : s.iteration = 0) : Accounted options s [] [] [] s.offered := by
  refine ⟨rfl, by rw [hr]; rfl, List.nodup_nil, by simp, by rw [hb]; rfl, by simp [hb], ?_, ?_, ?_⟩
  · rw [hb]
    exact Nat.zero_le _
  · rw [hi]
    exact Nat.zero_le _
  · rw [he]
    exact List.nil_sublist _

/-- **A run starts** with its books in order if its first batch is taken up, and else with a loss. -/
theorem books_start (options : ToolCallLoopOptions) (input : RunToolCallLoopInput)
    (coordinator : TurnCoordinator) (aborted : Bool) :
    (StartTaken options input coordinator aborted
        ∧ (start options input coordinator aborted).Books options)
      ∨ (¬ StartTaken options input coordinator aborted
        ∧ (start options input coordinator aborted).Lost) := by
  rw [start]
  dsimp only
  cases happ : applyCommand options input coordinator .beginExecutingCapability none with
  | error error =>
    refine .inl ⟨fun turn hget hactive hphase => ?_,
      Pending.report ⟨rfl, accounted_nil rfl rfl rfl rfl⟩ _ _⟩
    rcases TurnCoordinator.apply_moves options.gate
      ⟨.beginExecutingCapability, input.configurationGeneration, none, none, none⟩ hget hactive
      (by simp [terminalCommands]) (by simp) with ⟨_, -, hno⟩ | ⟨c', target, happ', -, -⟩
    · rw [hphase] at hno
      cases hno
    · rw [applyCommand, happ'] at happ
      cases happ
  | ok =>
    obtain ⟨turn, target, hget, hactive, hto, -⟩ := TurnCoordinator.apply_moves_ok
      (by simp [terminalCommands]) (by simp) happ
    have hphase := phaseTarget_beginExecutingCapability hto
    by_cases hlong : aborted = false ∧ Overlong options input 1 [] input.proposals
    · obtain ⟨hab, hlong⟩ := hlong
      refine .inr ⟨fun htaken => htaken turn hget hactive hphase hab hlong, ?_⟩
      exact Accounted.lost_top (accounted_nil rfl rfl rfl rfl) rfl hab hlong
    · refine .inl ⟨fun _ _ _ _ hab hlong' => hlong ⟨hab, hlong'⟩, ?_⟩
      exact Pending.top ⟨rfl, accounted_nil rfl rfl rfl rfl⟩ fun hab hlong' => hlong ⟨hab, hlong'⟩

/-- **Every proposal of the model gets exactly one disposition if and only if every batch is taken
up.**  A run that is over has a record or a report of each proposal it was given, in order, and one,
exactly if no batch was lost over an id that is too long to be bound and every answer of the model
found the signal not aborted and, if it brought a batch, a turn that could execute it and a fallback,
if one had been declared, that allowed it. -/
theorem each_proposal_disposed_once (options : ToolCallLoopOptions) (input : RunToolCallLoopInput)
    (coordinator : TurnCoordinator) (aborted : Bool) (events : List LoopEvent) (s : LoopState)
    (h : Reaches options input coordinator aborted events s) (hover : s.isOver) :
    s.EachDisposedOnce options ↔ StartTaken options input coordinator aborted
      ∧ StateMachine.Along (step options input) (Taken options input)
        (start options input coordinator aborted) events := by
  have hlost : s.Lost → ¬ s.EachDisposedOnce options :=
    fun hlost honce => hlost.2 (honce.disposed hover)
  rcases books_start options input coordinator aborted with ⟨hstart, hbooks⟩ | ⟨hstart, hlosts⟩
  · rcases StateMachine.run_along (I := Books options) (J := Lost)
      (fun _ _ _ hs hp hstep => hs.step hp hstep)
      (fun _ _ _ hs hp hstep => hs.lost_step hp hstep)
      (fun _ _ _ hs hstep => hs.step hstep) hbooks h with ⟨hall, hs⟩ | ⟨hnot, hs⟩
    · exact iff_of_true hs.eachDisposedOnce ⟨hstart, hall⟩
    · exact iff_of_false (hlost hs) fun hall => hnot hall.2
  · have hs : s.Lost := StateMachine.run_invariant (fun _ _ _ hs hstep => hs.step hstep) hlosts h
    exact iff_of_false (hlost hs) fun hall => hstart hall.1

/-! ### Two calls, and what is said of them -/

/-- The ids of what a run that has returned was given, has reported, has recorded and has executed,
and the sizes of its batches. -/
def audit (s : LoopState) :
    Option (List String × List String × List String × List String × List (List String)) :=
  s.returned?.map fun _ => (s.offered.map ToolProposal.toolCallId,
    s.refused.map ToolProposal.toolCallId, s.results.map ToolInvocationRecord.toolCallId, s.executed,
    s.batches.map fun batch => batch.map fun bound => bound.proposal.toolCallId)

theorem exists_of_audit (events : List LoopEvent) {offered refused recorded executed : List String}
    {batches : List (List String)}
    (h : (StateMachine.run (step plainOptions (twoWrites true))
      (start plainOptions (twoWrites true) handlingTurn false) events).bind audit
        = some (offered, refused, recorded, executed, batches)) :
    ∃ s, Reaches plainOptions (twoWrites true) handlingTurn false events s ∧ s.isOver
      ∧ s.offered.map ToolProposal.toolCallId = offered
      ∧ s.refused.map ToolProposal.toolCallId = refused
      ∧ s.results.map ToolInvocationRecord.toolCallId = recorded ∧ s.executed = executed
      ∧ (s.batches.map fun batch => batch.map fun bound => bound.proposal.toolCallId) = batches := by
  obtain ⟨s, hs, haudit⟩ := Option.bind_eq_some_iff.1 h
  obtain ⟨o, ho, hfields⟩ := Option.map_eq_some_iff.1 haudit
  simp only [Prod.mk.injEq] at hfields
  exact ⟨s, hs, .inr ⟨o, returned?_eq_some.1 ho⟩, hfields⟩

/-- The model stops after both calls have completed. -/
theorem stopped_model_loses_nothing : ∃ s,
    Reaches plainOptions (twoWrites true) handlingTurn false
        (executeBoth .completed .completed ++ [.continued .stop, .settle]) s
      ∧ s.isOver ∧ s.EachDisposedOnce plainOptions
      ∧ StartTaken plainOptions (twoWrites true) handlingTurn false := by
  obtain ⟨s, hs, hover, hoffered, hrefused, hrecorded, hexecuted, hbatches⟩ := exists_of_audit
    (executeBoth .completed .completed ++ [.continued .stop, .settle])
    (show _ = some (["first", "second"], [], ["first", "second"], ["first", "second"],
      [["first", "second"]]) by decide +kernel)
  have honce : s.EachDisposedOnce plainOptions := by
    have hlength : s.batches.map List.length = [2] := by
      simpa using congrArg (List.map List.length) hbatches
    refine ⟨fun _ => ⟨s.offered, ?_, hrecorded.trans hoffered.symm⟩, ?_, ?_, fun _ hb => ?_, ?_,
      fun _ => ?_⟩
    · rw [List.map_eq_nil_iff.1 hrefused, List.append_nil]
    · rw [hrecorded]
      decide
    · rw [hexecuted]
      decide
    · have hmem := List.mem_map_of_mem (f := List.length) hb
      rw [hlength, List.mem_singleton] at hmem
      rw [hmem]
      decide +kernel
    · have hone := congrArg List.length hlength
      rw [List.length_map] at hone
      rw [hone]
      decide +kernel
    · rw [hrecorded, List.map_flatten, hbatches]
      rfl
  exact ⟨s, hs, hover, honce, ((each_proposal_disposed_once _ _ _ _ _ s hs hover).1 honce).1⟩

/-- The signal is aborted while the model continues: both calls have a record and are reported as
refused. -/
theorem aborted_continuation_reports_what_was_recorded : ∃ s,
    Reaches plainOptions (twoWrites true) handlingTurn false
        (executeBoth .completed .completed ++ [.abort, .continued .stop, .reported]) s
      ∧ s.isOver ∧ s.offered.map ToolProposal.toolCallId = ["first", "second"]
      ∧ s.results.map ToolInvocationRecord.toolCallId = ["first", "second"]
      ∧ s.refused.map ToolProposal.toolCallId = ["first", "second"]
      ∧ ¬ s.EachDisposedOnce plainOptions := by
  obtain ⟨s, hs, hover, hoffered, hrefused, hrecorded, -⟩ := exists_of_audit
    (executeBoth .completed .completed ++ [.abort, .continued .stop, .reported])
    (show _ = some (["first", "second"], ["first", "second"], ["first", "second"],
      ["first", "second"], [["first", "second"]]) by decide +kernel)
  refine ⟨s, hs, hover, hoffered, hrecorded, hrefused, fun honce => ?_⟩
  obtain ⟨bound, hsplit, hbound⟩ := honce.disposed hover
  have h₁ := congrArg List.length hsplit
  have h₂ := congrArg List.length hbound
  have h₃ := congrArg List.length hoffered
  have h₄ := congrArg List.length hrefused
  have h₅ := congrArg List.length hrecorded
  simp only [List.length_append, List.length_map, List.length_cons, List.length_nil]
    at h₁ h₂ h₃ h₄ h₅
  omega

end LoopState

end Falryn.Runtime
