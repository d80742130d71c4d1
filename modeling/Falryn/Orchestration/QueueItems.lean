import Falryn.Orchestration.QueueCalls

/-!
# What becomes of the items of a bounded queue

The items that were put in and not replaced are, in this order, the ones that have left and the ones
that are held.  A display-only item can be replaced; every other one leaves by `dequeue` or because
it is past the age limit.  `expire` looks at the oldest item only: that is enough while the clock does
not go back.
-/

namespace Falryn.Orchestration.BoundedQueue

open StateMachine

variable {π : Type} {limits : QueueLimits} {q q' : BoundedQueue π}

/-! ## The items -/

/-- Where the items of a queue are: what was put in and not replaced has left or is held, in the order
in which it was put in; only display-only items are replaced, and only old ones expire. -/
structure ItemsKept (limits : QueueLimits) (q : BoundedQueue π) : Prop where
  distinct : ((admittedIn q.log).map QueueItem.call).Nodup
  replaced : ∀ item ∈ replacedIn q.log, item ∈ admittedIn q.log ∧ item.coalescable = true
  order : (admittedIn q.log).filter
      (fun item => item.call ∉ (replacedIn q.log).map QueueItem.call) = leftIn q.log ++ q.items
  left : (leftIn q.log).length = (dequeuedIn q.log).length + q.counters.expired
  accepted : q.counters.accepted = q.size + (leftIn q.log).length
  old : ∀ item now, .expired item now ∈ q.log → tooOld limits now item

variable {item : QueueItem π}

theorem mem_leftIn {log : List (QueueHappening π)} :
    item ∈ leftIn log ↔ item ∈ dequeuedIn log ∨ ∃ now, .expired item now ∈ log := by
  simp only [leftIn, dequeuedIn, List.mem_filterMap]
  constructor
  · rintro ⟨happening, hmem, hsome⟩
    rcases happening with _ | _ | _ | ⟨i, now⟩ | ⟨i, now⟩ | _ | _
    all_goals cases hsome
    · exact .inr ⟨now, hmem⟩
    · exact .inl ⟨.dequeued item now, hmem, rfl⟩
  · rintro (⟨happening, hmem, hsome⟩ | ⟨now, hmem⟩)
    · rcases happening with _ | _ | _ | _ | ⟨i, now⟩ | _ | _
      all_goals cases hsome
      exact ⟨.dequeued item now, hmem, rfl⟩
    · exact ⟨.expired item now, hmem, rfl⟩

/-- What is appended to the log and says nothing about the items. -/
theorem ItemsKept.quiet (h : ItemsKept limits q) (added : List (QueueHappening π))
    (hlog : q'.log = q.log ++ added) (hitems : q'.items = q.items)
    (haccepted : q'.counters.accepted = q.counters.accepted)
    (hexpired : q'.counters.expired = q.counters.expired) (ha : admittedIn added = [])
    (hr : replacedIn added = []) (hl : leftIn added = []) (hd : dequeuedIn added = []) :
    ItemsKept limits q' := by
  have ha' : admittedIn q'.log = admittedIn q.log := by
    rw [hlog, admittedIn_append, ha, List.append_nil]
  have hr' : replacedIn q'.log = replacedIn q.log := by
    rw [hlog, replacedIn_append, hr, List.append_nil]
  have hl' : leftIn q'.log = leftIn q.log := by
    rw [hlog, leftIn_append, hl, List.append_nil]
  have hd' : dequeuedIn q'.log = dequeuedIn q.log := by
    rw [hlog, dequeuedIn_append, hd, List.append_nil]
  refine ⟨ha' ▸ h.distinct, ?_, ?_, ?_, ?_, fun item now hmem => ?_⟩
  · rw [ha', hr']
    exact h.replaced
  · rw [ha', hr', hl', hitems]
    exact h.order
  · rw [hl', hd', hexpired]
    exact h.left
  · rw [haccepted, hl', size, hitems]
    exact h.accepted
  · rw [hlog, List.mem_append] at hmem
    rcases hmem with hmem | hmem
    · exact h.old item now hmem
    · have hin : item ∈ leftIn added := mem_leftIn.2 (.inr ⟨now, hmem⟩)
      rw [hl] at hin
      cases hin

theorem ItemsKept.expire (h : ItemsKept limits q) (now : ℤ) :
    ItemsKept limits (q.expire limits now) := by
  have hsplit := List.takeWhile_append_dropWhile
    (p := fun item : QueueItem π => decide (tooOld limits now item)) (l := q.items)
  obtain ⟨ha, hr, hd, hl, -⟩ :=
    expired_quiet (q.items.takeWhile fun item => tooOld limits now item) now
  have hlength := congrArg List.length hsplit
  rw [List.length_append] at hlength
  have hleft := h.left
  have haccepted := h.accepted
  rw [BoundedQueue.expire, expireFrom_eq]
  refine ⟨?_, ?_, ?_, ?_, ?_, fun item t hmem => ?_⟩
  · rw [admittedIn_append, ha, List.append_nil]
    exact h.distinct
  · rw [admittedIn_append, replacedIn_append, ha, hr, List.append_nil, List.append_nil]
    exact h.replaced
  · rw [admittedIn_append, replacedIn_append, leftIn_append, ha, hr, hl, List.append_nil,
      List.append_nil, List.append_assoc, hsplit]
    exact h.order
  · rw [leftIn_append, dequeuedIn_append, hl, hd, List.append_nil, List.length_append]
    show _ = _ + (q.counters.expired + _)
    omega
  · rw [leftIn_append, hl, List.length_append]
    show q.counters.accepted = List.length (List.dropWhile _ _) + _
    rw [size] at haccepted
    omega
  · rcases List.mem_append.1 hmem with hmem | hmem
    · exact h.old item t hmem
    · obtain ⟨i, hi, heq⟩ := List.mem_map.1 hmem
      cases heq
      simpa using List.mem_takeWhile_imp hi

/-- An item that leaves by `dequeue`. -/
theorem ItemsKept.pop (h : ItemsKept limits q) {rest : List (QueueItem π)}
    (hitems : q.items = item :: rest) (now : ℤ) (bytes : ℤ) :
    ItemsKept limits
      { q with items := rest, bytes := bytes, log := q.log ++ [.dequeued item now] } := by
  have hleft := h.left
  have haccepted := h.accepted
  rw [size, hitems, List.length_cons] at haccepted
  have hl : leftIn (q.log ++ [.dequeued item now]) = leftIn q.log ++ [item] := leftIn_append ..
  have hd : dequeuedIn (q.log ++ [.dequeued item now]) = dequeuedIn q.log ++ [item] :=
    dequeuedIn_append ..
  have ha : admittedIn (q.log ++ [.dequeued item now]) = admittedIn q.log :=
    (admittedIn_append ..).trans (List.append_nil _)
  have hr : replacedIn (q.log ++ [.dequeued item now]) = replacedIn q.log :=
    (replacedIn_append ..).trans (List.append_nil _)
  refine ⟨ha ▸ h.distinct, ?_, ?_, ?_, ?_, fun i t hmem => ?_⟩
  · rw [ha, hr]
    exact h.replaced
  · rw [ha, hr, hl, List.append_assoc, List.singleton_append, ← hitems]
    exact h.order
  · rw [hl, hd, List.length_append, List.length_append]
    show _ = _ + q.counters.expired
    omega
  · rw [hl, List.length_append]
    show q.counters.accepted = rest.length + _
    rw [List.length_singleton]
    omega
  · rcases List.mem_append.1 hmem with hmem | hmem
    · exact h.old i t hmem
    · cases List.mem_singleton.1 hmem

variable {call : ℕ} {index : ℕ}

/-- A new item was not replaced. -/
theorem ItemsKept.fresh (h : ItemsKept limits q)
    (hfresh : call ∉ (admittedIn q.log).map QueueItem.call) :
    call ∉ (replacedIn q.log).map QueueItem.call := by
  intro hmem
  obtain ⟨item, hitem, rfl⟩ := List.mem_map.1 hmem
  exact hfresh (List.mem_map_of_mem (h.replaced item hitem).1)

theorem ItemsKept.admitItem (h : ItemsKept limits q)
    (hfresh : call ∉ (admittedIn q.log).map QueueItem.call) (request : EnqueueRequest π)
    (instant : ℤ) :
    ItemsKept limits { q.admitItem call request instant with
      counters := { q.counters with accepted := q.counters.accepted + 1 } } := by
  have hnew := h.fresh hfresh
  have haccepted := h.accepted
  obtain ⟨item, hitem⟩ : ∃ item, item = itemFor call request instant := ⟨_, rfl⟩
  have hcall : item.call = call := by rw [hitem]; rfl
  have ha : admittedIn (q.log ++ [.admitted item]) = admittedIn q.log ++ [item] :=
    admittedIn_append ..
  have hr : replacedIn (q.log ++ [.admitted item]) = replacedIn q.log :=
    (replacedIn_append ..).trans (List.append_nil _)
  have hl : leftIn (q.log ++ [.admitted item]) = leftIn q.log :=
    (leftIn_append ..).trans (List.append_nil _)
  have hd : dequeuedIn (q.log ++ [.admitted item]) = dequeuedIn q.log :=
    (dequeuedIn_append ..).trans (List.append_nil _)
  simp only [BoundedQueue.admitItem, ← hitem]
  refine ⟨?_, fun i hi => ?_, ?_, ?_, ?_, fun i t hmem => ?_⟩
  · rw [ha, List.map_append]
    exact h.distinct.append (List.nodup_singleton _) (List.disjoint_singleton.2 (hcall ▸ hfresh))
  · rw [ha]
    rw [hr] at hi
    obtain ⟨hin, hcoalescable⟩ := h.replaced i hi
    exact ⟨List.mem_append_left _ hin, hcoalescable⟩
  · rw [ha, hr, hl, List.filter_append, h.order, List.append_assoc,
      List.filter_cons_of_pos (by rw [hcall]; exact decide_eq_true hnew), List.filter_nil]
  · rw [hl, hd]
    exact h.left
  · rw [hl]
    show q.counters.accepted + 1 = (q.items ++ [item]).length + _
    rw [List.length_append, List.length_singleton]
    rw [size] at haccepted
    omega
  · rcases List.mem_append.1 hmem with hmem | hmem
    · exact h.old i t hmem
    · cases List.mem_singleton.1 hmem

/-- In a list whose members differ in their calls, taking out the member at an index is taking out its
call. -/
theorem filter_call_eq_eraseIdx {items : List (QueueItem π)} {i : ℕ}
    (hnodup : (items.map QueueItem.call).Nodup) (hitem : items[i]? = some item) :
    items.filter (fun x => x.call ≠ item.call) = items.eraseIdx i := by
  induction items generalizing i with
  | nil => cases hitem
  | cons first items ih =>
    obtain ⟨hout, hnodup⟩ := List.nodup_cons.1 hnodup
    rcases i with _ | i
    · cases hitem
      rw [List.eraseIdx_cons_zero, List.filter_cons_of_neg (by simp), List.filter_eq_self]
      intro x hx
      refine decide_eq_true fun heq => hout ?_
      rw [← heq]
      exact List.mem_map_of_mem hx
    · have hmem : item ∈ items := List.mem_of_getElem? hitem
      have hne : first.call ≠ item.call := fun heq => hout (heq ▸ List.mem_map_of_mem hmem)
      rw [List.eraseIdx_cons_succ, List.filter_cons_of_pos (by simpa using hne), ih hnodup hitem]

theorem ItemsKept.coalesce (h : ItemsKept limits q)
    (hfresh : call ∉ (admittedIn q.log).map QueueItem.call) {replaced : QueueItem π}
    (hreplaced : q.items[index]? = some replaced) (hdisplay : replaced.coalescable = true)
    (request : EnqueueRequest π) (now : ℤ) :
    ItemsKept limits (q.coalesce index replaced call request now) := by
  have hnew := h.fresh hfresh
  have haccepted := h.accepted
  obtain ⟨item, hitem⟩ : ∃ item, item = itemFor call request now := ⟨_, rfl⟩
  have hcall : item.call = call := by rw [hitem]; rfl
  have hmem : replaced ∈ q.items := List.mem_of_getElem? hreplaced
  obtain ⟨added, hadded⟩ : ∃ added : List (QueueHappening π), added =
      [.replaced replaced, .admitted item, .settled call (.coalesced replaced)] := ⟨_, rfl⟩
  have hlog : (q.coalesce index replaced call request now).log = q.log ++ added := by
    rw [hadded, hitem]
    simp [BoundedQueue.coalesce, settle, record, BoundedQueue.admitItem]
  have ha : admittedIn (q.log ++ added) = admittedIn q.log ++ [item] := by
    rw [admittedIn_append, hadded]
    rfl
  have hr : replacedIn (q.log ++ added) = replacedIn q.log ++ [replaced] := by
    rw [replacedIn_append, hadded]
    rfl
  have hl : leftIn (q.log ++ added) = leftIn q.log := by
    rw [leftIn_append, hadded]
    exact List.append_nil _
  have hd : dequeuedIn (q.log ++ added) = dequeuedIn q.log := by
    rw [dequeuedIn_append, hadded]
    exact List.append_nil _
  have hitems : (q.coalesce index replaced call request now).items =
      q.items.eraseIdx index ++ [item] := by
    rw [hitem]
    rfl
  -- the calls of what left and of what is held differ
  have hsub : (leftIn q.log ++ q.items).Sublist (admittedIn q.log) :=
    h.order ▸ List.filter_sublist
  have hnodup : ((leftIn q.log ++ q.items).map QueueItem.call).Nodup :=
    h.distinct.sublist (hsub.map _)
  have hin : replaced ∈ admittedIn q.log := hsub.subset (List.mem_append_right _ hmem)
  have hne : replaced.call ≠ call := fun heq => hfresh (heq ▸ List.mem_map_of_mem hin)
  have hindex : index < q.items.length := (List.getElem?_eq_some_iff.1 hreplaced).1
  have herase : (leftIn q.log ++ q.items).filter (fun x => x.call ≠ replaced.call) =
      leftIn q.log ++ q.items.eraseIdx index := by
    have hat : (leftIn q.log ++ q.items)[(leftIn q.log).length + index]? = some replaced := by
      rw [List.getElem?_append_right (Nat.le_add_right _ _), Nat.add_sub_cancel_left]
      exact hreplaced
    rw [filter_call_eq_eraseIdx hnodup hat, List.eraseIdx_append_of_length_le (Nat.le_add_right _ _),
      Nat.add_sub_cancel_left]
  refine ⟨?_, fun i hi => ?_, ?_, ?_, ?_, fun i t hmem' => ?_⟩
  · rw [hlog, ha, List.map_append]
    exact h.distinct.append (List.nodup_singleton _) (List.disjoint_singleton.2 (hcall ▸ hfresh))
  · rw [hlog, hr] at hi
    rw [hlog, ha]
    rcases List.mem_append.1 hi with hi | hi
    · obtain ⟨hin, hcoalescable⟩ := h.replaced i hi
      exact ⟨List.mem_append_left _ hin, hcoalescable⟩
    · cases List.mem_singleton.1 hi
      exact ⟨List.mem_append_left _ hin, hdisplay⟩
  · have hsplit : ∀ x : QueueItem π, decide (x.call ∉ (replacedIn q.log ++ [replaced]).map
        QueueItem.call) = (decide (x.call ≠ replaced.call) &&
          decide (x.call ∉ (replacedIn q.log).map QueueItem.call)) := by
      intro x
      rw [List.map_append, List.map_singleton, ← Bool.decide_and]
      refine decide_eq_decide.2 ?_
      rw [List.mem_append, List.mem_singleton, not_or, and_comm]
    rw [hlog, ha, hr, hl, hitems, ← List.append_assoc, List.filter_append]
    simp only [hsplit]
    rw [← List.filter_filter, h.order, herase,
      List.filter_cons_of_pos (by simp only [hcall, hnew, Ne.symm hne, ne_eq, not_false_eq_true,
        decide_true, Bool.and_true]), List.filter_nil]
  · rw [hlog, hl, hd]
    exact h.left
  · rw [hlog, hl, size, hitems, List.length_append, List.length_singleton,
      List.length_eraseIdx_of_lt hindex]
    show q.counters.accepted = _
    rw [size] at haccepted
    omega
  · rw [hlog, List.mem_append] at hmem'
    rcases hmem' with hmem' | hmem'
    · exact h.old i t hmem'
    · rw [hadded] at hmem'
      simp at hmem'

/-- A call that put nothing in has a number of its own. -/
theorem fresh_of_facts (h : (factsOf q call).items = []) :
    call ∉ (admittedIn q.log).map QueueItem.call := by
  intro hmem
  obtain ⟨item, hitem, hcall⟩ := List.mem_map.1 hmem
  have hin : item ∈ (factsOf q call).items := List.mem_filter.2 ⟨hitem, by simpa using hcall⟩
  rw [h] at hin
  cases hin

theorem ItemsKept.settle (h : ItemsKept limits q) (call : ℕ) (outcome : EnqueueOutcome π) :
    ItemsKept limits (q.settle call outcome) := by
  refine h.quiet [.settled call outcome] ?_ ?_ ?_ ?_ ?_ ?_ ?_ ?_ <;> rfl

theorem ItemsKept.reject (h : ItemsKept limits q) (call : ℕ) (request : EnqueueRequest π) :
    ItemsKept limits (q.reject limits call request) := by
  refine h.quiet [.settled call (overflowLimit limits q request.byteLength)] ?_ ?_ ?_ ?_ ?_ ?_ ?_ ?_
    <;> rfl

/-- Nothing about the items changes but where calls stand. -/
theorem ItemsKept.congr (h : ItemsKept limits q) (hlog : q'.log = q.log)
    (hitems : q'.items = q.items) (hcounters : q'.counters = q.counters) : ItemsKept limits q' :=
  h.quiet [] (by rw [hlog, List.append_nil]) hitems (by rw [hcounters]) (by rw [hcounters]) rfl rfl
    rfl rfl

/-- What a request may replace is for display only. -/
theorem coalescable_of_coalescingIndex {request : EnqueueRequest π} (hindex : q.coalescingIndex request = some index)
    (hitem : q.items[index]? = some item) : item.coalescable = true := by
  rw [coalescingIndex] at hindex
  split at hindex
  · cases hindex
  next key _ =>
    split at hindex
    · obtain ⟨hlt, hp, -⟩ := List.findIdx?_eq_some_iff_getElem.1 hindex
      obtain ⟨hlt', heq⟩ := List.getElem?_eq_some_iff.1 hitem
      rw [heq, Bool.and_eq_true] at hp
      exact hp.1
    · cases hindex

theorem ItemsKept.enqueue (h : ItemsKept limits q) (hcalls : CallsAnswered q) (spill : Bool)
    (request : EnqueueRequest π) (signal : Option Bool) (now : ℤ) :
    ItemsKept limits (q.enqueue limits spill request signal now) := by
  have hcalled : ItemsKept limits (q.called request) := by
    refine h.quiet [.called q.nextCall request] ?_ ?_ ?_ ?_ ?_ ?_ ?_ ?_ <;> rfl
  have hexpired := hcalled.expire now
  have hfresh : q.nextCall ∉ (admittedIn ((q.called request).expire limits now).log).map
      QueueItem.call := by
    refine fresh_of_facts ?_
    rw [factsOf_expire, factsOf_called, hcalls.unmade (le_refl _)]
  rw [BoundedQueue.enqueue]
  dsimp only
  split
  · exact (hexpired.admitItem hfresh request now).settle _ _
  · split
    · exact hexpired.reject _ _
    · split
      · exact hexpired.reject _ _
      next hindex =>
        split
        · exact hexpired.reject _ _
        next hreplaced =>
          exact hexpired.coalesce hfresh hreplaced
            (coalescable_of_coalescingIndex hindex hreplaced) request now
    · split
      · exact hexpired.congr rfl rfl rfl
      · exact hexpired.reject _ _
    · split
      · exact hexpired.settle _ _
      · exact hexpired.congr rfl rfl rfl

variable {spill : Bool} {event : QueueEvent π}

theorem ItemsKept.step (h : ItemsKept limits q) (hcalls : CallsAnswered q) (hstep : q.step limits spill event = some q') : ItemsKept limits q' := by
  cases step_ok hstep with
  | enqueue request signal now => exact h.enqueue hcalls spill request signal now
  | @resume call _ request now hs =>
    have hproceeded : ItemsKept limits (q.proceed call) := h.congr rfl rfl rfl
    have hexpired := hproceeded.expire now
    have hfresh : call ∉ (admittedIn ((q.proceed call).expire limits now).log).map
        QueueItem.call := by
      refine fresh_of_facts ?_
      rw [factsOf_expire, factsOf_proceed, (hcalls.of_suspended hs).2]
    rw [BoundedQueue.resume]
    dsimp only
    split
    · exact (hexpired.admitItem hfresh _ now).settle _ _
    · exact hexpired.reject _ _
  | @cancelled call =>
    have hproceeded : ItemsKept limits (q.proceed call) := h.congr rfl rfl rfl
    exact hproceeded.settle _ _
  | @spilled call _ artifact =>
    refine h.quiet [.settled call (.spilled artifact)] ?_ ?_ ?_ ?_ ?_ ?_ ?_ ?_ <;> rfl
  | abort => exact h.congr rfl rfl rfl
  | dequeue now =>
    have hexpired := h.expire now
    rw [dequeue]
    split
    · exact hexpired
    next item rest hitems =>
      obtain ⟨f, -, heq⟩ := releaseOneWaiter_eq
        { q.expire limits now with
          items := rest
          bytes := (q.expire limits now).bytes - item.byteLength
          log := (q.expire limits now).log ++ [.dequeued item now] }
      exact (hexpired.pop hitems now ((q.expire limits now).bytes - item.byteLength)).congr
        (by rw [heq]) (by rw [heq]) (by rw [heq])
  | peek now =>
    have hexpired := h.expire now
    rw [peek]
    split
    · exact hexpired
    next item _ _ =>
      refine hexpired.quiet [.peeked item now] ?_ ?_ ?_ ?_ ?_ ?_ ?_ ?_ <;> rfl
  | drain =>
    obtain ⟨f, -, heq⟩ := foldl_release q.waiters { q with waiters := [] }
    exact h.congr (by rw [drain, heq]) (by rw [drain, heq]) (by rw [drain, heq])

theorem itemsKept_empty (limits : QueueLimits) : ItemsKept limits (empty : BoundedQueue π) :=
  ⟨List.nodup_nil, nofun, rfl, rfl, rfl,
    nofun⟩

/-! ## The clock -/

/-- What the clock reads at an event. -/
def QueueEvent.now? : QueueEvent π → Option ℤ
  | .enqueue _ _ now => some now
  | .resume _ now => some now
  | .dequeue now => some now
  | .peek now => some now
  | _ => none

/-- The items are held in the order of their times, and these were read off the clock. -/
structure Timed (readings : List ℤ) (q : BoundedQueue π) : Prop where
  sorted : q.items.Pairwise fun a b => a.enqueuedAt ≤ b.enqueuedAt
  read : ∀ item ∈ q.items, item.enqueuedAt ∈ readings

variable {readings : List ℤ} {now : ℤ} {events : List (QueueEvent π)} {waiters : List ℕ}

theorem Timed.sublist (h : Timed readings q) (hsub : q'.items.Sublist q.items) :
    Timed readings q' :=
  ⟨h.sorted.sublist hsub, fun item hitem => h.read item (hsub.subset hitem)⟩

theorem Timed.admitItem (h : Timed readings q) (hnow : ∀ t ∈ readings, t ≤ now)
    (hitems : ∃ call request, q'.items = q.items ++ [itemFor call request now]) :
    Timed (readings ++ [now]) q' := by
  obtain ⟨call, request, hitems⟩ := hitems
  refine ⟨?_, fun item hitem => ?_⟩
  · rw [hitems, List.pairwise_append]
    refine ⟨h.sorted, List.pairwise_singleton _ _, fun a ha _ hb => ?_⟩
    cases List.mem_singleton.1 hb
    exact hnow _ (h.read a ha)
  · rw [hitems, List.mem_append] at hitem
    rcases hitem with hitem | hitem
    · exact List.mem_append_left _ (h.read item hitem)
    · cases List.mem_singleton.1 hitem
      exact List.mem_append_right _ (List.mem_singleton_self now)

theorem Timed.later (h : Timed readings q) (more : List ℤ) : Timed (readings ++ more) q :=
  ⟨h.sorted, fun item hitem => List.mem_append_left _ (h.read item hitem)⟩

theorem expire_items (limits : QueueLimits) (q : BoundedQueue π) (now : ℤ) :
    (q.expire limits now).items = q.items.dropWhile fun item => tooOld limits now item := by
  rw [BoundedQueue.expire, expireFrom_eq]

theorem expire_sublist (limits : QueueLimits) (q : BoundedQueue π) (now : ℤ) :
    (q.expire limits now).items.Sublist q.items := by
  rw [expire_items]
  exact List.dropWhile_sublist _

/-- While the clock does not go back, no item that is left is past the age limit. -/
theorem Timed.expire_young (h : Timed readings q) (limits : QueueLimits) (now : ℤ) :
    ∀ item ∈ (q.expire limits now).items, ¬ tooOld limits now item := by
  have hsorted := h.sorted.sublist (expire_sublist limits q now)
  rcases hitems : (q.expire limits now).items with _ | ⟨first, rest⟩
  · nofun
  · have hfirst : ¬ tooOld limits now first := by
      have hhead := List.head?_dropWhile_not (fun item => decide (tooOld limits now item)) q.items
      rw [← expire_items, hitems] at hhead
      simpa using hhead
    rw [hitems, List.pairwise_cons] at hsorted
    intro item hitem
    rcases List.mem_cons.1 hitem with rfl | hitem
    · exact hfirst
    · intro hold
      have hle := hsorted.1 item hitem
      rw [tooOld, elapsedBetween] at hfirst hold
      have hmono : max 0 (now - item.enqueuedAt) ≤ max 0 (now - first.enqueuedAt) :=
        max_le_max (le_refl _) (by omega)
      omega

theorem Timed.enqueue (h : Timed readings q) (hnow : ∀ t ∈ readings, t ≤ now)
    (limits : QueueLimits) (spill : Bool) (request : EnqueueRequest π) (signal : Option Bool) :
    Timed (readings ++ [now]) (q.enqueue limits spill request signal now) := by
  have hsub : ((q.called request).expire limits now).items.Sublist q.items :=
    expire_sublist limits (q.called request) now
  have hexpired : Timed readings ((q.called request).expire limits now) := h.sublist hsub
  have hsame : ∀ q₂ : BoundedQueue π, q₂.items = ((q.called request).expire limits now).items →
      Timed (readings ++ [now]) q₂ := by
    intro q₂ hitems
    exact (hexpired.sublist (hitems ▸ List.Sublist.refl _)).later [now]
  rw [BoundedQueue.enqueue]
  dsimp only
  split
  · exact hexpired.admitItem hnow ⟨q.nextCall, request, rfl⟩
  · split
    · exact hsame _ rfl
    · split
      · exact hsame _ rfl
      next index _ =>
        split
        · exact hsame _ rfl
        next replaced _ =>
          have herased : Timed readings (record { (q.called request).expire limits now with
              items := ((q.called request).expire limits now).items.eraseIdx index
              bytes := ((q.called request).expire limits now).bytes - replaced.byteLength }
              (.replaced replaced)) := hexpired.sublist (List.eraseIdx_sublist _ _)
          exact herased.admitItem hnow ⟨q.nextCall, request, rfl⟩
    · split <;> exact hsame _ rfl
    · split <;> exact hsame _ rfl

theorem Timed.step (h : Timed readings q) (hnow : ∀ now ∈ event.now?, ∀ t ∈ readings, t ≤ now)
    (hstep : q.step limits spill event = some q') :
    Timed (readings ++ event.now?.toList) q' := by
  cases step_ok hstep with
  | enqueue request signal now => exact h.enqueue (hnow now rfl) limits spill request signal
  | @resume call _ _ now =>
    have hproceeded : Timed readings (q.proceed call) := h.sublist (List.Sublist.refl _)
    have hexpired := hproceeded.sublist (expire_sublist limits (q.proceed call) now)
    rw [BoundedQueue.resume]
    dsimp only
    split
    · exact hexpired.admitItem (hnow now rfl) ⟨call, _, rfl⟩
    · refine (hexpired.sublist ?_).later [now]
      exact List.Sublist.refl ((q.proceed call).expire limits now).items
  | cancelled | spilled | abort =>
    refine (h.sublist ?_).later []
    exact List.Sublist.refl q.items
  | dequeue now =>
    refine (h.sublist ?_).later [now]
    have hsub := expire_sublist limits q now
    rw [dequeue]
    split
    · exact hsub
    next item rest hitems =>
      rw [hitems] at hsub
      rw [(releaseOneWaiter_items _).1]
      exact (List.sublist_cons_self item rest).trans hsub
  | peek now =>
    refine (h.sublist ?_).later [now]
    rw [peek]
    split <;> exact expire_sublist limits q now
  | drain =>
    refine (h.sublist ?_).later []
    rw [drain, (foldl_release_items _ _).1]

theorem timed_run (hclock : (events.filterMap QueueEvent.now?).Pairwise (· ≤ ·))
    (hrun : run (step limits spill) empty events = some q) :
    Timed (events.filterMap QueueEvent.now?) q := by
  induction events using List.reverseRecOn generalizing q with
  | nil =>
    cases hrun
    exact ⟨List.Pairwise.nil, nofun⟩
  | append_singleton events event ih =>
    obtain ⟨q₁, h₁, h₂⟩ := run_append.1 hrun
    obtain ⟨q₂, hstep, h₂⟩ := run_cons.1 h₂
    cases h₂
    have hmap : [event].filterMap QueueEvent.now? = event.now?.toList := by
      rcases hn : event.now? with _ | now
      · exact List.filterMap_cons_none hn
      · exact List.filterMap_cons_some hn
    rw [List.filterMap_append, hmap] at hclock ⊢
    obtain ⟨hbefore, -, hlast⟩ := List.pairwise_append.1 hclock
    refine (ih hbefore h₁).step (fun now hnow t ht => ?_) hstep
    exact hlast t ht now (Option.mem_toList.2 hnow)

/-! ## Waiting -/

/-- Every call that waits for room is among the waiters. -/
def Listed (q : BoundedQueue π) : Prop :=
  ∀ s ∈ q.suspended, ∀ abortable, s.stand = .waiting abortable → s.call ∈ q.waiters

theorem Listed.of_subset (h : Listed q) (hsuspended : q'.suspended ⊆ q.suspended)
    (hwaiters : q.waiters ⊆ q'.waiters) : Listed q' :=
  fun s hs abortable hstand => hwaiters (h s (hsuspended hs) abortable hstand)

/-- A waiter is woken. -/
theorem Listed.release (call : ℕ)
    (h : ∀ s ∈ q.suspended, ∀ abortable, s.stand = .waiting abortable →
      s.call ∈ call :: waiters) :
    ∀ s ∈ (q.release call).suspended, ∀ abortable, s.stand = .waiting abortable →
      s.call ∈ waiters := by
  intro s hs abortable hstand
  obtain ⟨s₀, hs₀, rfl⟩ := List.mem_map.1 hs
  split at hstand
  · cases hstand
  next hne =>
    rw [if_neg hne]
    rcases List.mem_cons.1 (h s₀ hs₀ abortable hstand) with heq | hmem
    · exact absurd heq hne
    · exact hmem

theorem Listed.releaseOneWaiter (h : Listed q) : Listed q.releaseOneWaiter := by
  rw [BoundedQueue.releaseOneWaiter]
  rcases hw : q.waiters with _ | ⟨next, rest⟩
  · exact h
  · have hcons : ∀ s ∈ q.suspended, ∀ abortable, s.stand = .waiting abortable →
        s.call ∈ next :: rest := by
      intro s hs abortable hstand
      rw [← hw]
      exact h s hs abortable hstand
    exact Listed.release (q := { q with waiters := rest }) next hcons

/-- Waking every waiter leaves nobody waiting. -/
theorem drained
    (h : ∀ s ∈ q.suspended, ∀ abortable, s.stand = .waiting abortable → s.call ∈ waiters) :
    ∀ s ∈ (waiters.foldl release q).suspended, ∀ abortable, s.stand ≠ .waiting abortable := by
  induction waiters generalizing q with
  | nil => exact fun s hs abortable hstand => absurd (h s hs abortable hstand) List.not_mem_nil
  | cons call waiters ih => exact ih (Listed.release call h)

theorem Listed.expire (h : Listed q) (limits : QueueLimits) (now : ℤ) :
    Listed (q.expire limits now) := by
  obtain ⟨hsuspended, -, hwaiters⟩ := expire_suspended limits q now
  refine h.of_subset ?_ ?_
  · rw [hsuspended]
    exact List.Subset.refl _
  · rw [hwaiters]
    exact List.Subset.refl _

theorem Listed.enqueue (h : Listed q) (limits : QueueLimits) (spill : Bool)
    (request : EnqueueRequest π) (signal : Option Bool) (now : ℤ) :
    Listed (q.enqueue limits spill request signal now) := by
  have hcalled : Listed (q.called request) := h
  have hexpired := hcalled.expire limits now
  rw [BoundedQueue.enqueue]
  dsimp only
  split
  · exact hexpired
  · split
    · exact hexpired
    · split
      · exact hexpired
      · split <;> exact hexpired
    · split
      · intro s hs abortable hstand
        rcases List.mem_append.1 hs with hs | hs
        · exact hexpired s hs abortable hstand
        · cases List.mem_singleton.1 hs
          cases hstand
      · exact hexpired
    · split
      · exact hexpired
      · intro s hs abortable hstand
        rcases List.mem_append.1 hs with hs | hs
        · exact List.mem_append_left _ (hexpired s hs abortable hstand)
        · cases List.mem_singleton.1 hs
          exact List.mem_append_right _ (List.mem_singleton_self _)

theorem Listed.step (h : Listed q) (hstep : q.step limits spill event = some q') : Listed q' := by
  have hproceed : ∀ call, Listed (q.proceed call) := fun call =>
    h.of_subset (fun _ hs => List.mem_of_mem_filter hs) (List.Subset.refl _)
  cases step_ok hstep with
  | enqueue request signal now => exact h.enqueue limits spill request signal now
  | @resume call _ _ now =>
    rw [BoundedQueue.resume]
    dsimp only
    split <;> exact (hproceed call).expire limits now
  | cancelled | spilled => exact hproceed _
  | abort =>
    intro s hs abortable hstand
    obtain ⟨s₀, hs₀, rfl⟩ := List.mem_map.1 hs
    split at hstand
    · cases hstand
    next hne =>
      rw [if_neg hne]
      exact List.mem_filter.2 ⟨h s₀ hs₀ abortable hstand, by simpa using hne⟩
  | dequeue now =>
    rw [dequeue]
    split
    · exact h.expire limits now
    · exact Listed.releaseOneWaiter (h.expire limits now)
  | peek now =>
    rw [peek]
    split <;> exact h.expire limits now
  | drain =>
    exact fun s hs abortable hstand =>
      absurd hstand (drained (q := { q with waiters := [] }) h s hs abortable)

/-! ## Nothing is lost silently -/

/-- What holds of every queue that a run leads to. -/
structure Accounted (limits : QueueLimits) (q : BoundedQueue π) : Prop where
  calls : CallsAnswered q
  items : ItemsKept limits q
  listed : Listed q

theorem accounted_run (hrun : run (step limits spill) empty events = some q) : Accounted limits q :=
  run_invariant (I := Accounted limits)
    (fun _ _ _ h hstep => ⟨h.calls.step hstep, h.items.step h.calls hstep, h.listed.step hstep⟩)
    ⟨callsAnswered_empty, itemsKept_empty limits, nofun⟩ hrun

/-- An item that was put in is held, has left, or was replaced. -/
theorem ItemsKept.somewhere (h : ItemsKept limits q)
    (hitem : item ∈ admittedIn q.log) (hsemantic : item.coalescable = false) :
    item ∈ q.items ∨ item ∈ dequeuedIn q.log ∨
      ∃ now, .expired item now ∈ q.log ∧ tooOld limits now item := by
  have hkept : item.call ∉ (replacedIn q.log).map QueueItem.call := by
    intro hmem
    obtain ⟨other, hother, hcall⟩ := List.mem_map.1 hmem
    obtain ⟨hin, hcoalescable⟩ := h.replaced other hother
    rw [List.inj_on_of_nodup_map h.distinct hin hitem hcall, hsemantic] at hcoalescable
    cases hcoalescable
  have hin : item ∈ leftIn q.log ++ q.items := by
    rw [← h.order]
    exact List.mem_filter.2 ⟨hitem, decide_eq_true hkept⟩
  rcases List.mem_append.1 hin with hleft | hheld
  · rcases mem_leftIn.1 hleft with hdequeued | ⟨now, hexpired⟩
    · exact .inr (.inl hdequeued)
    · exact .inr (.inr ⟨now, hexpired, h.old item now hexpired⟩)
  · exact .inl hheld

theorem dequeue_items (limits : QueueLimits) (q : BoundedQueue π) (now : ℤ) :
    (∀ item ∈ (q.dequeue limits now).1, item ∈ (q.expire limits now).items) ∧
      ∀ item ∈ (q.dequeue limits now).2.items, item ∈ (q.expire limits now).items := by
  rw [dequeue]
  split
  · exact ⟨fun item hitem => (by cases hitem), fun item hitem => hitem⟩
  next hitems =>
    rw [hitems]
    refine ⟨fun item hitem => ?_, fun item hitem => ?_⟩
    · cases hitem
      exact List.mem_cons_self
    · rw [(releaseOneWaiter_items _).1] at hitem
      exact List.mem_cons_of_mem _ hitem

theorem peek_items (limits : QueueLimits) (q : BoundedQueue π) (now : ℤ) :
    (∀ item ∈ (q.peek limits now).1, item ∈ (q.expire limits now).items) ∧
      ∀ item ∈ (q.peek limits now).2.items, item ∈ (q.expire limits now).items := by
  rw [peek]
  split
  · exact ⟨fun item hitem => (by cases hitem), fun item hitem => hitem⟩
  next hitems =>
    refine ⟨fun item hitem => ?_, fun item hitem => hitem⟩
    cases hitem
    rw [hitems]
    exact List.mem_cons_self

/-- **A bounded queue loses nothing silently.**  Along every run with a clock that does not go back:
what was accepted is held, was dequeued or has expired; the items that were put in and not replaced
are, in the order in which they were put in, the ones that have left and the ones that are held; an
item that is not for display only is held, was dequeued or was past the age limit when it left; no
item past the age limit is there to be dequeued or peeked; and every call of `enqueue` stands
somewhere or has returned exactly once, having put in its item if what it returned says so and nothing
if not, while `drain` leaves no call waiting. -/
theorem nothing_is_lost_silently (limits : QueueLimits) (spill : Bool)
    (events : List (QueueEvent π)) {q : BoundedQueue π}
    (hclock : (events.filterMap QueueEvent.now?).Pairwise (· ≤ ·))
    (hrun : run (step limits spill) empty events = some q) :
    (q.counters.accepted = q.size + (dequeuedIn q.log).length + q.counters.expired) ∧
    (((admittedIn q.log).map QueueItem.call).Nodup ∧
      (admittedIn q.log).filter
        (fun item => item.call ∉ (replacedIn q.log).map QueueItem.call) = leftIn q.log ++ q.items) ∧
    (∀ item ∈ admittedIn q.log, item.coalescable = false →
      item ∈ q.items ∨ item ∈ dequeuedIn q.log ∨
        ∃ now, .expired item now ∈ q.log ∧ tooOld limits now item) ∧
    (∀ now, (∀ item ∈ (q.dequeue limits now).1, ¬ tooOld limits now item) ∧
      (∀ item ∈ (q.dequeue limits now).2.items, ¬ tooOld limits now item) ∧
      (∀ item ∈ (q.peek limits now).1, ¬ tooOld limits now item) ∧
      ∀ item ∈ (q.peek limits now).2.items, ¬ tooOld limits now item) ∧
    ((∀ call < q.nextCall, ∃ request,
      Stands call request (factsOf q call) ∨ Returned call request (factsOf q call)) ∧
      ∀ s ∈ q.drain.suspended, ∀ abortable, s.stand ≠ .waiting abortable) := by
  obtain ⟨hcalls, hitems, hlisted⟩ := accounted_run hrun
  have htimed := timed_run hclock hrun
  refine ⟨?_, ⟨hitems.distinct, hitems.order⟩, fun item hitem hsemantic =>
    hitems.somewhere hitem hsemantic, fun now => ?_, fun call hcall => hcalls.made hcall, ?_⟩
  · have haccepted := hitems.accepted
    have hleft := hitems.left
    omega
  · have hyoung := htimed.expire_young limits now
    exact ⟨fun item hitem => hyoung item ((dequeue_items limits q now).1 item hitem),
      fun item hitem => hyoung item ((dequeue_items limits q now).2 item hitem),
      fun item hitem => hyoung item ((peek_items limits q now).1 item hitem),
      fun item hitem => hyoung item ((peek_items limits q now).2 item hitem)⟩
  · exact drained (q := { q with waiters := [] }) hlisted

/-- A queue for one item that lets producers wait. -/
def oneItem : QueueLimits := ⟨1, 10, 1000, .wait⟩

/-- A semantic fact. -/
def fact (id : String) (now : ℤ) : QueueEvent Unit := .enqueue ⟨id, 1, false, none, ()⟩ none now

theorem nothing_is_lost_silently_waiter :
    ∃ q : BoundedQueue Unit,
      run (step oneItem false) empty [fact "a" 0, fact "b" 1, .dequeue 2, .resume 1 3] = some q ∧
        q.counters.accepted = q.size + (dequeuedIn q.log).length + q.counters.expired :=
  ⟨_, rfl, (nothing_is_lost_silently oneItem false
    [fact "a" 0, fact "b" 1, .dequeue 2, .resume 1 3] (by decide) rfl).1⟩

end Falryn.Orchestration.BoundedQueue
