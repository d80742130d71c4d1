import Falryn.Orchestration.BoundedQueue

/-!
# What a bounded queue may hold

Two of the three ways into a queue look for room first.  The third, the replacement of a display-only
item, does not: the new item may be larger than the one it replaces.  The queue stays within its
limits exactly as long as no replacement is larger than what it replaces and the room that is left.
-/

namespace Falryn.Orchestration.BoundedQueue

open StateMachine

variable {π : Type}

/-! ## The parts of the operations -/

/-- The bytes of a list of items. -/
def totalBytes (items : List (QueueItem π)) : ℕ := (items.map QueueItem.byteLength).sum

@[simp] theorem totalBytes_nil : totalBytes ([] : List (QueueItem π)) = 0 := rfl

@[simp] theorem totalBytes_cons (item : QueueItem π) (items : List (QueueItem π)) :
    totalBytes (item :: items) = item.byteLength + totalBytes items := by
  simp [totalBytes]

@[simp] theorem totalBytes_append (l r : List (QueueItem π)) :
    totalBytes (l ++ r) = totalBytes l + totalBytes r := by
  simp [totalBytes]

/-- What a run of `expire` takes: the items in front that are past the age limit. -/
theorem expireFrom_eq (limits : QueueLimits) (now : ℤ) (q : BoundedQueue π)
    (items : List (QueueItem π)) :
    expireFrom limits now q items =
      { q with
        items := items.dropWhile fun item => tooOld limits now item
        bytes := q.bytes - totalBytes (items.takeWhile fun item => tooOld limits now item)
        counters := { q.counters with
          expired := q.counters.expired +
            (items.takeWhile fun item => tooOld limits now item).length }
        log := q.log ++
          (items.takeWhile fun item => tooOld limits now item).map (.expired · now) } := by
  induction items generalizing q with
  | nil => simp [expireFrom]
  | cons oldest _ ih =>
    rw [expireFrom]
    by_cases h : tooOld limits now oldest
    · rw [if_pos h, ih]
      simp only [List.dropWhile_cons, List.takeWhile_cons, h, decide_true, if_true,
        totalBytes_cons, List.length_cons, List.map_cons, List.append_assoc, List.singleton_append]
      congr 1
      · push_cast
        ring
      · congr 1
        ring
    · rw [if_neg h]
      simp [h]

/-- What a queue holds is within its limits, and it counts its bytes right. -/
structure WithinLimits (limits : QueueLimits) (q : BoundedQueue π) : Prop where
  items : q.size ≤ limits.maxItems
  bytes : totalBytes q.items ≤ limits.maxBytes
  counted : q.byteLength = totalBytes q.items

variable {limits : QueueLimits} {q : BoundedQueue π} {q' : BoundedQueue π}
  {request : EnqueueRequest π}

/-- A queue with the same items and the same count. -/
theorem WithinLimits.congr (h : WithinLimits limits q)
    (hitems : q'.items = q.items) (hbytes : q'.bytes = q.bytes) : WithinLimits limits q' := by
  refine ⟨?_, hitems ▸ h.bytes, ?_⟩
  · rw [size, hitems]
    exact h.items
  · rw [byteLength, hbytes, hitems]
    exact h.counted

theorem WithinLimits.expire (h : WithinLimits limits q) (now : ℤ) :
    WithinLimits limits (q.expire limits now) := by
  have hsplit := List.takeWhile_append_dropWhile
    (p := fun item : QueueItem π => decide (tooOld limits now item)) (l := q.items)
  have htotal : totalBytes (q.items.takeWhile fun item => tooOld limits now item) +
      totalBytes (q.items.dropWhile fun item => tooOld limits now item) = totalBytes q.items := by
    rw [← totalBytes_append, hsplit]
  have hlength := (List.dropWhile_sublist
    (fun item : QueueItem π => decide (tooOld limits now item)) (l := q.items)).length_le
  have hcounted := h.counted
  rw [BoundedQueue.expire, expireFrom_eq]
  refine ⟨hlength.trans h.items, ?_, ?_⟩
  · have hbytes := h.bytes
    show totalBytes (List.dropWhile _ _) ≤ _
    omega
  · show q.bytes - _ = ((totalBytes (List.dropWhile _ q.items) : ℕ) : ℤ)
    rw [byteLength] at hcounted
    omega

theorem WithinLimits.admitItem (h : WithinLimits limits q)
    (hroom : hasRoomFor limits q request.byteLength) (call : ℕ) (instant : ℤ) :
    WithinLimits limits (q.admitItem call request instant) := by
  obtain ⟨hitems, hbytes⟩ := hroom
  have hcounted := h.counted
  rw [byteLength] at hcounted
  have htotal : totalBytes (q.admitItem call request instant).items =
      totalBytes q.items + request.byteLength := by
    simp [BoundedQueue.admitItem, itemFor]
  refine ⟨?_, ?_, ?_⟩
  · rw [size, BoundedQueue.admitItem, List.length_append, List.length_singleton]
    exact hitems
  · rw [htotal]
    omega
  · rw [htotal, byteLength]
    show q.bytes + _ = _
    rw [hcounted]
    push_cast
    rfl

theorem releaseOneWaiter_items (q : BoundedQueue π) :
    q.releaseOneWaiter.items = q.items ∧ q.releaseOneWaiter.bytes = q.bytes := by
  rw [releaseOneWaiter]
  split <;> exact ⟨rfl, rfl⟩

theorem foldl_release_items (calls : List ℕ) (q : BoundedQueue π) :
    (calls.foldl release q).items = q.items ∧ (calls.foldl release q).bytes = q.bytes := by
  induction calls generalizing q with
  | nil => exact ⟨rfl, rfl⟩
  | cons call calls ih => exact ih (q.release call)

/-! ## Replacements -/

/-- The bytes of a list without one of its items. -/
theorem totalBytes_eraseIdx {items : List (QueueItem π)} {i : ℕ} {item : QueueItem π}
    (h : items[i]? = some item) :
    totalBytes (items.eraseIdx i) + item.byteLength = totalBytes items := by
  induction items generalizing i with
  | nil => cases h
  | cons _ items ih =>
    rcases i with _ | i
    · cases h
      rw [List.eraseIdx_cons_zero, totalBytes_cons, add_comm]
    · rw [List.eraseIdx_cons_succ, totalBytes_cons, totalBytes_cons, ← ih h, add_assoc]

/-- No replacement is larger than what it replaces and the room that is left. -/
def Fits (limits : QueueLimits) (q : BoundedQueue π) : QueueEvent π → Prop
  | .enqueue request _ now =>
    let q := q.expire limits now
    limits.overflow = .coalesce → ¬ hasRoomFor limits q request.byteLength →
      ∀ index ∈ q.coalescingIndex request, ∀ replaced ∈ q.items[index]?,
        q.bytes - replaced.byteLength + request.byteLength ≤ limits.maxBytes
  | _ => True

instance (limits : QueueLimits) (q : BoundedQueue π) : DecidablePred (Fits limits q)
  | .enqueue _ _ _ => inferInstanceAs (Decidable (_ → _ → ∀ index ∈ _, ∀ replaced ∈ _, _))
  | .resume _ _ => .isTrue trivial
  | .cancelled _ => .isTrue trivial
  | .spilled _ _ => .isTrue trivial
  | .abort _ => .isTrue trivial
  | .dequeue _ => .isTrue trivial
  | .peek _ => .isTrue trivial
  | .drain => .isTrue trivial

theorem fits_of_room {signal : Option Bool} {now : ℤ}
    (hroom : hasRoomFor limits (q.expire limits now) request.byteLength) :
    Fits limits q (.enqueue request signal now) := fun _ hnot => absurd hroom hnot

/-- A replacement keeps the queue within its limits exactly if it fits. -/
theorem WithinLimits.coalesce_iff (h : WithinLimits limits q) {index : ℕ} {replaced : QueueItem π}
    (hreplaced : q.items[index]? = some replaced) (call : ℕ) (request : EnqueueRequest π)
    (now : ℤ) :
    WithinLimits limits (q.coalesce index replaced call request now) ↔
      q.bytes - replaced.byteLength + request.byteLength ≤ limits.maxBytes := by
  have hcounted := h.counted
  rw [byteLength] at hcounted
  have herase := totalBytes_eraseIdx hreplaced
  have hindex : index < q.items.length := (List.getElem?_eq_some_iff.1 hreplaced).1
  have htotal : totalBytes (q.coalesce index replaced call request now).items =
      totalBytes (q.items.eraseIdx index) + request.byteLength := by
    simp [coalesce, settle, record, BoundedQueue.admitItem, itemFor]
  have hbytes : (q.coalesce index replaced call request now).bytes =
      q.bytes - replaced.byteLength + request.byteLength := rfl
  have hsize : (q.coalesce index replaced call request now).size = q.size := by
    show (q.items.eraseIdx index ++ [_]).length = q.items.length
    rw [List.length_append, List.length_singleton, List.length_eraseIdx_of_lt hindex]
    omega
  constructor
  · rintro ⟨-, hle, -⟩
    rw [htotal] at hle
    omega
  · intro hle
    refine ⟨hsize ▸ h.items, ?_, ?_⟩
    · rw [htotal]
      omega
    · rw [byteLength, hbytes, htotal]
      push_cast
      omega

theorem expire_called (limits : QueueLimits) (q : BoundedQueue π) (request : EnqueueRequest π) (now : ℤ) :
    ((q.called request).expire limits now).items = (q.expire limits now).items ∧
      ((q.called request).expire limits now).bytes = (q.expire limits now).bytes := by
  rw [BoundedQueue.expire, BoundedQueue.expire, expireFrom_eq, expireFrom_eq]
  exact ⟨rfl, rfl⟩

/-- **An enqueue keeps the queue within its limits exactly if it makes no replacement that does not
fit.** -/
theorem withinLimits_enqueue (spill : Bool) (h : WithinLimits limits q) (request : EnqueueRequest π)
    (signal : Option Bool) (now : ℤ) :
    WithinLimits limits (q.enqueue limits spill request signal now) ↔
      Fits limits q (.enqueue request signal now) := by
  obtain ⟨hitems, hbytes⟩ := expire_called limits q request now
  have h₁ := (h.expire now).congr hitems hbytes
  have hroom_iff : hasRoomFor limits ((q.called request).expire limits now) request.byteLength ↔
      hasRoomFor limits (q.expire limits now) request.byteLength := by
    rw [hasRoomFor, hasRoomFor, hitems, hbytes]
  have hindex : ((q.called request).expire limits now).coalescingIndex request =
      (q.expire limits now).coalescingIndex request := by
    rw [coalescingIndex, coalescingIndex, hitems]
  rw [enqueue]
  dsimp only
  by_cases hroom : hasRoomFor limits ((q.called request).expire limits now) request.byteLength
  · rw [if_pos hroom]
    exact iff_of_true ((h₁.admitItem hroom q.nextCall now).congr rfl rfl)
      (fits_of_room (hroom_iff.1 hroom))
  · rw [if_neg hroom]
    have hother : limits.overflow ≠ .coalesce → Fits limits q (.enqueue request signal now) :=
      fun hne heq => absurd heq hne
    rcases hover : limits.overflow with _ | _ | _ | _
    · exact iff_of_true (h₁.congr rfl rfl) (hother (by rw [hover]; decide))
    · refine iff_of_true ?_ (hother (by rw [hover]; decide))
      dsimp only
      split <;> exact h₁.congr rfl rfl
    · refine iff_of_true ?_ (hother (by rw [hover]; decide))
      dsimp only
      split <;> exact h₁.congr rfl rfl
    · dsimp only
      rw [hindex, hitems]
      rcases hi : (q.expire limits now).coalescingIndex request with _ | index
      · refine iff_of_true (h₁.congr rfl rfl) fun _ _ index hmem => ?_
        rw [hi] at hmem
        cases hmem
      · dsimp only
        rcases hr : (q.expire limits now).items[index]? with _ | replaced
        · refine iff_of_true (h₁.congr rfl rfl) fun _ _ index' hmem replaced hmem' => ?_
          rw [hi] at hmem
          cases hmem
          rw [hr] at hmem'
          cases hmem'
        · dsimp only
          rw [h₁.coalesce_iff (hitems ▸ hr), hbytes]
          constructor
          · intro hle _ _ index' hmem replaced' hmem'
            rw [hi] at hmem
            cases hmem
            rw [hr] at hmem'
            cases hmem'
            exact hle
          · intro hfits
            exact hfits hover (fun hroom' => hroom (hroom_iff.2 hroom')) index hi replaced hr

/-! ## Runs -/

theorem withinLimits_dequeue (h : WithinLimits limits q) (now : ℤ) :
    WithinLimits limits (q.dequeue limits now).2 := by
  have hexpired := h.expire now
  rw [dequeue]
  rcases hitems : (q.expire limits now).items with _ | ⟨item, rest⟩
  · exact hexpired
  · obtain ⟨hi, hb⟩ := releaseOneWaiter_items
      { q.expire limits now with
        items := rest
        bytes := (q.expire limits now).bytes - item.byteLength
        log := (q.expire limits now).log ++ [.dequeued item now] }
    refine WithinLimits.congr ?_ hi hb
    obtain ⟨hsize, hbytes, hcounted⟩ := hexpired
    rw [size, hitems, List.length_cons] at hsize
    rw [hitems, totalBytes_cons] at hbytes hcounted
    refine ⟨(Nat.le_succ _).trans hsize, (Nat.le_add_left _ _).trans hbytes, ?_⟩
    rw [byteLength] at hcounted ⊢
    show (q.expire limits now).bytes - _ = ((totalBytes rest : ℕ) : ℤ)
    rw [hcounted]
    push_cast
    ring

theorem withinLimits_resume (h : WithinLimits limits q) (call : ℕ) (request : EnqueueRequest π)
    (now : ℤ) : WithinLimits limits (q.resume limits call request now) := by
  have hproceeded : WithinLimits limits (q.proceed call) := h.congr rfl rfl
  have hexpired := hproceeded.expire now
  rw [resume]
  dsimp only
  split
  next hroom => exact (hexpired.admitItem hroom call now).congr rfl rfl
  · exact hexpired.congr rfl rfl

/-- What a step found when it was taken, and what it left. -/
inductive Stepped (limits : QueueLimits) (spill : Bool) (q : BoundedQueue π) :
    QueueEvent π → BoundedQueue π → Prop where
  | enqueue (request : EnqueueRequest π) (signal : Option Bool) (now : ℤ) :
      Stepped limits spill q (.enqueue request signal now) (q.enqueue limits spill request signal now)
  | resume {call other : ℕ} {request : EnqueueRequest π} (now : ℤ)
      (hs : q.suspended? call = some ⟨other, request, .released⟩) :
      Stepped limits spill q (.resume call now) (q.resume limits call request now)
  | cancelled {call : ℕ} {s : Suspended π} (hs : q.suspended? call = some s) :
      Stepped limits spill q (.cancelled call) ((q.proceed call).settle call .cancelled)
  | spilled {call : ℕ} {s : Suspended π} (artifact : ArtifactHandle) (hs : q.suspended? call = some s) :
      Stepped limits spill q (.spilled call artifact) (q.spilled call artifact)
  | abort (call : ℕ) : Stepped limits spill q (.abort call) (q.abort call)
  | dequeue (now : ℤ) : Stepped limits spill q (.dequeue now) (q.dequeue limits now).2
  | peek (now : ℤ) : Stepped limits spill q (.peek now) (q.peek limits now).2
  | drain : Stepped limits spill q .drain q.drain

theorem step_ok {spill : Bool} {event : QueueEvent π} (hstep : q.step limits spill event = some q') :
    Stepped limits spill q event q' := by
  cases event with
  | enqueue | dequeue | peek | drain =>
    cases hstep
    constructor
  | _ =>
    rw [step] at hstep
    split at hstep <;> cases hstep
    constructor <;> assumption

/-- **A step keeps the queue within its limits exactly if it makes no replacement that does not
fit.** -/
theorem withinLimits_step {spill : Bool} {event : QueueEvent π}
    (h : WithinLimits limits q) (hstep : q.step limits spill event = some q') :
    WithinLimits limits q' ↔ Fits limits q event := by
  cases step_ok hstep
  case enqueue request signal now => exact withinLimits_enqueue spill h request signal now
  all_goals refine iff_of_true ?_ trivial
  case resume now hs => exact withinLimits_resume h _ _ now
  case cancelled | spilled | abort => exact h.congr rfl rfl
  case dequeue now => exact withinLimits_dequeue h now
  case peek now =>
    rw [peek]
    split
    · exact h.expire now
    · exact (h.expire now).congr rfl rfl
  case drain =>
    obtain ⟨hi, hb⟩ := foldl_release_items q.waiters { q with waiters := [] }
    exact h.congr hi hb

theorem withinLimits_empty (limits : QueueLimits) :
    WithinLimits limits (empty : BoundedQueue π) :=
  ⟨Nat.zero_le _, Nat.zero_le _, rfl⟩

/-- **When a queue stays within its limits.**  Along every run of a queue, whatever its policy and
however the producers that wait are released, the queue holds no more than its limits allow and counts
its bytes right in every state, exactly if no replacement of the run is larger than what it replaces
and the room that is left. -/
theorem bounded_iff_replacements_fit (limits : QueueLimits) (spill : Bool)
    (events : List (QueueEvent π)) {q : BoundedQueue π}
    (hrun : run (step limits spill) empty events = some q) :
    (∀ k q', run (step limits spill) empty (events.take k) = some q' →
      q'.size ≤ limits.maxItems ∧ totalBytes q'.items ≤ limits.maxBytes ∧
        q'.byteLength = totalBytes q'.items) ↔
      Along (step limits spill) (Fits limits) empty events := by
  rw [← run_take_iff_along (I := WithinLimits limits)
    (fun _ _ _ h hstep => withinLimits_step h hstep) (withinLimits_empty limits) hrun]
  refine forall_congr' fun k => forall_congr' fun q' => imp_congr_right fun _ => ?_
  exact ⟨fun ⟨hi, hb, hc⟩ => ⟨hi, hb, hc⟩, fun ⟨hi, hb, hc⟩ => ⟨hi, hb, hc⟩⟩

/-- A queue of ten bytes that coalesces. -/
def tenBytes : QueueLimits := ⟨5, 10, 1000, .coalesce⟩

/-- A display-only delta. -/
def delta (id : String) (byteLength : ℕ) : QueueEvent Unit :=
  .enqueue ⟨id, byteLength, true, some "text", ()⟩ none 0

theorem bounded_iff_replacements_fit_two_deltas :
    ∃ q, run (step tenBytes false) empty [delta "a" 6, delta "b" 5] = some q ∧
      ∀ k q', run (step tenBytes false) empty ([delta "a" 6, delta "b" 5].take k) = some q' →
        q'.size ≤ tenBytes.maxItems ∧ totalBytes q'.items ≤ tenBytes.maxBytes ∧
          q'.byteLength = totalBytes q'.items :=
  ⟨_, rfl, (bounded_iff_replacements_fit tenBytes false _ rfl).2 (by decide)⟩

/-- A delta of twenty bytes replaces one of five, in a queue of ten. -/
theorem replacement_exceeds_the_limit :
    ¬ ∀ (limits : QueueLimits) (spill : Bool) (events : List (QueueEvent Unit))
      (q : BoundedQueue Unit), run (step limits spill) empty events = some q →
        q.size ≤ limits.maxItems ∧ totalBytes q.items ≤ limits.maxBytes ∧
          q.byteLength = totalBytes q.items := by
  intro h
  have hbytes := (h tenBytes false [delta "a" 5, delta "b" 20] _ rfl).2.1
  exact absurd hbytes (by decide)

end Falryn.Orchestration.BoundedQueue
