import Falryn.Orchestration.QueueCapacity

/-!
# What becomes of the calls of a bounded queue

Every call of `enqueue` either stands somewhere or has returned once, and it has put its item in the
queue exactly if what it returned says so.  All this is read off the log, call by call; a step is
about one call, or moves calls from one place to another.
-/

namespace Falryn.Orchestration

/-- Whether an outcome says that the request's item is in the queue. -/
def EnqueueOutcome.puts {π : Type} : EnqueueOutcome π → Bool
  | .accepted => true
  | .coalesced _ => true
  | .waited => true
  | _ => false

namespace BoundedQueue

open StateMachine

variable {π : Type}

/-! ## Reading the log -/

/-- What was put in the queue, in order. -/
def admittedIn (log : List (QueueHappening π)) : List (QueueItem π) :=
  log.filterMap fun
    | .admitted item => some item
    | _ => none

/-- What was replaced. -/
def replacedIn (log : List (QueueHappening π)) : List (QueueItem π) :=
  log.filterMap fun
    | .replaced item => some item
    | _ => none

/-- What left by `dequeue`, in order. -/
def dequeuedIn (log : List (QueueHappening π)) : List (QueueItem π) :=
  log.filterMap fun
    | .dequeued item _ => some item
    | _ => none

/-- What left by `dequeue` or because of its age, in order. -/
def leftIn (log : List (QueueHappening π)) : List (QueueItem π) :=
  log.filterMap fun
    | .dequeued item _ => some item
    | .expired item _ => some item
    | _ => none

/-- The requests of a call: there is one once it was made. -/
def requestsOf (log : List (QueueHappening π)) (call : ℕ) : List (EnqueueRequest π) :=
  log.filterMap fun
    | .called c request => if c = call then some request else none
    | _ => none

/-- What a call has returned. -/
def outcomesOf (log : List (QueueHappening π)) (call : ℕ) : List (EnqueueOutcome π) :=
  log.filterMap fun
    | .settled c outcome => if c = call then some outcome else none
    | _ => none

/-- The items that a call has put in the queue. -/
def admittedBy (log : List (QueueHappening π)) (call : ℕ) : List (QueueItem π) :=
  (admittedIn log).filter fun item => item.call = call

section
variable (log log' : List (QueueHappening π)) (call : ℕ)

theorem admittedIn_append : admittedIn (log ++ log') = admittedIn log ++ admittedIn log' :=
  List.filterMap_append ..

theorem replacedIn_append : replacedIn (log ++ log') = replacedIn log ++ replacedIn log' :=
  List.filterMap_append ..

theorem dequeuedIn_append : dequeuedIn (log ++ log') = dequeuedIn log ++ dequeuedIn log' :=
  List.filterMap_append ..

theorem leftIn_append : leftIn (log ++ log') = leftIn log ++ leftIn log' :=
  List.filterMap_append ..

theorem requestsOf_append :
    requestsOf (log ++ log') call = requestsOf log call ++ requestsOf log' call :=
  List.filterMap_append ..

theorem outcomesOf_append :
    outcomesOf (log ++ log') call = outcomesOf log call ++ outcomesOf log' call :=
  List.filterMap_append ..

theorem admittedBy_append :
    admittedBy (log ++ log') call = admittedBy log call ++ admittedBy log' call := by
  rw [admittedBy, admittedIn_append, List.filter_append, admittedBy, admittedBy]

end

/-- The log of what expired is read by nobody but those who ask what left. -/
theorem expired_quiet (items : List (QueueItem π)) (now : ℤ) :
    let log := items.map (QueueHappening.expired · now)
    admittedIn log = [] ∧ replacedIn log = [] ∧ dequeuedIn log = [] ∧ leftIn log = items ∧
      ∀ call, requestsOf log call = [] ∧ outcomesOf log call = [] := by
  induction items with
  | nil => exact ⟨rfl, rfl, rfl, rfl, fun _ => ⟨rfl, rfl⟩⟩
  | cons item items ih =>
    obtain ⟨ha, hr, hd, hl, hc⟩ := ih
    refine ⟨ha, hr, hd, ?_, hc⟩
    show item :: leftIn _ = _
    rw [hl]

/-! ## The calls -/

/-- What there is about a call: its request, where it stands, what it returned and what it put in. -/
structure CallFacts (π : Type) where
  requests : List (EnqueueRequest π)
  standing : List (Suspended π)
  outcomes : List (EnqueueOutcome π)
  items : List (QueueItem π)

/-- What there is about a call in a queue. -/
def factsOf (q : BoundedQueue π) (call : ℕ) : CallFacts π :=
  ⟨requestsOf q.log call, q.suspended.filter fun s => s.call = call, outcomesOf q.log call,
    admittedBy q.log call⟩

/-- A call that stands somewhere: it has returned nothing and put nothing in. -/
def Stands (call : ℕ) (request : EnqueueRequest π) (facts : CallFacts π) : Prop :=
  ∃ stand, facts = ⟨[request], [⟨call, request, stand⟩], [], []⟩

/-- A call that has returned: once, and its item is in exactly if what it returned says so. -/
def Returned (call : ℕ) (request : EnqueueRequest π) (facts : CallFacts π) : Prop :=
  ∃ outcome items, facts = ⟨[request], [], [outcome], items⟩ ∧
    if outcome.puts then ∃ instant, items = [itemFor call request instant] else items = []

/-- Every call that was made stands somewhere or has returned, and nothing is known of the others. -/
structure CallsAnswered (q : BoundedQueue π) : Prop where
  made : ∀ {call}, call < q.nextCall →
    ∃ request, Stands call request (factsOf q call) ∨ Returned call request (factsOf q call)
  unmade : ∀ {call}, q.nextCall ≤ call → factsOf q call = ⟨[], [], [], []⟩

variable {limits : QueueLimits} {q q' : BoundedQueue π}

/-- What is appended to the log adds to the facts. -/
theorem factsOf_append (q q' : BoundedQueue π) (added : List (QueueHappening π))
    (hlog : q'.log = q.log ++ added) (hsuspended : q'.suspended = q.suspended) (c : ℕ) :
    factsOf q' c =
      { factsOf q c with
        requests := (factsOf q c).requests ++ requestsOf added c
        outcomes := (factsOf q c).outcomes ++ outcomesOf added c
        items := (factsOf q c).items ++ admittedBy added c } := by
  rw [factsOf, hlog, hsuspended, requestsOf_append, outcomesOf_append, admittedBy_append]
  rfl

/-- What is neither a call, a return nor an admission leaves the facts alone. -/
theorem factsOf_quiet (q q' : BoundedQueue π) (added : List (QueueHappening π))
    (hlog : q'.log = q.log ++ added) (hsuspended : q'.suspended = q.suspended) {c : ℕ}
    (hrequests : requestsOf added c = [])
    (houtcomes : outcomesOf added c = []) (hadmitted : admittedIn added = []) :
    factsOf q' c = factsOf q c := by
  rw [factsOf_append q q' added hlog hsuspended, hrequests, houtcomes, admittedBy, hadmitted]
  simp only [List.append_nil, List.filter_nil]

theorem expire_log (limits : QueueLimits) (q : BoundedQueue π) (now : ℤ) :
    (q.expire limits now).log = q.log ++
      (q.items.takeWhile fun item => tooOld limits now item).map (.expired · now) := by
  rw [BoundedQueue.expire, expireFrom_eq]

theorem expire_suspended (limits : QueueLimits) (q : BoundedQueue π) (now : ℤ) :
    (q.expire limits now).suspended = q.suspended ∧ (q.expire limits now).nextCall = q.nextCall ∧
      (q.expire limits now).waiters = q.waiters := by
  rw [BoundedQueue.expire, expireFrom_eq]
  exact ⟨rfl, rfl, rfl⟩

@[simp] theorem factsOf_expire (limits : QueueLimits) (q : BoundedQueue π) (now : ℤ) (c : ℕ) :
    factsOf (q.expire limits now) c = factsOf q c := by
  obtain ⟨ha, -, -, -, hc⟩ :=
    expired_quiet (q.items.takeWhile fun item => tooOld limits now item) now
  exact factsOf_quiet _ _ _ (expire_log limits q now) (expire_suspended limits q now).1 (hc c).1
    (hc c).2 ha

theorem factsOf_called (q : BoundedQueue π) (request : EnqueueRequest π) (c : ℕ) :
    factsOf (q.called request) c =
      { factsOf q c with
        requests := (factsOf q c).requests ++ if q.nextCall = c then [request] else [] } := by
  rw [factsOf_append q (q.called request) [.called q.nextCall request] rfl rfl]
  by_cases h : q.nextCall = c <;> simp [requestsOf, outcomesOf, admittedBy, admittedIn, h]

theorem factsOf_settle (q : BoundedQueue π) (call : ℕ) (outcome : EnqueueOutcome π) (c : ℕ) :
    factsOf (q.settle call outcome) c =
      { factsOf q c with
        outcomes := (factsOf q c).outcomes ++ if call = c then [outcome] else [] } := by
  rw [factsOf_append q (q.settle call outcome) [.settled call outcome] rfl rfl]
  by_cases h : call = c <;> simp [requestsOf, outcomesOf, admittedBy, admittedIn, h]

theorem factsOf_admit (q : BoundedQueue π) (call : ℕ) (request : EnqueueRequest π) (instant : ℤ)
    (c : ℕ) :
    factsOf (q.admitItem call request instant) c =
      { factsOf q c with
        items := (factsOf q c).items ++
          if call = c then [itemFor call request instant] else [] } := by
  rw [factsOf_append q (q.admitItem call request instant)
    [.admitted (itemFor call request instant)] rfl rfl]
  by_cases h : call = c <;>
    simp [requestsOf, outcomesOf, admittedBy, admittedIn, itemFor, h]

theorem factsOf_suspend (q : BoundedQueue π) (waiters : List ℕ) (s : Suspended π) (c : ℕ) :
    factsOf { q with waiters := waiters, suspended := q.suspended ++ [s] } c =
      { factsOf q c with
        standing := (factsOf q c).standing ++ if s.call = c then [s] else [] } := by
  rw [factsOf, List.filter_append]
  by_cases h : s.call = c <;> simp [factsOf, h]

theorem factsOf_proceed (q : BoundedQueue π) (call c : ℕ) :
    factsOf (q.proceed call) c =
      { factsOf q c with standing := if call = c then [] else (factsOf q c).standing } := by
  rw [factsOf, proceed, List.filter_filter]
  by_cases h : call = c
  · subst h
    simp [factsOf]
  · have hfilter : q.suspended.filter (fun s => decide (s.call = c) && decide (s.call ≠ call)) =
        q.suspended.filter fun s => s.call = c := by
      refine List.filter_congr fun s _ => ?_
      by_cases hs : s.call = c
      · simp [hs, Ne.symm h]
      · simp [hs]
    rw [hfilter, if_neg h]
    rfl

variable {f : Suspended π → Suspended π}

/-- A write to where calls stand. -/
theorem factsOf_restand (hsuspended : q'.suspended = q.suspended.map f) (hlog : q'.log = q.log)
    (hf : ∀ s, (f s).call = s.call) (c : ℕ) :
    factsOf q' c = { factsOf q c with standing := (factsOf q c).standing.map f } := by
  rw [factsOf, hsuspended, hlog, List.filter_map]
  have hp : (fun s : Suspended π => decide (s.call = c)) ∘ f = fun s => decide (s.call = c) := by
    funext s
    simp only [Function.comp_apply, hf]
  rw [hp]
  rfl

variable {call : ℕ}

/-- A step that leaves the facts of every other call alone and answers one. -/
theorem CallsAnswered.answer (h : CallsAnswered q) (request : EnqueueRequest π)
    (hnext : q'.nextCall = q.nextCall ∧ call < q.nextCall ∨
      q'.nextCall = q.nextCall + 1 ∧ call = q.nextCall)
    (hother : ∀ c, call ≠ c → factsOf q' c = factsOf q c)
    (hcall : Stands call request (factsOf q' call) ∨ Returned call request (factsOf q' call)) :
    CallsAnswered q' := by
  refine ⟨fun {c} hc => ?_, fun {c} hc => ?_⟩
  · by_cases hcc : call = c
    · subst hcc
      exact ⟨request, hcall⟩
    · rw [hother c hcc]
      exact h.made (by omega)
  · rw [hother c (by omega)]
    exact h.unmade (by omega)

/-- A step that moves calls from one place to another. -/
theorem CallsAnswered.restand (h : CallsAnswered q) (hfacts : ∀ c, factsOf q' c =
      { factsOf q c with standing := (factsOf q c).standing.map f })
    (hnext : q'.nextCall = q.nextCall)
    (hf : ∀ s, (f s).call = s.call ∧ (f s).request = s.request) : CallsAnswered q' := by
  refine ⟨fun {c} hc => ?_, fun {c} hc => ?_⟩
  · rw [hnext] at hc
    obtain ⟨request, ⟨stand, hs⟩ | ⟨outcome, items, hr, hputs⟩⟩ := h.made hc
    · refine ⟨request, .inl ⟨(f ⟨c, request, stand⟩).stand, ?_⟩⟩
      obtain ⟨hcall, hrequest⟩ := hf ⟨c, request, stand⟩
      rw [hfacts, hs]
      rcases hfs : f ⟨c, request, stand⟩ with ⟨c', request', stand'⟩
      rw [hfs] at hcall hrequest
      cases hcall
      cases hrequest
      simp [hfs]
    · refine ⟨request, .inr ⟨outcome, items, ?_, hputs⟩⟩
      rw [hfacts, hr]
      rfl
  · rw [hnext] at hc
    rw [hfacts, h.unmade hc]
    rfl

/-- **A call of `enqueue` stands somewhere or returns.** -/
theorem CallsAnswered.enqueue (h : CallsAnswered q) (limits : QueueLimits) (spill : Bool)
    (request : EnqueueRequest π) (signal : Option Bool) (now : ℤ) :
    CallsAnswered (q.enqueue limits spill request signal now) := by
  obtain ⟨q₁, hq₁⟩ : ∃ q₁, q₁ = (q.called request).expire limits now := ⟨_, rfl⟩
  have hfacts : ∀ c, factsOf q₁ c =
      { factsOf q c with
        requests := (factsOf q c).requests ++ if q.nextCall = c then [request] else [] } := by
    intro c
    rw [hq₁, factsOf_expire, factsOf_called]
  have hnext : q₁.nextCall = q.nextCall + 1 := by
    rw [hq₁, (expire_suspended limits _ now).2.1]
    rfl
  have hself : factsOf q₁ q.nextCall = ⟨[request], [], [], []⟩ := by
    rw [hfacts, h.unmade (le_refl _), if_pos rfl]
    rfl
  have hother : ∀ c, q.nextCall ≠ c → factsOf q₁ c = factsOf q c := by
    intro c hc
    rw [hfacts, if_neg hc, List.append_nil]
  -- a return that puts nothing in the queue
  have hreturn : ∀ (q₂ : BoundedQueue π) (outcome : EnqueueOutcome π), outcome.puts = false →
      (∀ c, factsOf q₂ c = factsOf q₁ c) → q₂.nextCall = q₁.nextCall →
      CallsAnswered (q₂.settle q.nextCall outcome) := by
    intro q₂ outcome hputs hsame hnext₂
    refine h.answer request (.inr ⟨hnext₂.trans hnext, rfl⟩) (fun c hc => ?_)
      (.inr ⟨outcome, [], ?_, ?_⟩)
    · rw [factsOf_settle, hsame, hother c hc, if_neg hc, List.append_nil]
    · rw [factsOf_settle, hsame, hself, if_pos rfl]
      rfl
    · rw [hputs]
      rfl
  -- a return after the item was put in the queue
  have hput : ∀ (q₂ q₃ : BoundedQueue π) (outcome : EnqueueOutcome π), outcome.puts = true →
      (∀ c, factsOf q₂ c = factsOf q₁ c) → q₃.nextCall = q₁.nextCall →
      (∀ c, factsOf q₃ c = factsOf (q₂.admitItem q.nextCall request now) c) →
      CallsAnswered (q₃.settle q.nextCall outcome) := by
    intro q₂ q₃ outcome hputs hsame hnext₃ hsame₃
    refine h.answer request (.inr ⟨hnext₃.trans hnext, rfl⟩) (fun c hc => ?_)
      (.inr ⟨outcome, [itemFor q.nextCall request now], ?_, ?_⟩)
    · rw [factsOf_settle, hsame₃, factsOf_admit, hsame, hother c hc, if_neg hc, if_neg hc,
        List.append_nil, List.append_nil]
    · rw [factsOf_settle, hsame₃, factsOf_admit, hsame, hself, if_pos rfl, if_pos rfl]
      rfl
    · rw [hputs]
      exact ⟨now, rfl⟩
  have hreject : CallsAnswered (q₁.reject limits q.nextCall request) := by
    refine hreturn { q₁ with counters := _ } _ ?_ (fun _ => rfl) rfl
    rw [overflowLimit]
    split <;> rfl
  -- a call that stops
  have hstop : ∀ (waiters : List ℕ) (stand : Stand), CallsAnswered
      { q₁ with waiters := waiters, suspended := q₁.suspended ++ [⟨q.nextCall, request, stand⟩] } := by
    intro waiters stand
    refine h.answer request (.inr ⟨hnext, rfl⟩) (fun c hc => ?_) (.inl ⟨stand, ?_⟩)
    · rw [factsOf_suspend, hother c hc, if_neg hc, List.append_nil]
    · rw [factsOf_suspend, hself, if_pos rfl]
      rfl
  rw [BoundedQueue.enqueue, ← hq₁]
  dsimp only
  split
  · exact hput q₁ _ .accepted rfl (fun _ => rfl) rfl fun _ => rfl
  · split
    · exact hreject
    · split
      · exact hreject
      next index _ =>
        split
        · exact hreject
        next replaced _ =>
          refine hput (record { q₁ with
            items := q₁.items.eraseIdx index, bytes := q₁.bytes - replaced.byteLength }
            (.replaced replaced)) _ (.coalesced replaced) rfl (fun c => ?_) rfl fun _ => rfl
          refine factsOf_quiet q₁ _ [.replaced replaced] ?_ ?_ ?_ ?_ ?_ <;> rfl
    · split
      · exact hstop q₁.waiters .spilling
      · exact hreject
    · split
      · exact hreturn q₁ .cancelled rfl (fun _ => rfl) rfl
      · exact hstop _ _

variable {s : Suspended π}

theorem suspended?_eq_some (h : q.suspended? call = some s) :
    s ∈ (factsOf q call).standing ∧ s.call = call := by
  have hcall : s.call = call := by simpa using List.find?_some h
  refine ⟨List.mem_filter.2 ⟨List.mem_of_find?_eq_some h, ?_⟩, hcall⟩
  simpa using hcall

/-- What is known of a call that stands somewhere. -/
theorem CallsAnswered.of_suspended (h : CallsAnswered q) (hs : q.suspended? call = some s) :
    call < q.nextCall ∧ factsOf q call = ⟨[s.request], [s], [], []⟩ := by
  obtain ⟨hmem, -⟩ := suspended?_eq_some hs
  have hmade : call < q.nextCall := by
    by_contra hnot
    rw [h.unmade (not_lt.1 hnot)] at hmem
    cases hmem
  refine ⟨hmade, ?_⟩
  obtain ⟨request, ⟨stand, hfacts⟩ | ⟨outcome, items, hfacts, -⟩⟩ := h.made hmade
  · rw [hfacts] at hmem ⊢
    cases List.mem_singleton.1 hmem
    rfl
  · rw [hfacts] at hmem
    cases hmem

/-- A call that stood somewhere returns. -/
theorem CallsAnswered.proceed (h : CallsAnswered q)
    (hs : q.suspended? call = some s) (q₂ : BoundedQueue π) (outcome : EnqueueOutcome π)
    (items : List (QueueItem π)) (hnext : q₂.nextCall = q.nextCall)
    (hputs : if outcome.puts then ∃ instant, items = [itemFor call s.request instant]
      else items = [])
    (hfacts : ∀ c, factsOf q₂ c =
      { factsOf (q.proceed call) c with
        items := (factsOf q c).items ++ if call = c then items else [] }) :
    CallsAnswered (q₂.settle call outcome) := by
  obtain ⟨hmade, hself⟩ := h.of_suspended hs
  refine h.answer s.request (.inl ⟨hnext, hmade⟩) (fun c hc => ?_) (.inr ⟨outcome, items, ?_, hputs⟩)
  · rw [factsOf_settle, hfacts, factsOf_proceed, if_neg hc, if_neg hc, if_neg hc, List.append_nil,
      List.append_nil]
  · rw [factsOf_settle, hfacts, factsOf_proceed, hself, if_pos rfl, if_pos rfl, if_pos rfl]
    rfl

theorem CallsAnswered.resume (h : CallsAnswered q)
    (hs : q.suspended? call = some s) (limits : QueueLimits) (now : ℤ) :
    CallsAnswered (q.resume limits call s.request now) := by
  have hnext : ((q.proceed call).expire limits now).nextCall = q.nextCall :=
    (expire_suspended limits _ now).2.1
  rw [BoundedQueue.resume]
  dsimp only
  split
  · refine h.proceed hs _ .waited [itemFor call s.request now] hnext ⟨now, rfl⟩ fun c => ?_
    have hadmit := factsOf_admit ((q.proceed call).expire limits now) call s.request now c
    rw [factsOf_expire] at hadmit
    refine hadmit.trans ?_
    rw [factsOf_proceed]
  · refine h.proceed hs { (q.proceed call).expire limits now with counters := _ } _ [] hnext ?_
      fun c => ?_
    · rw [overflowLimit]
      split <;> rfl
    · refine (factsOf_expire limits (q.proceed call) now c).trans ?_
      rw [factsOf_proceed, ite_self, List.append_nil]

/-- Waking calls moves them from one place to another. -/
theorem foldl_release (calls : List ℕ) (q : BoundedQueue π) :
    ∃ f : Suspended π → Suspended π, (∀ s, (f s).call = s.call ∧ (f s).request = s.request) ∧
      (calls.foldl release q) = { q with suspended := q.suspended.map f } := by
  induction calls generalizing q with
  | nil => exact ⟨id, fun _ => ⟨rfl, rfl⟩, by simp⟩
  | cons call calls ih =>
    obtain ⟨f, hf, heq⟩ := ih (q.release call)
    refine ⟨fun s => f (if s.call = call then { s with stand := .released } else s), fun s => ?_, ?_⟩
    · obtain ⟨hc, hr⟩ := hf (if s.call = call then { s with stand := .released } else s)
      rw [hc, hr]
      split <;> exact ⟨rfl, rfl⟩
    · rw [List.foldl_cons, heq, release, List.map_map]
      rfl

theorem CallsAnswered.restand_of (h : CallsAnswered q)
    (hf : ∀ s, (f s).call = s.call ∧ (f s).request = s.request)
    (hsuspended : q'.suspended = q.suspended.map f) (hlog : q'.log = q.log)
    (hnext : q'.nextCall = q.nextCall) : CallsAnswered q' :=
  h.restand (factsOf_restand hsuspended hlog fun s => (hf s).1) hnext hf

theorem releaseOneWaiter_eq (q : BoundedQueue π) :
    ∃ f : Suspended π → Suspended π, (∀ s, (f s).call = s.call ∧ (f s).request = s.request) ∧
      q.releaseOneWaiter = { q with waiters := q.waiters.tail, suspended := q.suspended.map f } := by
  rw [releaseOneWaiter]
  rcases hw : q.waiters with _ | ⟨next, rest⟩
  · refine ⟨id, fun _ => ⟨rfl, rfl⟩, ?_⟩
    rcases q with ⟨items, waiters, bytes, counters, suspended, nextCall, log⟩
    cases hw
    simp
  · refine ⟨fun s => if s.call = next then { s with stand := .released } else s, fun s => ?_, rfl⟩
    dsimp only
    split <;> exact ⟨rfl, rfl⟩

/-- A queue with the facts of another one. -/
theorem CallsAnswered.congr (h : CallsAnswered q) (hfacts : ∀ c, factsOf q' c = factsOf q c)
    (hnext : q'.nextCall = q.nextCall) : CallsAnswered q' :=
  ⟨fun hc => by rw [hfacts]; exact h.made (hnext ▸ hc),
    fun hc => by rw [hfacts]; exact h.unmade (hnext ▸ hc)⟩

theorem CallsAnswered.expire (h : CallsAnswered q) (limits : QueueLimits) (now : ℤ) :
    CallsAnswered (q.expire limits now) :=
  h.congr (factsOf_expire limits q now) (expire_suspended limits q now).2.1

theorem CallsAnswered.step (h : CallsAnswered q) {spill : Bool} {event : QueueEvent π}
    (hstep : q.step limits spill event = some q') : CallsAnswered q' := by
  cases step_ok hstep with
  | enqueue request signal now => exact h.enqueue limits spill request signal now
  | resume now hs => exact h.resume hs limits now
  | @cancelled call _ hs =>
    refine h.proceed hs (q.proceed call) .cancelled [] rfl rfl fun c => ?_
    rw [factsOf_proceed, ite_self, List.append_nil]
  | @spilled call _ artifact hs =>
    refine h.proceed hs { q.proceed call with counters := _ } (.spilled artifact) [] rfl rfl
      fun c => ?_
    refine (rfl : _ = factsOf (q.proceed call) c).trans ?_
    rw [factsOf_proceed, ite_self, List.append_nil]
  | abort call =>
    refine h.restand_of (fun _ => ?_) (rfl : (q.abort call).suspended = q.suspended.map _) rfl rfl
    split <;> exact ⟨rfl, rfl⟩
  | dequeue now =>
    have hexpired := h.expire limits now
    rw [dequeue]
    split
    · exact hexpired
    next item rest _ =>
      obtain ⟨f, hf, heq⟩ := releaseOneWaiter_eq
        { q.expire limits now with
          items := rest
          bytes := (q.expire limits now).bytes - item.byteLength
          log := (q.expire limits now).log ++ [.dequeued item now] }
      have hpopped : CallsAnswered { q.expire limits now with
          items := rest
          bytes := (q.expire limits now).bytes - item.byteLength
          log := (q.expire limits now).log ++ [.dequeued item now] } :=
        hexpired.congr (fun c => by
          refine factsOf_quiet _ _ [.dequeued item now] ?_ ?_ ?_ ?_ ?_ <;> rfl) rfl
      exact hpopped.restand_of hf (by rw [heq]) (by rw [heq]) (by rw [heq])
  | peek now =>
    have hexpired := h.expire limits now
    rw [peek]
    split
    · exact hexpired
    next item _ _ =>
      refine hexpired.congr (fun c => ?_) rfl
      refine factsOf_quiet _ _ [.peeked item now] ?_ ?_ ?_ ?_ ?_ <;> rfl
  | drain =>
    obtain ⟨f, hf, heq⟩ := foldl_release q.waiters { q with waiters := [] }
    exact h.restand_of hf (by rw [drain, heq]) (by rw [drain, heq]) (by rw [drain, heq])

theorem callsAnswered_empty : CallsAnswered (empty : BoundedQueue π) :=
  ⟨fun hc => absurd hc (Nat.not_lt_zero _), fun _ => rfl⟩

end BoundedQueue
end Falryn.Orchestration
