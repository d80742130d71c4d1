import Falryn.Orchestration.ResourceAccounting

/-!
# Runs of the ledger

Every sequence of calls runs to its end, with the books in order at every point of it.
-/

namespace Falryn.Orchestration.ResourceLedger

variable {l : ResourceLedger} {lenient : Prop}

/-- Whether a call is a settlement by which some usage leaves the safe integers. -/
def CallOverflows (l : ResourceLedger) : Call → Prop
  | .settle id actual terminated => l.Overflows id actual terminated
  | _ => False

section
variable (maxRecords : ℕ) (precedes : CapacityScope → CapacityScope → Bool) {k : CapacityScope}
  {id : String} {identity : ReservationIdentity} {debits : List ResourceDebit}

/-- A reservation leaves the books in order, however it is decided. -/
theorem Accounted.reserve (h : Accounted lenient l) (id : String) (identity : ReservationIdentity)
    (debits : List ResourceDebit) :
    Accounted lenient (l.reserve maxRecords precedes id identity debits).1 := by
  rcases reserve_cases maxRecords precedes l id identity debits with
    ⟨buckets, hnarrowed, hout, -⟩ | ⟨buckets, hnarrowed, hamounts, hid, htake, hout⟩
  · rw [hout]
    exact h.narrowed hnarrowed
  · rw [hout]
    exact (h.narrowed hnarrowed).admitted
      { fingerprint := fingerprint precedes identity debits
        identity
        debits
        receipt := l.receipt id .admitted none
        settled := false
        charges := chargesOf (l.grouped debits) } identity.parentScope hamounts hid rfl rfl htake

/-- A settlement finds every bucket it needs and leaves the books in order. -/
theorem Accounted.settle (h : Accounted lenient l) (id : String)
    (actual : Option (List ResourceDebit)) (terminated : Bool)
    (hsafe : lenient ∨ ¬ l.Overflows id actual terminated) :
    ∃ l' answer, l.settle id actual terminated = some (l', answer) ∧ Accounted lenient l' ∧
      (answer = none → l' = l) := by
  rcases settle_cases l id actual terminated fun record hrecord _ _ hcharged =>
      h.bucket_of_charged hrecord hcharged with
    ⟨answer, hout⟩ | ⟨record, buckets, receipt, hrecord, hopen, haccepted, hbuckets, hout⟩
  · exact ⟨l, answer, hout, h, fun _ => rfl⟩
  · exact ⟨_, some receipt, hout, h.settled hrecord hopen haccepted hbuckets hsafe,
      nofun⟩

/-- Every call returns and leaves the books in order. -/
theorem Accounted.perform (h : Accounted lenient l) (call : Call)
    (hsafe : lenient ∨ ¬ l.CallOverflows call) :
    ∃ l', l.perform maxRecords precedes call = some l' ∧ Accounted lenient l' := by
  rcases call with ⟨id, identity, debits⟩ | ⟨id, actual, terminated⟩ | ⟨left, right⟩ |
    ⟨scope, limit, parentScope⟩ | parentScope
  · exact ⟨_, rfl, h.reserve maxRecords precedes id identity debits⟩
  · obtain ⟨l', answer, hout, hkept, -⟩ := h.settle id actual terminated hsafe
    exact ⟨l', by simp [ResourceLedger.perform, hout], hkept⟩
  · refine ⟨_, rfl, ?_⟩
    rcases joinAliases_cases maxRecords l left right with hout | ⟨hne, hkind, hused, hout⟩
    · rw [hout]
      exact h
    · rw [hout]
      exact h.joined hne hkind hused
  · refine ⟨_, rfl, ?_⟩
    rcases narrow_cases l scope limit parentScope with hout | ⟨hlimit, parentScopes, hout⟩
    · rw [hout]
      exact h
    · rw [hout]
      exact h.rewritten hlimit
  · exact ⟨_, rfl, h.closeTask parentScope⟩

/-- Every sequence of calls runs to its end with the books in order. -/
theorem run_accounted (calls : List Call) :
    ∀ {l : ResourceLedger}, Accounted True l →
      ∃ l', StateMachine.run (perform maxRecords precedes) l calls = some l' ∧ Accounted True l' := by
  induction calls with
  | nil => exact fun {l} h => ⟨l, rfl, h⟩
  | cons call calls ih =>
    intro l h
    obtain ⟨l₁, hstep, h₁⟩ := h.perform maxRecords precedes call (.inl trivial)
    obtain ⟨l', hrun, h'⟩ := ih h₁
    exact ⟨l', StateMachine.run_cons.2 ⟨l₁, hstep, hrun⟩, h'⟩

/-- Without an overflow the books are in order to the letter. -/
theorem run_accounted_strictly {calls : List Call}
    (hrun : StateMachine.run (perform maxRecords precedes) initial calls = some l)
    (hsafe : StateMachine.Along (perform maxRecords precedes) (fun l call => ¬ l.CallOverflows call)
      initial calls) : Accounted False l := by
  refine StateMachine.run_along_preserves (fun l call _ hkept hno hstep => ?_)
    accounted_initial hsafe hrun
  obtain ⟨l'', hstep', hkept'⟩ := hkept.perform maxRecords precedes call (.inr hno)
  rw [hstep] at hstep'
  cases hstep'
  exact hkept'

/-! ## What the books say -/

/-- Occupancy is what the records not yet settled are charged. -/
theorem Accounted.occupancy (h : Accounted lenient l) {bucket : Bucket}
    (hbucket : l.buckets.get k = some bucket) (hkind : bucket.scope.bucketKind = .occupancy)
    (hpoisoned : bucket.poisoned = false) : bucket.used = l.unsettledTotal k := by
  have hkept := h.bucket hbucket
  have hoccupancy : k.bucketKind = .occupancy := by rw [← hkept.kind, hkind]
  have hused := (hkept.occupied hoccupancy).resolve_left (by simp [hpoisoned])
  rw [hused]
  refine OrderedMap.sum_congr fun _ record hrecord => ?_
  split_ifs with hsettled
  · refine chargedTo_eq_zero fun scope amount hcharge hroot => ?_
    refine (h.record hrecord).released hsettled scope amount hcharge ?_
    rw [← h.root_kind, hroot, hoccupancy]
  · rfl

/-- Once all that occupied a bucket is settled nothing is charged there. -/
theorem unsettledTotal_eq_zero (h : ∀ id record, l.records.get id = some record →
      (∃ scope amount, record.charges.get scope = some amount ∧ l.root scope = k) →
      record.settled = true) : l.unsettledTotal k = 0 := by
  refine OrderedMap.sum_eq_zero fun id record hrecord => ?_
  by_cases hsettled : record.settled = true
  · exact if_pos hsettled
  · rw [if_neg hsettled]
    refine chargedTo_eq_zero fun scope amount hcharge hroot => ?_
    exact absurd (h id record hrecord ⟨scope, amount, hcharge, hroot⟩) hsettled

/-- An admitted request finds no poisoned bucket and leaves every bucket it charges within its
limit. -/
theorem admitted_within_limits
    (h : (l.reserve maxRecords precedes id identity debits).2.kind = .admitted) :
    ∀ debit ∈ debits,
      (∀ old, l.buckets.get (l.root debit.scope) = some old → old.poisoned = false) ∧
      ∃ bucket, (l.reserve maxRecords precedes id identity debits).1.buckets.get
        (l.root debit.scope) = some bucket ∧ bucket.used ≤ bucket.limit := by
  intro debit hdebit
  rcases reserve_cases maxRecords precedes l id identity debits with
    ⟨buckets, -, -, hkind⟩ | ⟨buckets, hnarrowed, -, -, htake, hout⟩
  · exact absurd h hkind
  obtain ⟨group, hgroup⟩ := exists_group (l := l) hdebit
  obtain ⟨hpoisoned, hroom⟩ := of_not_cannotTake (htake _ group hgroup)
  constructor
  · intro old hold
    obtain ⟨f, -, -, hget⟩ := hnarrowed (l.root debit.scope)
    rw [hget, hold] at hpoisoned
    exact hpoisoned
  · rw [hout]
    refine ⟨chargedBucket identity.parentScope group (buckets.get (l.root debit.scope)), ?_, hroom⟩
    show (chargeGroups _ _ _).get _ = _
    rw [get_chargeGroups, hgroup]

/-- What is not admitted changes no usage and no record. -/
theorem not_admitted_unchanged
    (h : (l.reserve maxRecords precedes id identity debits).2.kind ≠ .admitted) :
    (l.reserve maxRecords precedes id identity debits).1.records = l.records ∧
      ∀ k, ((l.reserve maxRecords precedes id identity debits).1.buckets.get k).map Bucket.used =
        (l.buckets.get k).map Bucket.used := by
  rcases reserve_cases maxRecords precedes l id identity debits with
    ⟨buckets, hnarrowed, hout, -⟩ | ⟨buckets, -, -, -, -, hout⟩
  · rw [hout]
    refine ⟨rfl, fun k => ?_⟩
    obtain ⟨f, -, -, hget⟩ := hnarrowed k
    show (buckets.get k).map Bucket.used = _
    rw [hget]
    rcases l.buckets.get k with _ | bucket <;> rfl
  · rw [hout] at h
    exact absurd rfl h

/-- **The books of every run.**  Whatever is called, in whatever order: no settlement misses a bucket;
an occupancy that is not poisoned is what the records not yet settled are charged, hence nothing once
all of them are settled; a usage that is not poisoned covers the charges of all records held, and a
poisoned one does too as long as no settlement left the safe integers; a request is admitted only
within the limits and by no poisoned bucket, and otherwise changes neither usage nor records; a
rejected settlement changes nothing. -/
theorem ledger_books (calls : List Call) :
    ∃ l, StateMachine.run (perform maxRecords precedes) initial calls = some l ∧
      (∀ k bucket, l.buckets.get k = some bucket → bucket.scope.bucketKind = .occupancy →
        bucket.poisoned = false → bucket.used = l.unsettledTotal k ∧
          ((∀ id record, l.records.get id = some record →
            (∃ scope amount, record.charges.get scope = some amount ∧ l.root scope = k) →
            record.settled = true) → bucket.used = 0)) ∧
      (∀ k bucket, l.buckets.get k = some bucket → bucket.poisoned = false →
        l.total k ≤ bucket.used) ∧
      (StateMachine.Along (perform maxRecords precedes) (fun l call => ¬ l.CallOverflows call)
          initial calls →
        ∀ k bucket, l.buckets.get k = some bucket → l.total k ≤ bucket.used) ∧
      (∀ id identity debits,
        (l.reserve maxRecords precedes id identity debits).2.kind = .admitted →
        ∀ debit ∈ debits,
          (∀ old, l.buckets.get (l.root debit.scope) = some old → old.poisoned = false) ∧
          ∃ bucket, (l.reserve maxRecords precedes id identity debits).1.buckets.get
            (l.root debit.scope) = some bucket ∧ bucket.used ≤ bucket.limit) ∧
      (∀ id identity debits,
        (l.reserve maxRecords precedes id identity debits).2.kind ≠ .admitted →
        (l.reserve maxRecords precedes id identity debits).1.records = l.records ∧
          ∀ k, ((l.reserve maxRecords precedes id identity debits).1.buckets.get k).map Bucket.used =
            (l.buckets.get k).map Bucket.used) ∧
      ∀ id actual terminated, ∃ l' answer, l.settle id actual terminated = some (l', answer) ∧
        (answer = none → l' = l) := by
  obtain ⟨l, hrun, h⟩ := run_accounted maxRecords precedes calls accounted_initial
  refine ⟨l, hrun, fun k bucket hbucket hkind hpoisoned => ?_, fun k bucket hbucket hpoisoned => ?_,
    fun hsafe k bucket hbucket => ?_,
    fun id identity debits => admitted_within_limits maxRecords precedes,
    fun id identity debits => not_admitted_unchanged maxRecords precedes,
    fun id actual terminated => ?_⟩
  · have hused := h.occupancy hbucket hkind hpoisoned
    exact ⟨hused, fun hsettled => hused.trans (unsettledTotal_eq_zero hsettled)⟩
  · have hcovers := h.covers_getD k
    rw [hbucket] at hcovers
    exact hcovers.resolve_left fun htrue => by
      rw [show bucket.poisoned = true from htrue.2] at hpoisoned
      cases hpoisoned
  · have hstrict := run_accounted_strictly maxRecords precedes hrun hsafe
    exact (hstrict.bucket hbucket).covers.resolve_left fun hfalse => hfalse.1
  · obtain ⟨l', answer, hout, -, hnone⟩ := h.settle id actual terminated (.inl trivial)
    exact ⟨l', answer, hout, hnone⟩

end

/-! ## A usage that overflowed -/

/-- A scope of cumulative usage owned by a provider. -/
def providerTokens : CapacityScope :=
  { ownerKind := .provider
    destination := "api"
    family := "chat"
    dimension := .outputTokens
    bucketKind := .cumulative }

/-- A request for one scope. -/
def requestFor (parentScope : String) (scope : CapacityScope) : ReservationIdentity :=
  { parentScope
    owner := "o"
    operation := "op"
    workspaceGeneration := "1"
    configurationGeneration := "1"
    attempt := "1"
    fence := "1"
    scopes := [scope] }

/-- Two requests of four tokens each, one of which turns out to have used all a number can hold: its
bucket is poisoned and says eight, and the two records are charged more than that. -/
theorem overflowed_usage_covers_nothing :
    ∃ l bucket, StateMachine.run (perform 8192 fun _ _ => true) initial
        [.reserve "a" (requestFor "task" providerTokens) [⟨providerTokens, 4, 100⟩],
          .reserve "b" (requestFor "task" providerTokens) [⟨providerTokens, 4, 100⟩],
          .settle "a" (some [⟨providerTokens, 9007199254740991, 100⟩]) true] = some l ∧
      l.buckets.get providerTokens = some bucket ∧ bucket.used < l.total providerTokens := by
  have hrun : ((StateMachine.run (perform 8192 fun _ _ => true) initial
      [.reserve "a" (requestFor "task" providerTokens) [⟨providerTokens, 4, 100⟩],
        .reserve "b" (requestFor "task" providerTokens) [⟨providerTokens, 4, 100⟩],
        .settle "a" (some [⟨providerTokens, 9007199254740991, 100⟩]) true]).bind fun l =>
      (l.buckets.get providerTokens).map fun bucket =>
        decide (bucket.used < l.total providerTokens)) = some true := by
    decide +kernel
  obtain ⟨l, hrun, hbucket⟩ := Option.bind_eq_some_iff.1 hrun
  obtain ⟨bucket, hbucket, hless⟩ := Option.map_eq_some_iff.1 hbucket
  exact ⟨l, bucket, hrun, hbucket, of_decide_eq_true hless⟩

end Falryn.Orchestration.ResourceLedger
