import Falryn.Orchestration.ResourceSteps

/-!
# The books of the ledger

What the records held are charged under a root, and what the bucket of that root says is used, kept
in step: exactly for occupancy, as a lower bound for cumulative usage.  A settlement that would take
a bucket out of the safe integers poisons it and leaves its usage as it was; from then on the bucket
admits nothing and its usage bounds nothing.  The invariant carries that case as a flag: with it the
invariant holds on every run, without it on the runs without such a settlement.
-/

namespace Falryn.Orchestration.ResourceLedger

variable {l : ResourceLedger} {lenient : Prop}

/-! ## Charges by root -/

/-- What one record is charged under a root. -/
def chargedTo (l : ResourceLedger) (charges : OrderedMap CapacityScope ℤ) (k : CapacityScope) : ℤ :=
  charges.sum fun scope amount => if l.root scope = k then amount else 0

/-- What all records held are charged under a root. -/
def total (l : ResourceLedger) (k : CapacityScope) : ℤ :=
  l.records.sum fun _ record => l.chargedTo record.charges k

/-- What the records that are not settled are charged under a root. -/
def unsettledTotal (l : ResourceLedger) (k : CapacityScope) : ℤ :=
  l.records.sum fun _ record => if record.settled then 0 else l.chargedTo record.charges k

variable {charges : OrderedMap CapacityScope ℤ}

theorem chargedTo_nonneg (k : CapacityScope)
    (h : ∀ scope amount, charges.get scope = some amount → 0 ≤ amount) :
    0 ≤ l.chargedTo charges k := by
  refine OrderedMap.sum_nonneg fun scope amount hget => ?_
  split_ifs
  · exact h scope amount hget
  · exact le_refl 0

variable {k : CapacityScope}

theorem chargedTo_eq_zero
    (h : ∀ scope amount, charges.get scope = some amount → l.root scope = k → amount = 0) :
    l.chargedTo charges k = 0 := by
  refine OrderedMap.sum_eq_zero fun scope amount hget => ?_
  split_ifs with hroot
  · exact h scope amount hget hroot
  · rfl

/-- The charges of a request, read by root. -/
theorem chargedTo_chargesOf (l : ResourceLedger) (debits : List ResourceDebit) (k : CapacityScope) :
    l.chargedTo (chargesOf (l.grouped debits)) k =
      (((l.grouped debits).get k).map Group.amount).getD 0 := by
  rw [← get_chargesOf, ← OrderedMap.sum_single]
  refine OrderedMap.sum_congr fun scope amount hget => ?_
  have hroot : l.root scope = scope := by
    rw [get_chargesOf] at hget
    obtain ⟨group, hgroup, -⟩ := Option.map_eq_some_iff.1 hget
    rw [← (groupOf_of_get hgroup).root]
    exact l.aliases.root_root _
  rw [hroot]

variable {id : String}

theorem total_set_new (buckets : OrderedMap CapacityScope Bucket) (record : RecordEntry)
    (hid : l.records.get id = none) (k : CapacityScope) :
    total { l with buckets, records := l.records.set id record } k =
      l.total k + l.chargedTo record.charges k :=
  OrderedMap.sum_set_new record hid

theorem total_set (buckets : OrderedMap CapacityScope Bucket) {old : RecordEntry}
    (record : RecordEntry) (hid : l.records.get id = some old) (k : CapacityScope) :
    total { l with buckets, records := l.records.set id record } k =
      l.total k - l.chargedTo old.charges k + l.chargedTo record.charges k :=
  OrderedMap.sum_set record hid

/-! ## The charges of a record under the roots of now -/

/-- The sums `settle` makes, before it looks at a bucket. -/
def chargedList (l : ResourceLedger) (entries : List (CapacityScope × ℤ)) :
    OrderedMap CapacityScope ℤ :=
  entries.foldl (fun charged entry =>
    charged.set (l.root entry.1) (toNumber ((charged.get (l.root entry.1)).getD 0 + entry.2))) .empty

theorem get_chargedList_append (l : ResourceLedger) (entries : List (CapacityScope × ℤ))
    (entry : CapacityScope × ℤ) (k : CapacityScope) :
    (l.chargedList (entries ++ [entry])).get k =
      if k = l.root entry.1 then some (toNumber (((l.chargedList entries).get k).getD 0 + entry.2))
      else (l.chargedList entries).get k := by
  rw [chargedList, List.foldl_append, List.foldl_cons, List.foldl_nil, OrderedMap.get_set]
  by_cases hk : k = l.root entry.1
  · rw [if_pos hk, if_pos hk, hk]
    rfl
  · rw [if_neg hk, if_neg hk]
    rfl

theorem get_chargedList_isSome (l : ResourceLedger) (entries : List (CapacityScope × ℤ))
    (k : CapacityScope) :
    (∃ amount, (l.chargedList entries).get k = some amount) ↔
      ∃ entry ∈ entries, l.root entry.1 = k := by
  induction entries using List.reverseRecOn with
  | nil => simp [chargedList]
  | append_singleton entries entry ih =>
    rw [get_chargedList_append]
    by_cases hk : k = l.root entry.1
    · rw [if_pos hk]
      exact ⟨fun _ => ⟨entry, List.mem_append_right _ List.mem_cons_self, hk.symm⟩, fun _ => ⟨_, rfl⟩⟩
    · rw [if_neg hk, ih]
      constructor
      · rintro ⟨found, hfound, hroot⟩
        exact ⟨found, List.mem_append_left _ hfound, hroot⟩
      · rintro ⟨found, hfound, hroot⟩
        rcases List.mem_append.1 hfound with hfound | hfound
        · exact ⟨found, hfound, hroot⟩
        · rw [List.mem_singleton.1 hfound] at hroot
          exact absurd hroot.symm hk

/-- As long as they stay safe, the sums are exact. -/
theorem getD_chargedList {entries : List (CapacityScope × ℤ)}
    (hnonneg : ∀ entry ∈ entries, 0 ≤ entry.2)
    (hsafe : (entries.map fun entry => if l.root entry.1 = k then entry.2 else 0).sum ≤
      maxSafeInteger) :
    ((l.chargedList entries).get k).getD 0 =
      (entries.map fun entry => if l.root entry.1 = k then entry.2 else 0).sum ∧
    0 ≤ (entries.map fun entry => if l.root entry.1 = k then entry.2 else 0).sum := by
  induction entries using List.reverseRecOn with
  | nil => exact ⟨rfl, le_refl 0⟩
  | append_singleton entries entry ih =>
    have hentry : 0 ≤ entry.2 := hnonneg entry (List.mem_append_right _ List.mem_cons_self)
    have hold : ∀ entry ∈ entries, 0 ≤ entry.2 := fun entry hmem =>
      hnonneg entry (List.mem_append_left _ hmem)
    rw [List.map_append, List.sum_append, List.map_singleton, List.sum_singleton] at hsafe ⊢
    rw [get_chargedList_append]
    by_cases hk : k = l.root entry.1
    · rw [if_pos hk.symm] at hsafe ⊢
      obtain ⟨hsum, hpos⟩ := ih hold (by omega)
      rw [if_pos hk, Option.getD_some, hsum]
      refine ⟨toNumber_of_safe ?_, by omega⟩
      rw [abs_of_nonneg (by omega)]
      exact hsafe
    · have hne : ¬ l.root entry.1 = k := fun h => hk h.symm
      rw [if_neg hne, add_zero] at hsafe
      rw [if_neg hk, if_neg hne, add_zero]
      exact ih hold hsafe

theorem charged_isSome : (∃ reserved, (l.charged charges).get k = some reserved) ↔
      ∃ scope amount, charges.get scope = some amount ∧ l.root scope = k := by
  refine (get_chargedList_isSome l charges.entries k).trans ⟨?_, ?_⟩
  · rintro ⟨entry, hentry, hroot⟩
    exact ⟨entry.1, entry.2, OrderedMap.mem_entries.1 hentry, hroot⟩
  · rintro ⟨scope, amount, hget, hroot⟩
    exact ⟨(scope, amount), OrderedMap.mem_entries.2 hget, hroot⟩

variable {reserved : ℤ} {l' : ResourceLedger} {bucket : Bucket}

/-- The charge a settlement takes out of a bucket is the record's charge there. -/
theorem charged_eq (hnonneg : ∀ scope amount, charges.get scope = some amount → 0 ≤ amount)
    (hsafe : l.chargedTo charges k ≤ maxSafeInteger)
    (h : (l.charged charges).get k = some reserved) : reserved = l.chargedTo charges k := by
  have hsum := (getD_chargedList (fun entry hentry =>
    hnonneg entry.1 entry.2 (OrderedMap.mem_entries.1 hentry)) hsafe).1
  have hget : (l.chargedList charges.entries).get k = some reserved := h
  rw [hget] at hsum
  exact hsum

/-! ## The invariant -/

/-- What holds of a record that is held. -/
structure RecordKept (l : ResourceLedger) (record : RecordEntry) : Prop where
  /-- No amount is negative. -/
  debit_nonneg : ∀ debit ∈ record.debits, 0 ≤ debit.amount
  /-- Every debit has its bucket. -/
  bucket_of_debit : ∀ debit ∈ record.debits, ∃ bucket, l.buckets.get (l.root debit.scope) = some bucket
  /-- No charge is negative. -/
  charge_nonneg : ∀ scope amount, record.charges.get scope = some amount → 0 ≤ amount
  /-- What is charged was debited. -/
  debit_of_charge : ∀ scope amount, record.charges.get scope = some amount →
    ∃ debit ∈ record.debits, l.root debit.scope = l.root scope
  /-- What was debited is charged. -/
  charge_of_debit : ∀ debit ∈ record.debits, ∃ scope amount,
    record.charges.get scope = some amount ∧ l.root scope = l.root debit.scope
  /-- A settled record occupies nothing. -/
  released : record.settled = true → ∀ scope amount, record.charges.get scope = some amount →
    scope.bucketKind = .occupancy → amount = 0

/-- What holds of a bucket.  `lenient` allows for a usage that overflowed. -/
structure BucketKept (lenient : Prop) (l : ResourceLedger) (k : CapacityScope) (bucket : Bucket) :
    Prop where
  /-- It stands under a root. -/
  root : l.root k = k
  /-- It is of the kind of its key. -/
  kind : bucket.scope.bucketKind = k.bucketKind
  /-- Its limit is not negative. -/
  limit_nonneg : 0 ≤ bucket.limit
  /-- Its usage is a safe integer. -/
  used_safe : |bucket.used| ≤ maxSafeInteger
  /-- Its usage covers what is charged to it. -/
  covers : (lenient ∧ bucket.poisoned = true) ∨ l.total k ≤ bucket.used
  /-- Occupancy is exactly what is charged. -/
  occupied : k.bucketKind = .occupancy → bucket.poisoned = true ∨ bucket.used = l.total k

/-- The books are in order. -/
structure Accounted (lenient : Prop) (l : ResourceLedger) : Prop where
  /-- Names of one class are of one kind. -/
  root_kind : ∀ k, (l.root k).bucketKind = k.bucketKind
  record : ∀ {id record}, l.records.get id = some record → RecordKept l record
  bucket : ∀ {k bucket}, l.buckets.get k = some bucket → BucketKept lenient l k bucket

theorem accounted_initial : Accounted lenient initial :=
  ⟨fun _ => rfl, nofun, nofun⟩

namespace Accounted

theorem total_nonneg (h : Accounted lenient l) (k : CapacityScope) : 0 ≤ l.total k :=
  OrderedMap.sum_nonneg fun _ _ hrecord => chargedTo_nonneg k (h.record hrecord).charge_nonneg

theorem chargedTo_le_total (h : Accounted lenient l) {record : RecordEntry}
    (hrecord : l.records.get id = some record) (k : CapacityScope) :
    l.chargedTo record.charges k ≤ l.total k :=
  OrderedMap.le_sum (f := fun _ record => l.chargedTo record.charges k)
    (fun _ _ hrecord => chargedTo_nonneg k (h.record hrecord).charge_nonneg) hrecord

variable {k : CapacityScope}

/-- Where there is no bucket nothing is charged. -/
theorem total_eq_zero (h : Accounted lenient l) (hk : l.buckets.get k = none) : l.total k = 0 := by
  refine OrderedMap.sum_eq_zero fun _ record hrecord => chargedTo_eq_zero fun scope amount hget hroot => ?_
  obtain ⟨debit, hdebit, hsame⟩ := (h.record hrecord).debit_of_charge scope amount hget
  obtain ⟨bucket, hbucket⟩ := (h.record hrecord).bucket_of_debit debit hdebit
  rw [hsame, hroot, hk] at hbucket
  cases hbucket

/-- What covers the charges under a root, whether it has a bucket or not. -/
theorem covers_getD (h : Accounted lenient l) (k : CapacityScope) :
    (lenient ∧ (l.buckets.get k).any Bucket.poisoned = true) ∨
      l.total k ≤ ((l.buckets.get k).map Bucket.used).getD 0 := by
  rcases hget : l.buckets.get k with _ | bucket
  · exact .inr (h.total_eq_zero hget).le
  · exact (h.bucket hget).covers

theorem occupied_getD (h : Accounted lenient l) (hoccupancy : k.bucketKind = .occupancy) :
    (l.buckets.get k).any Bucket.poisoned = true ∨
      ((l.buckets.get k).map Bucket.used).getD 0 = l.total k := by
  rcases hget : l.buckets.get k with _ | bucket
  · exact .inr (h.total_eq_zero hget).symm
  · exact (h.bucket hget).occupied hoccupancy

theorem limit_getD_nonneg (h : Accounted lenient l) (k : CapacityScope) {limit : ℤ}
    (hlimit : 0 ≤ limit) : 0 ≤ ((l.buckets.get k).map Bucket.limit).getD limit := by
  rcases hget : l.buckets.get k with _ | bucket
  · exact hlimit
  · exact (h.bucket hget).limit_nonneg

/-- Where nothing is poisoned, the usage covers the charges. -/
theorem total_le_getD (h : Accounted lenient l)
    (hpoisoned : (l.buckets.get k).any Bucket.poisoned = false) :
    l.total k ≤ ((l.buckets.get k).map Bucket.used).getD 0 := by
  refine (h.covers_getD k).resolve_left fun htrue => ?_
  rw [hpoisoned] at htrue
  cases htrue.2

end Accounted

/-- A bucket of which neither the root nor the charges change. -/
theorem BucketKept.congr (h : BucketKept lenient l k bucket) (hroot : l'.root k = l.root k)
    (htotal : l'.total k = l.total k) : BucketKept lenient l' k bucket := by
  refine ⟨hroot.trans h.root, h.kind, h.limit_nonneg, h.used_safe, ?_, ?_⟩
  · rw [htotal]
    exact h.covers
  · rw [htotal]
    exact h.occupied

/-! ## Requests -/

variable {buckets : OrderedMap CapacityScope Bucket}

/-- Narrowed limits leave the books in order. -/
theorem Accounted.narrowed (h : Accounted lenient l)
    (hnarrowed : Narrowed l.buckets buckets) : Accounted lenient { l with buckets } where
  root_kind := h.root_kind
  record := by
    intro id record hrecord
    have hkept := h.record hrecord
    refine { hkept with bucket_of_debit := fun debit hdebit => ?_ }
    obtain ⟨bucket, hbucket⟩ := hkept.bucket_of_debit debit hdebit
    obtain ⟨f, -, -, hget⟩ := hnarrowed (l.root debit.scope)
    rw [hbucket] at hget
    exact ⟨_, hget⟩
  bucket := by
    intro k bucket hbucket
    obtain ⟨f, hf, -, hget⟩ := hnarrowed k
    rw [show buckets.get k = some bucket from hbucket] at hget
    obtain ⟨old, hold, rfl⟩ := Option.map_eq_some_iff.1 hget.symm
    have hkept := h.bucket hold
    exact ⟨hkept.root, hkept.kind, hf _ hkept.limit_nonneg, hkept.used_safe, hkept.covers,
      hkept.occupied⟩

/-- What a bucket that can take a group is known by. -/
theorem of_not_cannotTake {bucket : Option Bucket} {group : Group} (h : ¬ cannotTake bucket group) :
    bucket.any Bucket.poisoned = false ∧
      (bucket.map Bucket.used).getD 0 + group.amount ≤ narrowedLimit bucket group.limit := by
  simp only [cannotTake, not_or, Bool.not_eq_true] at h
  exact ⟨h.1, by omega⟩

theorem exists_chargeGroups {parentScope : String} {groups : OrderedMap CapacityScope Group}
    (h : (∃ group, groups.get k = some group) ∨ ∃ bucket, buckets.get k = some bucket) :
    ∃ bucket, (chargeGroups parentScope groups.entries buckets).get k = some bucket := by
  rw [get_chargeGroups]
  rcases hgroup : groups.get k with _ | group
  · rcases h with ⟨group, h⟩ | h
    · rw [hgroup] at h
      cases h
    · exact h
  · exact ⟨_, rfl⟩

variable {record : RecordEntry} {debits : List ResourceDebit}

/-- A request just admitted: every debit has a charge under its root. -/
theorem recordKept_charges {records : OrderedMap String RecordEntry}
    (hnonneg : ∀ debit ∈ record.debits, 0 ≤ debit.amount)
    (hbuckets : ∀ debit ∈ record.debits, ∃ bucket, buckets.get (l.root debit.scope) = some bucket)
    (hscopes : debits.map ResourceDebit.scope = record.debits.map ResourceDebit.scope)
    (hcharges : record.charges = chargesOf (l.grouped debits))
    (hreleased : record.settled = true → ∀ debit ∈ debits,
      debit.scope.bucketKind = .occupancy → debit.amount = 0)
    (hkind : ∀ k, (l.root k).bucketKind = k.bucketKind) :
    RecordKept { l with buckets, records } record := by
  have hmem : ∀ {scope}, (∃ debit ∈ debits, debit.scope = scope) ↔
      ∃ debit ∈ record.debits, debit.scope = scope := by
    intro scope
    rw [← List.mem_map, ← List.mem_map, hscopes]
  have hgroup : ∀ {scope amount}, record.charges.get scope = some amount →
      ∃ group, (l.grouped debits).get scope = some group ∧ group.amount = amount := by
    intro scope amount hget
    rw [hcharges, get_chargesOf] at hget
    exact Option.map_eq_some_iff.1 hget
  refine ⟨hnonneg, hbuckets, fun scope amount hget => ?_, fun scope amount hget => ?_,
    fun debit hdebit => ?_, fun hsettled scope amount hget hoccupancy => ?_⟩
  · obtain ⟨group, hgroup, rfl⟩ := hgroup hget
    exact (groupOf_of_get hgroup).amount_nonneg
  · obtain ⟨group, hgroup, -⟩ := hgroup hget
    have hof := groupOf_of_get hgroup
    obtain ⟨debit, hdebit, hscope⟩ := hmem.1 ⟨group.debit, hof.mem, rfl⟩
    refine ⟨debit, hdebit, ?_⟩
    show l.root debit.scope = l.root scope
    rw [hscope, ← hof.root]
    exact (l.aliases.root_root _).symm
  · obtain ⟨debit', hdebit', hscope⟩ := hmem.2 ⟨debit, hdebit, rfl⟩
    obtain ⟨group, hgroup⟩ := exists_group (l := l) hdebit'
    refine ⟨l.root debit'.scope, group.amount, ?_, ?_⟩
    · rw [hcharges, get_chargesOf, hgroup]
      rfl
    · show l.root (l.root debit'.scope) = l.root debit.scope
      rw [hscope]
      exact l.aliases.root_root _
  · obtain ⟨group, hgroup, rfl⟩ := hgroup hget
    refine (groupOf_of_get hgroup).amount_zero fun debit hdebit hroot => ?_
    refine hreleased hsettled debit hdebit ?_
    rw [← hkind, hroot, hoccupancy]

/-- An admitted request leaves the books in order. -/
theorem Accounted.admitted (h : Accounted lenient l) (record : RecordEntry) (parentScope : String)
    (hamounts : ∀ debit ∈ record.debits, isAmount debit.amount = true ∧ isAmount debit.limit = true)
    (hid : l.records.get id = none) (hsettled : record.settled = false)
    (hcharges : record.charges = chargesOf (l.grouped record.debits))
    (htake : ∀ k group, (l.grouped record.debits).get k = some group →
      ¬ cannotTake (l.buckets.get k) group) :
    Accounted lenient { l with
      buckets := chargeGroups parentScope (l.grouped record.debits).entries l.buckets
      records := l.records.set id record } where
  root_kind := h.root_kind
  record := by
    intro id' kept hkept
    replace hkept : (l.records.set id record).get id' = some kept := hkept
    rw [OrderedMap.get_set] at hkept
    split_ifs at hkept with hnew
    · cases hkept
      refine recordKept_charges (fun debit hdebit => ?_) (fun debit hdebit => ?_) rfl hcharges
        (fun h => ?_) h.root_kind
      · exact (of_decide_eq_true (hamounts debit hdebit).1).1
      · exact exists_chargeGroups (.inl (exists_group hdebit))
      · rw [hsettled] at h
        cases h
    · have hold := h.record hkept
      exact { hold with
        bucket_of_debit := fun debit hdebit =>
          exists_chargeGroups (.inr (hold.bucket_of_debit debit hdebit)) }
  bucket := by
    intro k bucket hbucket
    replace hbucket : (chargeGroups parentScope (l.grouped record.debits).entries l.buckets).get k =
      some bucket := hbucket
    have htotal := total_set_new
      (chargeGroups parentScope (l.grouped record.debits).entries l.buckets) record hid k
    rw [hcharges, chargedTo_chargesOf] at htotal
    rw [get_chargeGroups] at hbucket
    rcases hgroup : (l.grouped record.debits).get k with _ | group
    · rw [hgroup] at hbucket htotal
      rw [Option.map_none, Option.getD_none, add_zero] at htotal
      exact (h.bucket hbucket).congr rfl htotal
    · have hof := groupOf_of_get hgroup
      obtain ⟨hpoisoned, hroom⟩ := of_not_cannotTake (htake k group hgroup)
      have hcovers := h.total_le_getD hpoisoned
      have hpos := h.total_nonneg k
      have hlimit : narrowedLimit (l.buckets.get k) group.limit ≤ maxSafeInteger :=
        (min_le_right _ _).trans hof.limit_le
      rw [hgroup] at hbucket htotal
      rw [Option.map_some, Option.getD_some] at htotal
      cases hbucket
      refine ⟨?_, ?_, ?_, ?_, .inr ?_, fun hoccupancy => .inr ?_⟩
      · show l.root k = k
        rw [← hof.root]
        exact l.aliases.root_root _
      · show group.debit.scope.bucketKind = k.bucketKind
        rw [← h.root_kind, hof.root]
      · have hamount := hof.amount_nonneg
        show 0 ≤ narrowedLimit (l.buckets.get k) group.limit
        omega
      · have hamount := hof.amount_nonneg
        show |((l.buckets.get k).map Bucket.used).getD 0 + group.amount| ≤ maxSafeInteger
        rw [abs_of_nonneg (by omega)]
        omega
      · rw [htotal]
        show _ ≤ ((l.buckets.get k).map Bucket.used).getD 0 + group.amount
        omega
      · have hused := (h.occupied_getD hoccupancy).resolve_left (by simp [hpoisoned])
        rw [htotal, ← hused]
        rfl

/-! ## Settlements -/

section
variable {bucket : Bucket} {exceeded : Bool} {next reserved used : ℤ}

@[simp] theorem settledBucket_scope : (settledBucket bucket exceeded next).scope = bucket.scope := by
  unfold settledBucket
  split_ifs <;> rfl

@[simp] theorem settledBucket_limit : (settledBucket bucket exceeded next).limit = bucket.limit := by
  unfold settledBucket
  split_ifs <;> rfl

theorem settledBucket_used_safe (h : |bucket.used| ≤ maxSafeInteger) :
    |(settledBucket bucket exceeded next).used| ≤ maxSafeInteger := by
  unfold settledBucket
  split_ifs with hnext
  · exact hnext
  · exact h

theorem settledBucket_poisoned (h : bucket.poisoned = true ∨ ¬ |next| ≤ maxSafeInteger) :
    (settledBucket bucket exceeded next).poisoned = true := by
  unfold settledBucket
  split_ifs with hnext
  · rw [h.resolve_right (not_not_intro hnext)]
    rfl
  · rfl

theorem settledBucket_used (h : |next| ≤ maxSafeInteger) :
    (settledBucket bucket exceeded next).used = next := by
  rw [settledBucket, if_pos h]

/-- A usage that stays safe is exact. -/
theorem nextUsed_eq (hpos : 0 ≤ reserved) (hle : reserved ≤ bucket.used)
    (hsafe : |bucket.used| ≤ maxSafeInteger)
    (hnext : |nextUsed bucket reserved used| ≤ maxSafeInteger) :
    nextUsed bucket reserved used = bucket.used - reserved + used := by
  have hsub : toNumber (bucket.used - reserved) = bucket.used - reserved := by
    refine toNumber_of_safe ?_
    rw [abs_of_nonneg (by omega)] at hsafe ⊢
    exact le_trans (by omega) hsafe
  rw [nextUsed, hsub] at hnext ⊢
  by_contra hne
  exact toNumber_not_safe (fun h => hne (toNumber_of_safe h)) hnext

end

/-- The bucket of a record's class is settled with the record. -/
theorem BucketKept.settledAt
    {settledDebits : List ResourceDebit} (h : BucketKept lenient l k bucket)
    (hroot : l'.root k = l.root k)
    (hreserved : l.total k ≤ bucket.used → 0 ≤ reserved ∧ reserved ≤ l.total k ∧
      l'.total k = l.total k - reserved + settledAmount (l.grouped settledDebits) k reserved)
    (hsafe : lenient ∨ |nextUsed bucket reserved
      (settledAmount (l.grouped settledDebits) k reserved)| ≤ maxSafeInteger) :
    BucketKept lenient l' k (l.settledAt settledDebits debits k reserved bucket) := by
  have hused : l.total k ≤ bucket.used → |nextUsed bucket reserved
      (settledAmount (l.grouped settledDebits) k reserved)| ≤ maxSafeInteger →
      (l.settledAt settledDebits debits k reserved bucket).used - l'.total k =
        bucket.used - l.total k := by
    intro hle hnext
    obtain ⟨hpos, hle', htotal⟩ := hreserved hle
    rw [ResourceLedger.settledAt, settledBucket_used hnext,
      nextUsed_eq hpos (hle'.trans hle) h.used_safe hnext, htotal]
    ring
  refine ⟨hroot.trans h.root, by simp [ResourceLedger.settledAt, h.kind],
    by simp [ResourceLedger.settledAt, h.limit_nonneg], settledBucket_used_safe h.used_safe, ?_, ?_⟩
  · rcases h.covers with ⟨hlenient, hpoisoned⟩ | hle
    · exact .inl ⟨hlenient, settledBucket_poisoned (.inl hpoisoned)⟩
    · by_cases hnext : |nextUsed bucket reserved
          (settledAmount (l.grouped settledDebits) k reserved)| ≤ maxSafeInteger
      · have := hused hle hnext
        exact .inr (by omega)
      · exact .inl ⟨hsafe.resolve_right hnext, settledBucket_poisoned (.inr hnext)⟩
  · intro hoccupancy
    rcases h.occupied hoccupancy with hpoisoned | heq
    · exact .inl (settledBucket_poisoned (.inl hpoisoned))
    · by_cases hnext : |nextUsed bucket reserved
          (settledAmount (l.grouped settledDebits) k reserved)| ≤ maxSafeInteger
      · have := hused heq.ge hnext
        exact .inr (by omega)
      · exact .inl (settledBucket_poisoned (.inr hnext))

/-- Whether some usage leaves the safe integers when a record is settled. -/
def Overflows (l : ResourceLedger) (id : String) (actual : Option (List ResourceDebit))
    (terminated : Bool) : Prop :=
  ∃ record, l.records.get id = some record ∧ record.settled = false ∧
    actual.any (actualsRejected record) = false ∧
    ∃ k reserved bucket, (l.charged record.charges).get k = some reserved ∧
      l.buckets.get k = some bucket ∧
      ¬ |nextUsed bucket reserved (settledAmount
        (l.grouped (record.debits.map (settledDebit actual terminated))) k reserved)| ≤ maxSafeInteger

/-- Every charge of a record has its bucket. -/
theorem Accounted.bucket_of_charged (h : Accounted lenient l)
    (hrecord : l.records.get id = some record)
    (hcharged : (l.charged record.charges).get k = some reserved) :
    ∃ bucket, l.buckets.get k = some bucket := by
  obtain ⟨scope, amount, hget, hroot⟩ := charged_isSome.1 ⟨reserved, hcharged⟩
  obtain ⟨debit, hdebit, hsame⟩ := (h.record hrecord).debit_of_charge scope amount hget
  obtain ⟨bucket, hbucket⟩ := (h.record hrecord).bucket_of_debit debit hdebit
  rw [hsame, hroot] at hbucket
  exact ⟨bucket, hbucket⟩

/-- A settlement leaves the books in order. -/
theorem Accounted.settled (h : Accounted lenient l)
    {actual : Option (List ResourceDebit)} {terminated : Bool} {receipt : AdmissionReceipt} (hrecord : l.records.get id = some record)
    (hopen : record.settled = false) (haccepted : ¬ actual.any (actualsRejected record) = true)
    (hbuckets : ∀ k, buckets.get k =
      match (l.charged record.charges).get k with
      | none => l.buckets.get k
      | some reserved => (l.buckets.get k).map
          (l.settledAt (record.debits.map (settledDebit actual terminated)) record.debits k reserved))
    (hsafe : lenient ∨ ¬ l.Overflows id actual terminated) :
    Accounted lenient { l with
      buckets
      records := l.records.set id
        { record with
          charges := chargesOf (l.grouped (record.debits.map (settledDebit actual terminated)))
          settled := terminated
          receipt } } where
  root_kind := h.root_kind
  record := by
    have hexists : ∀ k, (∃ bucket, l.buckets.get k = some bucket) →
        ∃ bucket, buckets.get k = some bucket := by
      rintro k ⟨bucket, hbucket⟩
      rw [hbuckets k, hbucket]
      rcases (l.charged record.charges).get k with _ | reserved
      · exact ⟨bucket, rfl⟩
      · exact ⟨_, rfl⟩
    intro id' kept hkept
    rw [OrderedMap.get_set] at hkept
    have hold := h.record hrecord
    split_ifs at hkept with hsame
    · cases hkept
      refine recordKept_charges hold.debit_nonneg
        (fun debit hdebit => hexists _ (hold.bucket_of_debit debit hdebit)) ?_ rfl ?_ h.root_kind
      · rw [List.map_map]
        rfl
      · intro hterminated debit hdebit hoccupancy
        obtain ⟨reserved, -, rfl⟩ := List.mem_map.1 hdebit
        replace hterminated : terminated = true := hterminated
        replace hoccupancy : reserved.scope.bucketKind = .occupancy := hoccupancy
        simp [settledDebit, hterminated, hoccupancy]
    · have hother := h.record hkept
      exact { hother with
        bucket_of_debit := fun debit hdebit => hexists _ (hother.bucket_of_debit debit hdebit) }
  bucket := by
    intro k bucket hbucket
    have hold := h.record hrecord
    have htotal := total_set (l := l) buckets
      { record with
        charges := chargesOf (l.grouped (record.debits.map (settledDebit actual terminated)))
        settled := terminated
        receipt } hrecord k
    rw [chargedTo_chargesOf] at htotal
    replace hbucket : buckets.get k = some bucket := hbucket
    rw [hbuckets k] at hbucket
    rcases hcharged : (l.charged record.charges).get k with _ | reserved
    · -- The record has nothing under this root, neither before nor after.
      have hnone : ∀ scope amount, record.charges.get scope = some amount → l.root scope ≠ k := by
        intro scope amount hget hroot
        obtain ⟨reserved, hreserved⟩ := charged_isSome.2 ⟨scope, amount, hget, hroot⟩
        rw [hcharged] at hreserved
        cases hreserved
      have hcharge : l.chargedTo record.charges k = 0 :=
        chargedTo_eq_zero fun scope amount hget hroot => absurd hroot (hnone scope amount hget)
      rw [hcharged] at hbucket
      refine (h.bucket hbucket).congr rfl ?_
      rcases hgroup : (l.grouped (record.debits.map (settledDebit actual terminated))).get k with
        _ | group
      · rw [htotal, hgroup, hcharge]
        simp
      · have hof := groupOf_of_get hgroup
        obtain ⟨debit, hdebit, heq⟩ := List.mem_map.1 hof.mem
        obtain ⟨scope, amount, hget, hroot⟩ := hold.charge_of_debit debit hdebit
        refine absurd ?_ (hnone scope amount hget)
        rw [hroot, ← hof.root, ← heq]
        rfl
    · rw [hcharged] at hbucket
      obtain ⟨old, hget, rfl⟩ := Option.map_eq_some_iff.1 hbucket
      refine (h.bucket hget).settledAt rfl (fun hle => ?_) ?_
      · have hpart := h.chargedTo_le_total hrecord k
        have hreserved : reserved = l.chargedTo record.charges k :=
          charged_eq hold.charge_nonneg
            ((hpart.trans hle).trans ((le_abs_self _).trans (h.bucket hget).used_safe)) hcharged
        have hgroup : ∃ group, (l.grouped (record.debits.map (settledDebit actual terminated))).get k =
            some group := by
          obtain ⟨scope, amount, hcharge, hroot⟩ := charged_isSome.1 ⟨reserved, hcharged⟩
          obtain ⟨debit, hdebit, hsame⟩ := hold.debit_of_charge scope amount hcharge
          have hmem := List.mem_map_of_mem (f := settledDebit actual terminated) hdebit
          obtain ⟨group, hgroup⟩ := exists_group (l := l) hmem
          rw [← hroot, ← hsame]
          exact ⟨group, hgroup⟩
        obtain ⟨group, hgroup⟩ := hgroup
        refine ⟨?_, ?_, ?_⟩
        · rw [hreserved]
          exact chargedTo_nonneg k hold.charge_nonneg
        · rw [hreserved]
          exact hpart
        · rw [htotal, settledAmount, hgroup, hreserved]
          rfl
      · refine hsafe.imp_right fun hno => ?_
        by_contra hnext
        exact hno ⟨record, hrecord, hopen, Bool.eq_false_iff.2 haccepted, k, reserved, old, hcharged,
          hget, hnext⟩

/-! ## Names, limits and closed tasks -/

variable {left right : CapacityScope}

/-- What one record is charged once two classes are one. -/
theorem chargedTo_joined (hne : l.root left ≠ l.root right)
    (charges : OrderedMap CapacityScope ℤ) (hk : k ≠ l.root right) :
    (l.joined left right hne).chargedTo charges k =
      l.chargedTo charges k + if k = l.root left then l.chargedTo charges (l.root right) else 0 := by
  have hpoint : ∀ scope (amount : ℤ),
      (if (l.joined left right hne).root scope = k then amount else 0) =
        (if l.root scope = k then amount else 0) +
          if k = l.root left then (if l.root scope = l.root right then amount else 0) else 0 := by
    intro scope amount
    rw [root_joined]
    by_cases hscope : l.root scope = l.root right
    · have hother : l.root scope ≠ k := by
        rw [hscope]
        exact hk.symm
      rw [if_pos hscope, if_pos hscope, if_neg hother, zero_add]
      by_cases hleft : k = l.root left
      · rw [if_pos hleft.symm, if_pos hleft]
      · rw [if_neg fun h => hleft h.symm, if_neg hleft]
    · rw [if_neg hscope, if_neg hscope, ite_self, add_zero]
  have hsum := OrderedMap.sum_congr (m := charges) fun scope amount _ => hpoint scope amount
  rw [OrderedMap.sum_add] at hsum
  refine hsum.trans (congrArg _ ?_)
  by_cases hleft : k = l.root left
  · simp only [if_pos hleft]
    rfl
  · simp only [if_neg hleft]
    exact OrderedMap.sum_eq_zero fun _ _ _ => rfl

/-- What two classes are charged together. -/
theorem total_joined (hne : l.root left ≠ l.root right) (hk : k ≠ l.root right) :
    (l.joined left right hne).total k =
      l.total k + if k = l.root left then l.total (l.root right) else 0 := by
  have hsum := OrderedMap.sum_congr (m := l.records) fun _ record _ =>
    chargedTo_joined hne record.charges hk
  rw [OrderedMap.sum_add] at hsum
  refine hsum.trans (congrArg _ ?_)
  by_cases hleft : k = l.root left
  · simp only [if_pos hleft]
    rfl
  · simp only [if_neg hleft]
    exact OrderedMap.sum_eq_zero fun _ _ _ => rfl

/-- A name learnt leaves the books in order. -/
theorem Accounted.joined (h : Accounted lenient l)
    (hne : l.root left ≠ l.root right) (hkind : left.bucketKind = right.bucketKind)
    (hsafe : |(joinedBucket left (l.buckets.get (l.root left)) (l.buckets.get (l.root right))).used| ≤
      maxSafeInteger) :
    Accounted lenient (l.joined left right hne) := by
  have hkinds : (l.root right).bucketKind = (l.root left).bucketKind := by
    rw [h.root_kind, h.root_kind, hkind]
  refine ⟨fun k => ?_, fun {id record} hrecord => ?_, fun {k bucket} hbucket => ?_⟩
  · rw [root_joined]
    split_ifs with hk
    · rw [← hkinds, ← hk, h.root_kind]
    · exact h.root_kind k
  · have hkept := h.record hrecord
    refine ⟨hkept.debit_nonneg, fun debit hdebit => ?_, hkept.charge_nonneg,
      fun scope amount hcharge => ?_, fun debit hdebit => ?_, hkept.released⟩
    · rw [root_joined, get_joined]
      by_cases hright : l.root debit.scope = l.root right
      · rw [if_pos hright, if_neg hne, if_pos rfl]
        exact ⟨_, rfl⟩
      · rw [if_neg hright, if_neg hright]
        split_ifs
        · exact ⟨_, rfl⟩
        · exact hkept.bucket_of_debit debit hdebit
    · obtain ⟨debit, hdebit, hsame⟩ := hkept.debit_of_charge scope amount hcharge
      refine ⟨debit, hdebit, ?_⟩
      rw [root_joined, root_joined, hsame]
    · obtain ⟨scope, amount, hcharge, hsame⟩ := hkept.charge_of_debit debit hdebit
      refine ⟨scope, amount, hcharge, ?_⟩
      rw [root_joined, root_joined, hsame]
  · rw [get_joined] at hbucket
    split_ifs at hbucket with hright hleft
    · cases hbucket
      have htotal := total_joined hne hright
      rw [if_pos hleft, hleft] at htotal
      rw [hleft]
      refine ⟨?_, (h.root_kind left).symm, ?_, hsafe, ?_, fun hoccupancy => ?_⟩
      · rw [root_joined]
        show (if l.root (l.root left) = _ then _ else l.root (l.root left)) = _
        rw [show l.root (l.root left) = l.root left from l.aliases.root_root left, if_neg hne]
      · exact le_min (h.limit_getD_nonneg _ (by simp [maxSafeInteger]))
          (h.limit_getD_nonneg _ (by simp [maxSafeInteger]))
      · rw [htotal]
        show _ ∨ _ ≤ _ + _
        rcases h.covers_getD (l.root left) with ⟨hlenient, hpoisoned⟩ | hfirst
        · exact .inl ⟨hlenient, by simp [joinedBucket, hpoisoned]⟩
        rcases h.covers_getD (l.root right) with ⟨hlenient, hpoisoned⟩ | hsecond
        · exact .inl ⟨hlenient, by simp [joinedBucket, hpoisoned]⟩
        exact .inr (add_le_add hfirst hsecond)
      · rw [htotal]
        show _ ∨ _ + _ = _
        rcases h.occupied_getD hoccupancy with hpoisoned | hfirst
        · exact .inl (by simp [joinedBucket, hpoisoned])
        rcases h.occupied_getD (hkinds.trans hoccupancy) with hpoisoned | hsecond
        · exact .inl (by simp [joinedBucket, hpoisoned])
        exact .inr (congrArg₂ _ hfirst hsecond)
    · have htotal := total_joined hne hright
      rw [if_neg hleft, add_zero] at htotal
      have hkept := h.bucket hbucket
      refine hkept.congr ?_ htotal
      rw [root_joined, hkept.root, if_neg hright]

/-- A bucket written anew with the usage it had leaves the books in order. -/
theorem Accounted.rewritten (h : Accounted lenient l) {scope : CapacityScope}
    {parentScopes : Option (Finset String)} {limit : ℤ} (hlimit : 0 ≤ limit) :
    Accounted lenient { l with
      buckets := l.buckets.set (l.root scope)
        { parentScopes
          scope
          used := ((l.buckets.get (l.root scope)).map Bucket.used).getD 0
          limit := narrowedLimit (l.buckets.get (l.root scope)) limit
          poisoned := (l.buckets.get (l.root scope)).any Bucket.poisoned } } where
  root_kind := h.root_kind
  record := by
    intro id record hrecord
    have hkept := h.record hrecord
    refine { hkept with bucket_of_debit := fun debit hdebit => ?_ }
    show ∃ bucket, (l.buckets.set _ _).get (l.root debit.scope) = some bucket
    rw [OrderedMap.get_set]
    split_ifs
    · exact ⟨_, rfl⟩
    · exact hkept.bucket_of_debit debit hdebit
  bucket := by
    intro k bucket hbucket
    rw [OrderedMap.get_set] at hbucket
    split_ifs at hbucket with hk
    · cases hbucket
      rw [hk]
      refine ⟨l.aliases.root_root scope, (h.root_kind scope).symm,
        le_min (h.limit_getD_nonneg _ hlimit) hlimit, ?_, h.covers_getD _,
        fun hoccupancy => h.occupied_getD hoccupancy⟩
      rcases hget : l.buckets.get (l.root scope) with _ | old
      · simp [maxSafeInteger]
      · exact (h.bucket hget).used_safe
    · exact (h.bucket hbucket).congr rfl rfl

/-- The records a closed task drops occupy nothing. -/
theorem Accounted.total_closeTask (h : Accounted lenient l) (parentScope : String)
    (k : CapacityScope) :
    (l.closeTask parentScope).total k ≤ l.total k ∧
      (k.bucketKind = .occupancy → (l.closeTask parentScope).total k = l.total k) := by
  have hsum := OrderedMap.sum_filterMap_add l.records
    (fun _ record => l.chargedTo record.charges k)
    fun _ record => !(decide (record.identity.parentScope = parentScope) && record.settled)
  have hdropped : ∀ {id record}, (l.records.filterMap fun _ record =>
      if (!(decide (record.identity.parentScope = parentScope) && record.settled)) = true then none
      else some record).get id = some record →
      record.settled = true ∧ RecordKept l record := by
    intro id record hget
    rw [OrderedMap.get_filterMap] at hget
    obtain ⟨found, hfound, hkeep⟩ := Option.bind_eq_some_iff.1 hget
    split_ifs at hkeep with hopen
    cases hkeep
    refine ⟨?_, h.record hfound⟩
    by_contra hsettled
    exact hopen (by simp [hsettled])
  replace hsum : (l.closeTask parentScope).total k + _ = l.total k := hsum
  constructor
  · have hpos := OrderedMap.sum_nonneg (f := fun _ record => l.chargedTo record.charges k)
      fun _ record hget => chargedTo_nonneg (l := l) k (hdropped hget).2.charge_nonneg
    omega
  · intro hoccupancy
    have hzero := OrderedMap.sum_eq_zero (f := fun _ record => l.chargedTo record.charges k)
      fun _ record hget => chargedTo_eq_zero (l := l) fun scope amount hcharge hroot =>
        (hdropped hget).2.released (hdropped hget).1 scope amount hcharge
          (by rw [← h.root_kind, hroot, hoccupancy])
    omega

/-- A closed task leaves the books in order. -/
theorem Accounted.closeTask (h : Accounted lenient l) (parentScope : String) :
    Accounted lenient (l.closeTask parentScope) where
  root_kind := h.root_kind
  record := by
    intro id record hrecord
    have hopen : (l.openRecords parentScope).get id = some record := hrecord
    have hkept := h.record (get_openRecords.1 hopen).1
    refine { hkept with bucket_of_debit := fun debit hdebit => ?_ }
    obtain ⟨bucket, hbucket⟩ := hkept.bucket_of_debit debit hdebit
    have hreferenced : l.referenced (l.openRecords parentScope) (l.root debit.scope) = true :=
      referenced_iff.2 ⟨id, record, hopen, debit, hdebit, rfl⟩
    show ∃ bucket, (l.closeTask parentScope).buckets.get (l.root debit.scope) = some bucket
    rw [get_closeTask, hbucket, Option.bind_some, hreferenced, if_neg (by simp)]
    exact ⟨_, rfl⟩
  bucket := by
    intro k bucket hbucket
    rw [get_closeTask] at hbucket
    obtain ⟨old, hold, hkeep⟩ := Option.bind_eq_some_iff.1 hbucket
    split_ifs at hkeep
    cases hkeep
    have hkept := h.bucket hold
    obtain ⟨hle, heq⟩ := h.total_closeTask parentScope k
    refine ⟨hkept.root, hkept.kind, hkept.limit_nonneg, hkept.used_safe,
      hkept.covers.imp_right fun h => hle.trans h, fun hoccupancy => ?_⟩
    rw [heq hoccupancy]
    exact hkept.occupied hoccupancy

end Falryn.Orchestration.ResourceLedger
