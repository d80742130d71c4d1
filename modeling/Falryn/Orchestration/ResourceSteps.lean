import Falryn.Orchestration.ResourceLedger

/-!
# What the calls of the ledger do

One lemma for each loop and each call: what grouping keeps of the debits, what the check of a request
may change, what a settlement does to each bucket.  The accounting invariants are derived from these
alone.
-/

namespace Falryn.Orchestration.ResourceLedger

variable {l : ResourceLedger}

/-! ## Grouping -/

theorem get_grouped_append (l : ResourceLedger) (debits : List ResourceDebit) (debit : ResourceDebit)
    (k : CapacityScope) :
    (l.grouped (debits ++ [debit])).get k =
      if k = l.root debit.scope then some (Group.add ((l.grouped debits).get k) debit)
      else (l.grouped debits).get k := by
  rw [grouped, List.foldl_append, List.foldl_cons, List.foldl_nil, OrderedMap.get_set]
  by_cases hk : k = l.root debit.scope
  · rw [if_pos hk, if_pos hk, hk]
    rfl
  · rw [if_neg hk, if_neg hk]
    rfl

/-- What a group keeps of the debits of its class. -/
structure GroupOf (l : ResourceLedger) (debits : List ResourceDebit) (k : CapacityScope)
    (group : Group) : Prop where
  /-- Its debit is one of them. -/
  mem : group.debit ∈ debits
  /-- Its debit is of the class. -/
  root : l.root group.debit.scope = k
  /-- Its amount is not negative. -/
  amount_nonneg : 0 ≤ group.amount
  /-- Its amount is nothing when theirs are. -/
  amount_zero : (∀ debit ∈ debits, l.root debit.scope = k → debit.amount = 0) → group.amount = 0
  /-- Its limit is a safe integer. -/
  limit_le : group.limit ≤ maxSafeInteger
  /-- Its limit is not negative when theirs are not. -/
  limit_nonneg : (∀ debit ∈ debits, 0 ≤ debit.limit) → 0 ≤ group.limit

variable {debits : List ResourceDebit} {k : CapacityScope} {debit : ResourceDebit}

theorem groupOf_add {previous : Option Group} (hprevious : ∀ group, previous = some group → GroupOf l debits k group)
    (hk : l.root debit.scope = k) :
    GroupOf l (debits ++ [debit]) k (Group.add previous debit) := by
  refine ⟨List.mem_append_right _ List.mem_cons_self, hk, ?_, ?_, ?_, ?_⟩
  · rcases previous with _ | group
    · exact le_max_left _ _
    · exact (hprevious group rfl).amount_nonneg.trans (le_max_left _ _)
  · intro hzero
    have hdebit : debit.amount = 0 := hzero debit (List.mem_append_right _ List.mem_cons_self) hk
    rcases previous with _ | group
    · simp [Group.add, hdebit]
    · have hgroup := (hprevious group rfl).amount_zero fun debit hmem =>
        hzero debit (List.mem_append_left _ hmem)
      simp [Group.add, hdebit, hgroup]
  · rcases previous with _ | group
    · exact min_le_left _ _
    · exact (min_le_left _ _).trans (hprevious group rfl).limit_le
  · intro hlimit
    have hdebit : 0 ≤ debit.limit := hlimit debit (List.mem_append_right _ List.mem_cons_self)
    rcases previous with _ | group
    · exact le_min (by simp [maxSafeInteger]) hdebit
    · exact le_min ((hprevious group rfl).limit_nonneg fun debit hmem =>
        hlimit debit (List.mem_append_left _ hmem)) hdebit

variable {group : Group} {id : String} {left right : CapacityScope}

theorem groupOf_mono (h : GroupOf l debits k group) : GroupOf l (debits ++ [debit]) k group :=
  ⟨List.mem_append_left _ h.mem, h.root, h.amount_nonneg,
    fun hzero => h.amount_zero fun debit hmem => hzero debit (List.mem_append_left _ hmem),
    h.limit_le,
    fun hlimit => h.limit_nonneg fun debit hmem => hlimit debit (List.mem_append_left _ hmem)⟩

theorem groupOf_of_get (h : (l.grouped debits).get k = some group) : GroupOf l debits k group := by
  induction debits using List.reverseRecOn generalizing group with
  | nil => cases h
  | append_singleton debits _ ih =>
    rw [get_grouped_append] at h
    split_ifs at h with hk
    · cases h
      exact groupOf_add (fun _ hprevious => ih hprevious) hk.symm
    · exact groupOf_mono (ih h)

/-- Every debit has a group. -/
theorem exists_group (h : debit ∈ debits) :
    ∃ group, (l.grouped debits).get (l.root debit.scope) = some group := by
  induction debits using List.reverseRecOn with
  | nil => cases h
  | append_singleton debits last ih =>
    rw [get_grouped_append]
    by_cases hk : l.root debit.scope = l.root last.scope
    · exact ⟨_, if_pos hk⟩
    · rw [if_neg hk]
      refine ih ((List.mem_append.1 h).resolve_right fun hlast => hk ?_)
      rw [List.mem_singleton.1 hlast]

theorem get_chargesOf (groups : OrderedMap CapacityScope Group) (k : CapacityScope) :
    (chargesOf groups).get k = (groups.get k).map Group.amount := by
  rw [chargesOf, OrderedMap.get_filterMap]
  rcases groups.get k with _ | group <;> rfl

/-! ## The check of a request -/

/-- The buckets after a check: their limits may have been narrowed, and nothing else changed. -/
def Narrowed (buckets buckets' : OrderedMap CapacityScope Bucket) : Prop :=
  ∀ k, ∃ f : ℤ → ℤ, (∀ n, 0 ≤ n → 0 ≤ f n) ∧ (∀ n, f n ≤ n) ∧
    buckets'.get k = (buckets.get k).map fun bucket => { bucket with limit := f bucket.limit }

theorem Narrowed.refl (buckets : OrderedMap CapacityScope Bucket) : Narrowed buckets buckets :=
  fun k => ⟨id, fun _ h => h, fun n => le_refl n, by rcases buckets.get k with _ | bucket <;> rfl⟩

theorem Narrowed.trans {a b c : OrderedMap CapacityScope Bucket} (h : Narrowed a b)
    (h' : Narrowed b c) : Narrowed a c := by
  intro k
  obtain ⟨f, hf, hle, hget⟩ := h k
  obtain ⟨f', hf', hle', hget'⟩ := h' k
  refine ⟨f' ∘ f, fun n hn => hf' _ (hf n hn), fun n => (hle' _).trans (hle n), ?_⟩
  rw [hget', hget]
  rcases a.get k with _ | bucket <;> rfl

theorem get_narrowBucket (buckets : OrderedMap CapacityScope Bucket) (scope k : CapacityScope)
    (group : Group) :
    (narrowBucket buckets scope group).get k =
      if k = scope then
        (buckets.get k).map fun bucket => { bucket with limit := min bucket.limit group.limit }
      else buckets.get k := by
  rcases hget : buckets.get scope with _ | bucket
  · rw [narrowBucket, hget]
    by_cases hk : k = scope
    · rw [if_pos hk, hk, hget]
      rfl
    · rw [if_neg hk]
  · rw [narrowBucket, hget]
    show (buckets.set scope _).get k = _
    rw [OrderedMap.get_set]
    by_cases hk : k = scope
    · rw [if_pos hk, if_pos hk, hk, hget]
      rfl
    · rw [if_neg hk, if_neg hk]

theorem narrowed_narrowBucket (buckets : OrderedMap CapacityScope Bucket) (scope : CapacityScope) (hlimit : 0 ≤ group.limit) :
    Narrowed buckets (narrowBucket buckets scope group) := by
  intro k
  rw [get_narrowBucket]
  by_cases hk : k = scope
  · rw [if_pos hk]
    exact ⟨fun n => min n group.limit, fun n hn => le_min hn hlimit, fun n => min_le_left _ _, rfl⟩
  · rw [if_neg hk]
    exact Narrowed.refl buckets k

/-- Narrowing twice is narrowing once: the check of a group reads the same after it. -/
theorem cannotTake_narrow (bucket : Option Bucket) (group : Group) :
    cannotTake (bucket.map fun bucket => { bucket with limit := min bucket.limit group.limit })
      group ↔ cannotTake bucket group := by
  rcases bucket with _ | bucket
  · rfl
  · simp [cannotTake, narrowedLimit]

/-- A check with a debit that waits does not admit. -/
theorem preflight_waiting_ne_admits (groups : List (CapacityScope × Group))
    (buckets : OrderedMap CapacityScope Bucket) (waiting : Option ResourceDebit)
    (hwaiting : waiting.isSome) : (preflight groups buckets waiting).2 ≠ .admits := by
  induction groups generalizing buckets waiting with
  | nil =>
    obtain ⟨debit, rfl⟩ := Option.isSome_iff_exists.1 hwaiting
    nofun
  | cons entry groups ih =>
    obtain ⟨scope, group⟩ := entry
    unfold preflight
    split_ifs
    · refine ih _ _ ?_
      obtain ⟨debit, rfl⟩ := Option.isSome_iff_exists.1 hwaiting
      rfl
    · nofun
    · exact ih _ _ hwaiting

/-- What the check of a request leaves and, when it admits, what it has found. -/
theorem preflight_spec {groups : List (CapacityScope × Group)}
    (hnodup : (groups.map Prod.fst).Nodup) (hlimit : ∀ entry ∈ groups, 0 ≤ entry.2.limit) :
    ∀ (buckets : OrderedMap CapacityScope Bucket) (waiting : Option ResourceDebit),
      Narrowed buckets (preflight groups buckets waiting).1 ∧
      (∀ k, k ∉ groups.map Prod.fst →
        (preflight groups buckets waiting).1.get k = buckets.get k) ∧
      ((preflight groups buckets waiting).2 = .admits →
        ∀ entry ∈ groups, ¬ cannotTake ((preflight groups buckets waiting).1.get entry.1) entry.2) := by
  induction groups with
  | nil =>
    intro buckets waiting
    have hbuckets : (preflight [] buckets waiting).1 = buckets := by rcases waiting <;> rfl
    rw [hbuckets]
    exact ⟨.refl buckets, fun _ _ => rfl, fun _ entry hentry => nomatch hentry⟩
  | cons entry groups ih =>
    intro buckets waiting
    obtain ⟨scope, group⟩ := entry
    rw [List.map_cons, List.nodup_cons] at hnodup
    have hgroup : 0 ≤ group.limit := hlimit _ List.mem_cons_self
    have hnarrow := narrowed_narrowBucket buckets scope hgroup
    have hother : ∀ k, k ∉ ((scope, group) :: groups).map Prod.fst →
        (narrowBucket buckets scope group).get k = buckets.get k := by
      intro k hk
      rw [get_narrowBucket, if_neg fun heq => hk (by rw [heq]; exact List.mem_cons_self)]
    have hrest : ∀ waiting,
        Narrowed buckets (preflight groups (narrowBucket buckets scope group) waiting).1 ∧
        (∀ k, k ∉ ((scope, group) :: groups).map Prod.fst →
          (preflight groups (narrowBucket buckets scope group) waiting).1.get k = buckets.get k) ∧
        ((preflight groups (narrowBucket buckets scope group) waiting).2 = .admits →
          ∀ entry ∈ groups, ¬ cannotTake
            ((preflight groups (narrowBucket buckets scope group) waiting).1.get entry.1) entry.2) ∧
        (cannotTake ((preflight groups (narrowBucket buckets scope group) waiting).1.get scope) group ↔
          cannotTake (buckets.get scope) group) := by
      intro waiting
      obtain ⟨hnarrowed, hkeep, hadmit⟩ :=
        ih hnodup.2 (fun entry hentry => hlimit entry (List.mem_cons_of_mem _ hentry))
          (narrowBucket buckets scope group) waiting
      refine ⟨hnarrow.trans hnarrowed, fun k hk => ?_, hadmit, ?_⟩
      · rw [hkeep k fun hmem => hk (List.mem_cons_of_mem _ hmem), hother k hk]
      · rw [hkeep scope hnodup.1, get_narrowBucket, if_pos rfl]
        exact cannotTake_narrow _ _
    unfold preflight
    by_cases htake : cannotTake (buckets.get scope) group
    · rw [if_pos htake]
      by_cases hwait : mayWait (buckets.get scope) group
      · rw [if_pos hwait]
        obtain ⟨hnarrowed, hkeep, hadmit, -⟩ := hrest (waiting <|> some group.debit)
        refine ⟨hnarrowed, hkeep, fun hverdict => ?_⟩
        exact absurd hverdict (preflight_waiting_ne_admits groups _ _ (by rcases waiting <;> rfl))
      · rw [if_neg hwait]
        exact ⟨hnarrow, hother, fun h => nomatch h⟩
    · rw [if_neg htake]
      obtain ⟨hnarrowed, hkeep, hadmit, hscope⟩ := hrest waiting
      refine ⟨hnarrowed, hkeep, fun hverdict entry hentry => ?_⟩
      rcases List.mem_cons.1 hentry with rfl | hentry
      · exact fun h => htake (hscope.1 h)
      · exact hadmit hverdict entry hentry

theorem get_chargeGroups (parentScope : String) (groups : OrderedMap CapacityScope Group)
    (buckets : OrderedMap CapacityScope Bucket) (k : CapacityScope) :
    (chargeGroups parentScope groups.entries buckets).get k =
      match groups.get k with
      | none => buckets.get k
      | some group => some (chargedBucket parentScope group (buckets.get k)) := by
  rw [chargeGroups, OrderedMap.get_foldl_set
    (f := fun _ group bucket => chargedBucket parentScope group bucket) buckets groups.entries
    groups.nodup k]
  rcases hget : groups.get k with _ | group
  · rw [show groups.entries.lookup k = none from hget]
  · rw [show groups.entries.lookup k = some group from hget]

/-- What is known of a request that passed the first checks. -/
theorem of_not_malformed {identity : ReservationIdentity}
    (h : ¬ malformed id identity debits = true) :
    ∀ debit ∈ debits, isAmount debit.amount = true ∧ isAmount debit.limit = true := by
  intro debit hdebit
  simp only [malformed, Bool.or_eq_true, List.any_eq_true, not_or] at h
  have hany := h.1.2
  constructor
  · by_contra hamount
    exact hany ⟨debit, hdebit, by simp [hamount]⟩
  · by_contra hlimit
    exact hany ⟨debit, hdebit, by simp [hlimit]⟩

section
variable (maxRecords : ℕ) (precedes : CapacityScope → CapacityScope → Bool)

/-- **What a reservation does.**  Unless it is admitted it may only narrow limits; admitted, it finds
room in every bucket, charges each once and is kept under its id. -/
theorem reserve_cases (l : ResourceLedger) (id : String) (identity : ReservationIdentity)
    (debits : List ResourceDebit) :
    (∃ buckets, Narrowed l.buckets buckets ∧
      (l.reserve maxRecords precedes id identity debits).1 = { l with buckets } ∧
      (l.reserve maxRecords precedes id identity debits).2.kind ≠ .admitted) ∨
    (∃ buckets, Narrowed l.buckets buckets ∧
      (∀ debit ∈ debits, isAmount debit.amount = true ∧ isAmount debit.limit = true) ∧
      l.records.get id = none ∧
      (∀ k group, (l.grouped debits).get k = some group → ¬ cannotTake (buckets.get k) group) ∧
      l.reserve maxRecords precedes id identity debits =
        ({ l with
            buckets := chargeGroups identity.parentScope (l.grouped debits).entries buckets
            records := l.records.set id
              { fingerprint := fingerprint precedes identity debits
                identity
                debits
                receipt := l.receipt id .admitted none
                settled := false
                charges := chargesOf (l.grouped debits) } },
          ⟨.admitted, l.receipt id .admitted none⟩)) := by
  unfold reserve
  by_cases hmalformed : malformed id identity debits = true
  · rw [if_pos hmalformed]
    exact .inl ⟨l.buckets, .refl _, rfl, fun h => by cases h⟩
  rw [if_neg hmalformed]
  by_cases hstale : ¬ (debits.map ResourceDebit.scope).Nodup ∨
      ¬ (debits.map ResourceDebit.scope).Perm identity.scopes
  · rw [if_pos hstale]
    exact .inl ⟨l.buckets, .refl _, rfl, fun h => by cases h⟩
  rw [if_neg hstale]
  rcases hrecord : l.records.get id with _ | previous
  · dsimp only
    split_ifs with hfull
    · exact .inl ⟨l.buckets, .refl _, rfl, fun h => by cases h⟩
    have hamounts := of_not_malformed hmalformed
    have hlimits : ∀ entry ∈ (l.grouped debits).entries, 0 ≤ entry.2.limit := by
      intro entry hentry
      refine (groupOf_of_get (OrderedMap.mem_entries.1 hentry)).limit_nonneg fun debit hdebit => ?_
      have := (hamounts debit hdebit).2
      simp only [isAmount, decide_eq_true_eq] at this
      exact this.1
    obtain ⟨hnarrowed, -, hadmit⟩ :=
      preflight_spec (l.grouped debits).nodup hlimits l.buckets none
    rcases hpreflight : preflight (l.grouped debits).entries l.buckets none with ⟨buckets, verdict⟩
    rw [hpreflight] at hnarrowed hadmit
    rcases verdict with _ | debit | debit
    · refine .inr ⟨buckets, hnarrowed, hamounts, rfl, fun k group hgroup => ?_, rfl⟩
      exact hadmit rfl (k, group) (OrderedMap.mem_entries.2 hgroup)
    · exact .inl ⟨buckets, hnarrowed, rfl, fun h => by cases h⟩
    · exact .inl ⟨buckets, hnarrowed, rfl, fun h => by cases h⟩
  · dsimp only
    split_ifs with hsame
    · exact .inl ⟨l.buckets, .refl _, rfl, fun h => by cases h⟩
    · exact .inl ⟨l.buckets, .refl _, rfl, fun h => by cases h⟩

end

/-! ## Settlement -/

/-- The bucket of a class once the loop of `settle` has passed it. -/
def settledAt (l : ResourceLedger) (settledDebits debits : List ResourceDebit) (k : CapacityScope)
    (reserved : ℤ) (bucket : Bucket) : Bucket :=
  settledBucket bucket (l.exceeded settledDebits debits k)
    (nextUsed bucket reserved (settledAmount (l.grouped settledDebits) k reserved))

/-- The loop of `settle` over distinct keys that all have a bucket. -/
theorem foldlM_settleCharge (l : ResourceLedger) (settledDebits debits : List ResourceDebit)
    {charged : List (CapacityScope × ℤ)} (hnodup : (charged.map Prod.fst).Nodup) :
    ∀ (buckets : OrderedMap CapacityScope Bucket) (overrun : Bool),
      (∀ entry ∈ charged, ∃ bucket, buckets.get entry.1 = some bucket) →
      ∃ buckets' overrun',
        charged.foldlM (l.settleCharge settledDebits debits) (buckets, overrun) =
          some (buckets', overrun') ∧
        ∀ k, buckets'.get k =
          match charged.lookup k with
          | none => buckets.get k
          | some reserved => (buckets.get k).map (l.settledAt settledDebits debits k reserved) := by
  induction charged with
  | nil =>
    intro buckets overrun _
    exact ⟨buckets, overrun, rfl, fun _ => rfl⟩
  | cons entry charged ih =>
    intro buckets overrun hbuckets
    obtain ⟨scope, reserved⟩ := entry
    rw [List.map_cons, List.nodup_cons] at hnodup
    obtain ⟨bucket, hbucket⟩ := hbuckets _ List.mem_cons_self
    have hstep : ∃ overrun', l.settleCharge settledDebits debits (buckets, overrun) (scope, reserved) =
        some (buckets.set scope (l.settledAt settledDebits debits scope reserved bucket), overrun') := by
      refine ⟨overrun || l.exceeded settledDebits debits scope || decide (¬ |nextUsed bucket reserved
        (settledAmount (l.grouped settledDebits) scope reserved)| ≤ maxSafeInteger), ?_⟩
      unfold settleCharge
      rw [hbucket]
      rfl
    obtain ⟨overrun', hstep⟩ := hstep
    have hrest : ∀ entry ∈ charged, ∃ bucket', (buckets.set scope
        (l.settledAt settledDebits debits scope reserved bucket)).get entry.1 = some bucket' := by
      intro entry hentry
      have hne : entry.1 ≠ scope := by
        rintro heq
        exact hnodup.1 (List.mem_map.2 ⟨entry, hentry, heq⟩)
      rw [OrderedMap.get_set_ne _ _ hne]
      exact hbuckets entry (List.mem_cons_of_mem _ hentry)
    obtain ⟨buckets', overrun'', hloop, hget⟩ := ih hnodup.2 _ overrun' hrest
    refine ⟨buckets', overrun'', ?_, fun k => ?_⟩
    · rw [List.foldlM_cons, hstep]
      exact hloop
    · rw [hget k, OrderedMap.lookup_cons_eq]
      by_cases hk : k = scope
      · subst hk
        have hnone : charged.lookup k = none := by
          rw [← Option.not_isSome_iff_eq_none, OrderedMap.lookup_isSome_iff]
          exact hnodup.1
        rw [hnone, if_pos rfl, OrderedMap.get_set_self, hbucket]
        rfl
      · rw [if_neg hk, OrderedMap.get_set_ne _ _ hk]

/-- **What a settlement does.**  It changes nothing, or it exchanges in every bucket what the record
was charged for what it came to. -/
theorem settle_cases (l : ResourceLedger) (id : String) (actual : Option (List ResourceDebit))
    (terminated : Bool)
    (hbuckets : ∀ record, l.records.get id = some record → ∀ k reserved,
      (l.charged record.charges).get k = some reserved → ∃ bucket, l.buckets.get k = some bucket) :
    (∃ answer, l.settle id actual terminated = some (l, answer)) ∨
    ∃ record buckets receipt, l.records.get id = some record ∧ record.settled = false ∧
      ¬ actual.any (actualsRejected record) = true ∧
      (∀ k, buckets.get k =
        match (l.charged record.charges).get k with
        | none => l.buckets.get k
        | some reserved => (l.buckets.get k).map
            (l.settledAt (record.debits.map (settledDebit actual terminated)) record.debits k
              reserved)) ∧
      l.settle id actual terminated = some ({ l with
        buckets
        records := l.records.set id
          { record with
            charges := chargesOf (l.grouped (record.debits.map (settledDebit actual terminated)))
            settled := terminated
            receipt } }, some receipt) := by
  unfold settle
  rcases hrecord : l.records.get id with _ | record
  · exact .inl ⟨none, rfl⟩
  dsimp only
  by_cases hsettled : record.settled = true
  · rw [if_pos hsettled]
    exact .inl ⟨_, rfl⟩
  rw [if_neg hsettled]
  by_cases hrejected : actual.any (actualsRejected record) = true
  · rw [if_pos hrejected]
    exact .inl ⟨none, rfl⟩
  rw [if_neg hrejected]
  obtain ⟨buckets, overrun, hloop, hget⟩ := foldlM_settleCharge l
    (record.debits.map (settledDebit actual terminated)) record.debits
    (l.charged record.charges).nodup l.buckets false fun entry hentry =>
      hbuckets record hrecord entry.1 entry.2 (OrderedMap.mem_entries.1 hentry)
  rw [hloop]
  exact .inr ⟨record, buckets, _, rfl, Bool.eq_false_iff.2 hsettled, hrejected, hget, rfl⟩

/-! ## Names, limits and closed tasks -/

/-- **What learning a name does.**  Nothing, or two classes become one under the root of the left. -/
theorem joinAliases_cases (maxRecords : ℕ) (l : ResourceLedger) (left right : CapacityScope) :
    (l.joinAliases maxRecords left right).1 = l ∨
    ∃ hne : l.root left ≠ l.root right, left.bucketKind = right.bucketKind ∧
      |(joinedBucket left (l.buckets.get (l.root left)) (l.buckets.get (l.root right))).used| ≤
        maxSafeInteger ∧
      (l.joinAliases maxRecords left right).1 = l.joined left right hne := by
  unfold joinAliases
  by_cases hvalid : (!left.isValid || !right.isValid || decide (left.dimension ≠ right.dimension) ||
      decide (left.bucketKind ≠ right.bucketKind)) = true
  · rw [if_pos hvalid]
    exact .inl rfl
  rw [if_neg hvalid]
  by_cases hne : l.root left = l.root right
  · rw [dif_pos hne]
    exact .inl rfl
  rw [dif_neg hne]
  by_cases hfull : maxRecords ≤ l.aliases.links.size
  · rw [if_pos hfull]
    exact .inl rfl
  rw [if_neg hfull]
  dsimp only
  by_cases hsafe : |(joinedBucket left (l.buckets.get (l.root left))
      (l.buckets.get (l.root right))).used| ≤ maxSafeInteger
  · rw [if_pos hsafe]
    refine .inr ⟨hne, ?_, hsafe, rfl⟩
    by_contra hkind
    exact hvalid (by simp [hkind])
  · rw [if_neg hsafe]
    exact .inl rfl

theorem root_joined (hne : l.root left ≠ l.root right) (k : CapacityScope) :
    (l.joined left right hne).root k = if l.root k = l.root right then l.root left else l.root k :=
  Aliases.root_join (l.aliases.root_root left) (l.aliases.root_root right) hne k

theorem get_joined (hne : l.root left ≠ l.root right) (k : CapacityScope) :
    (l.joined left right hne).buckets.get k =
      if k = l.root right then none
      else if k = l.root left then
        some (joinedBucket left (l.buckets.get (l.root left)) (l.buckets.get (l.root right)))
      else l.buckets.get k := by
  show OrderedMap.get (OrderedMap.delete _ _) k = _
  rw [OrderedMap.get_delete, OrderedMap.get_set]

/-- What narrowing does: nothing, or it writes the bucket of the scope anew with a lower limit. -/
theorem narrow_cases (l : ResourceLedger) (scope : CapacityScope) (limit : ℤ) (parentScope : String) :
    (l.narrow scope limit parentScope).getD l = l ∨
    (0 ≤ limit ∧ ∃ parentScopes, (l.narrow scope limit parentScope).getD l = { l with
      buckets := l.buckets.set (l.root scope)
        { parentScopes
          scope
          used := ((l.buckets.get (l.root scope)).map Bucket.used).getD 0
          limit := narrowedLimit (l.buckets.get (l.root scope)) limit
          poisoned := (l.buckets.get (l.root scope)).any Bucket.poisoned } }) := by
  unfold narrow
  by_cases hvalid : (!scope.isValid || !isAmount limit) = true
  · rw [if_pos hvalid]
    exact .inl rfl
  · rw [if_neg hvalid]
    refine .inr ⟨?_, _, rfl⟩
    by_contra hneg
    have hamount : isAmount limit = false := decide_eq_false fun h => hneg h.1
    exact hvalid (by simp [hamount])

/-- The bucket under a key once a task is closed. -/
theorem get_closeTask (l : ResourceLedger) (parentScope : String) (k : CapacityScope) :
    (l.closeTask parentScope).buckets.get k = (l.buckets.get k).bind fun bucket =>
      if (!l.referenced (l.openRecords parentScope) k && abandoned bucket parentScope) = true then none
      else some { bucket with parentScopes := withoutParent bucket parentScope } :=
  OrderedMap.get_filterMap _ _ k

/-- The records that stay when a task is closed. -/
theorem get_openRecords {parentScope : String} {record : RecordEntry} :
    (l.openRecords parentScope).get id = some record ↔ l.records.get id = some record ∧
      ¬ (record.identity.parentScope = parentScope ∧ record.settled = true) := by
  rw [openRecords, OrderedMap.get_filterMap]
  rcases l.records.get id with _ | found
  · simp
  · have hkeep : (!(decide (found.identity.parentScope = parentScope) && found.settled)) = true ↔
        ¬ (found.identity.parentScope = parentScope ∧ found.settled = true) := by simp [imp_iff_not_or]
    rw [Option.bind_some, Option.some.injEq]
    by_cases hopen : ¬ (found.identity.parentScope = parentScope ∧ found.settled = true)
    · rw [if_pos (hkeep.2 hopen), Option.some.injEq]
      refine ⟨fun h => ⟨h, ?_⟩, fun h => h.1⟩
      rw [← h]
      exact hopen
    · rw [if_neg fun h => hopen (hkeep.1 h)]
      refine ⟨fun h => (by cases h), fun h => ?_⟩
      rw [h.1] at hopen
      exact absurd h.2 hopen

theorem referenced_iff {records : OrderedMap String RecordEntry} :
    l.referenced records k = true ↔ ∃ id record, records.get id = some record ∧
      ∃ debit ∈ record.debits, l.root debit.scope = k := by
  simp only [referenced, List.any_eq_true, decide_eq_true_eq, Prod.exists, OrderedMap.mem_entries]

end Falryn.Orchestration.ResourceLedger
