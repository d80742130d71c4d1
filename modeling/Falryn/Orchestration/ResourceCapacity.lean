import Falryn.Orchestration.ResourceRuns

/-!
# Capacity is not created

What remains of a shared cumulative capacity when a name is learnt, a limit is narrowed or a task is
closed.  Learning and narrowing never leave more than there was.  Closing a task drops the buckets
whose last name is the task's: when such a bucket also stands for a capacity that is not the task's,
what was used of that is forgotten with it.
-/

namespace Falryn.Orchestration.ResourceLedger

variable {l : ResourceLedger} {lenient : Prop}

/-- A scope of cumulative usage that neither a task nor an agent owns. -/
def Shared (scope : CapacityScope) : Prop :=
  scope.ownerKind ≠ .task ∧ scope.ownerKind ≠ .agent ∧ scope.bucketKind = .cumulative

/-- No shared scope has more left, whatever limit it is asked with. -/
def NoMoreLeft (l l' : ResourceLedger) : Prop :=
  ∀ scope, Shared scope → ∀ limit, l'.remaining scope limit ≤ l.remaining scope limit

/-- A call that learns a name, narrows a limit or closes a task creates no capacity. -/
def CreatesNothing (l : ResourceLedger) (l' : ResourceLedger) : Call → Prop
  | .reserve .. => True
  | .settle .. => True
  | .joinAliases .. => NoMoreLeft l l'
  | .narrow .. => NoMoreLeft l l'
  | .closeTask _ => NoMoreLeft l l'

/-- A call drops no bucket that stands for a shared scope.  Closing a task may drop one only if no
record it leaves debits the bucket, and then only for the bucket's last name: a task's or a child's
that no other task uses, or a conflict's that is idle. -/
def Spares (l : ResourceLedger) : Call → Prop
  | .closeTask parentScope => ∀ scope, Shared scope → ∀ bucket,
      l.buckets.get (l.root scope) = some bucket →
      (∃ id record, l.records.get id = some record ∧
        ¬ (record.identity.parentScope = parentScope ∧ record.settled = true) ∧
        ∃ debit ∈ record.debits, l.root debit.scope = l.root scope) ∨
      abandoned bucket parentScope = false
  | _ => True

/-! ## What is left of a bucket -/

/-- What a bucket leaves of a limit. -/
def leftOf (bucket : Option Bucket) (limit : ℤ) : ℤ :=
  match bucket with
  | none => max 0 limit
  | some bucket => if bucket.poisoned then 0 else max 0 (min limit bucket.limit - bucket.used)

theorem remaining_eq (l : ResourceLedger) (scope : CapacityScope) (limit : ℤ) :
    l.remaining scope limit = leftOf (l.buckets.get (l.root scope)) limit := by
  unfold remaining leftOf
  rcases l.buckets.get (l.root scope) with _ | bucket <;> rfl

theorem leftOf_nonneg (bucket : Option Bucket) (limit : ℤ) : 0 ≤ leftOf bucket limit := by
  rcases bucket with _ | bucket
  · exact le_max_left _ _
  · unfold leftOf
    dsimp only
    split_ifs
    · exact le_refl 0
    · exact le_max_left _ _

/-- A bucket that is poisoned if another is, has used as much and has as low a limit leaves no more. -/
theorem leftOf_mono {old : Option Bucket} {bucket : Bucket} {limit : ℤ}
    (hpoisoned : old.any Bucket.poisoned = true → bucket.poisoned = true)
    (hused : bucket.poisoned = false → (old.map Bucket.used).getD 0 ≤ bucket.used)
    (hlimit : ∀ found, old = some found → bucket.limit ≤ found.limit) :
    leftOf (some bucket) limit ≤ leftOf old limit := by
  rcases hbucket : bucket.poisoned with _ | _
  · have hused := hused hbucket
    have hopen : leftOf (some bucket) limit = max 0 (min limit bucket.limit - bucket.used) := by
      simp [leftOf, hbucket]
    rw [hopen]
    rcases old with _ | found
    · simp only [Option.map_none, Option.getD_none] at hused
      show _ ≤ max 0 limit
      omega
    · have hfound : found.poisoned = false := by
        by_contra htrue
        rw [hpoisoned (by simpa using htrue)] at hbucket
        cases hbucket
      have hle := hlimit found rfl
      simp only [Option.map_some, Option.getD_some] at hused
      have hopen : leftOf (some found) limit = max 0 (min limit found.limit - found.used) := by
        simp [leftOf, hfound]
      rw [hopen]
      omega
  · have hzero : leftOf (some bucket) limit = 0 := by simp [leftOf, hbucket]
    rw [hzero]
    exact leftOf_nonneg old limit

/-! ## The calls -/

/-- A bucket that is not poisoned has not used less than nothing. -/
theorem Accounted.used_getD_nonneg (h : Accounted lenient l) {k : CapacityScope}
    (hpoisoned : (l.buckets.get k).any Bucket.poisoned = false) :
    0 ≤ ((l.buckets.get k).map Bucket.used).getD 0 :=
  (h.total_nonneg k).trans (h.total_le_getD hpoisoned)

/-- Learning a name creates no capacity. -/
theorem Accounted.noMoreLeft_joined (h : Accounted lenient l) {left right : CapacityScope}
    (hne : l.root left ≠ l.root right) : NoMoreLeft l (l.joined left right hne) := by
  intro scope _ limit
  rw [remaining_eq, remaining_eq, root_joined, get_joined]
  have hfirst : ∀ {first second : Option Bucket},
      (joinedBucket left first second).poisoned = false →
        first.any Bucket.poisoned = false ∧ second.any Bucket.poisoned = false := by
    intro first second hclear
    exact Bool.or_eq_false_iff.1 hclear
  by_cases hright : l.root scope = l.root right
  · rw [if_pos hright, if_neg hne, if_pos rfl, hright]
    refine leftOf_mono (fun hpoisoned => by simp [joinedBucket, hpoisoned]) (fun hclear => ?_)
      (fun found hfound => ?_)
    · exact le_add_of_nonneg_left (h.used_getD_nonneg (hfirst hclear).1)
    · rw [hfound]
      exact min_le_right _ _
  · rw [if_neg hright, if_neg hright]
    by_cases hleft : l.root scope = l.root left
    · rw [if_pos hleft, hleft]
      refine leftOf_mono (fun hpoisoned => by simp [joinedBucket, hpoisoned]) (fun hclear => ?_)
        (fun found hfound => ?_)
      · exact le_add_of_nonneg_right (h.used_getD_nonneg (hfirst hclear).2)
      · rw [hfound]
        exact min_le_left _ _
    · rw [if_neg hleft]

/-- Narrowing a limit creates no capacity. -/
theorem noMoreLeft_narrow (l : ResourceLedger) (scope : CapacityScope) (limit : ℤ)
    (parentScope : String) : NoMoreLeft l ((l.narrow scope limit parentScope).getD l) := by
  rcases narrow_cases l scope limit parentScope with hout | ⟨-, parentScopes, hout⟩
  · rw [hout]
    exact fun _ _ _ => le_refl _
  · rw [hout]
    intro asked _ bound
    rw [remaining_eq, remaining_eq]
    show leftOf ((l.buckets.set _ _).get (l.root asked)) bound ≤ _
    rw [OrderedMap.get_set]
    by_cases hsame : l.root asked = l.root scope
    · rw [if_pos hsame, hsame]
      refine leftOf_mono (fun hpoisoned => hpoisoned) (fun _ => le_refl _) (fun _ hfound => ?_)
      rw [hfound]
      exact min_le_left _ _
    · rw [if_neg hsame]

/-- Closing a task creates no capacity exactly when it drops no bucket of a shared scope. -/
theorem Accounted.noMoreLeft_closeTask_iff (h : Accounted lenient l) (parentScope : String) :
    NoMoreLeft l (l.closeTask parentScope) ↔ l.Spares (.closeTask parentScope) := by
  have hget : ∀ scope bucket, l.buckets.get (l.root scope) = some bucket →
      (l.closeTask parentScope).buckets.get (l.root scope) =
        if (!l.referenced (l.openRecords parentScope) (l.root scope) &&
          abandoned bucket parentScope) = true then none
        else some { bucket with parentScopes := withoutParent bucket parentScope } := by
    intro scope bucket hbucket
    rw [get_closeTask, hbucket]
    rfl
  have hreferenced : ∀ scope, l.referenced (l.openRecords parentScope) (l.root scope) = true ↔
      ∃ id record, l.records.get id = some record ∧
        ¬ (record.identity.parentScope = parentScope ∧ record.settled = true) ∧
        ∃ debit ∈ record.debits, l.root debit.scope = l.root scope := by
    intro scope
    rw [referenced_iff]
    simp only [get_openRecords, and_assoc]
  constructor
  · intro hless scope hshared bucket hbucket
    by_contra hdropped
    rw [← hreferenced, not_or] at hdropped
    have hcondition : (!l.referenced (l.openRecords parentScope) (l.root scope) &&
        abandoned bucket parentScope) = true := by
      simpa using hdropped
    have hafter := hget scope bucket hbucket
    rw [if_pos hcondition] at hafter
    -- A limit above the bucket's own shows what the bucket held back.
    have hleft := hless scope hshared (bucket.limit + 1)
    rw [remaining_eq, remaining_eq] at hleft
    rw [show (l.closeTask parentScope).root scope = l.root scope from rfl, hafter, hbucket] at hleft
    have hlimit := (h.bucket hbucket).limit_nonneg
    have hused : bucket.poisoned = false → 0 ≤ bucket.used := by
      intro hclear
      have := h.used_getD_nonneg (k := l.root scope) (by rw [hbucket]; exact hclear)
      rwa [hbucket] at this
    unfold leftOf at hleft
    dsimp only at hleft
    split_ifs at hleft with hpoisoned
    · omega
    · have := hused (Bool.eq_false_iff.2 hpoisoned)
      omega
  · intro hspares scope hshared limit
    rw [remaining_eq, remaining_eq, show (l.closeTask parentScope).root scope = l.root scope from rfl]
    rcases hbucket : l.buckets.get (l.root scope) with _ | bucket
    · rw [get_closeTask, hbucket]
      exact le_refl _
    · have hkept : ¬ (!l.referenced (l.openRecords parentScope) (l.root scope) &&
          abandoned bucket parentScope) = true := by
        rcases hspares scope hshared bucket hbucket with hheld | hnot
        · rw [(hreferenced scope).2 hheld]
          simp
        · rw [hnot]
          simp
      rw [hget scope bucket hbucket, if_neg hkept]
      exact le_refl _

/-! ## Runs -/

section
variable (maxRecords : ℕ) (precedes : CapacityScope → CapacityScope → Bool)

/-- One call creates capacity exactly when it does not spare a shared bucket. -/
theorem Accounted.createsNothing_iff (h : Accounted True l) (call : Call) :
    (∀ l', l.perform maxRecords precedes call = some l' → l.CreatesNothing l' call) ↔
      l.Spares call := by
  rcases call with ⟨id, identity, debits⟩ | ⟨id, actual, terminated⟩ | ⟨left, right⟩ |
    ⟨scope, limit, parentScope⟩ | parentScope
  · exact ⟨fun _ => trivial, fun _ _ _ => trivial⟩
  · exact ⟨fun _ => trivial, fun _ _ _ => trivial⟩
  · refine ⟨fun _ => trivial, fun _ l' hstep => ?_⟩
    cases hstep
    rcases joinAliases_cases maxRecords l left right with hout | ⟨hne, -, -, hout⟩
    · rw [hout]
      exact fun _ _ _ => le_refl _
    · rw [hout]
      exact h.noMoreLeft_joined hne
  · refine ⟨fun _ => trivial, fun _ l' hstep => ?_⟩
    cases hstep
    exact noMoreLeft_narrow l scope limit parentScope
  · rw [← h.noMoreLeft_closeTask_iff]
    constructor
    · exact fun hall => hall _ rfl
    · intro hless l' hstep
      cases hstep
      exact hless

/-- **When capacity is never created.**  On every run, no call that learns a name, narrows a limit or
closes a task leaves more of a shared cumulative capacity exactly when no closed task drops a bucket
that stands for one. -/
theorem capacity_never_created_iff (calls : List Call) :
    StateMachine.Along (perform maxRecords precedes)
        (fun l call => ∀ l', l.perform maxRecords precedes call = some l' → l.CreatesNothing l' call)
        initial calls ↔
      StateMachine.Along (perform maxRecords precedes) Spares initial calls := by
  refine StateMachine.along_congr (I := Accounted True) (fun l call l' h hstep => ?_)
    (fun l call h => h.createsNothing_iff maxRecords precedes call) accounted_initial
  obtain ⟨l'', hstep', h'⟩ := h.perform maxRecords precedes call (.inl trivial)
  rw [hstep] at hstep'
  cases hstep'
  exact h'

end

/-- Four tokens of a provider are used, the provider's scope is learnt to be the task's, and the task
is closed: the four tokens are there again. -/
theorem closed_task_forgets_usage :
    Shared providerTokens ∧
    ∃ l, StateMachine.run (perform 8192 fun _ _ => true) initial
        [.reserve "a" (requestFor "task" providerTokens) [⟨providerTokens, 4, 100⟩],
          .settle "a" none true,
          .joinAliases { providerTokens with ownerKind := .task } providerTokens] = some l ∧
      l.remaining providerTokens 100 = 96 ∧
      (l.closeTask "task").remaining providerTokens 100 = 100 := by
  refine ⟨⟨by decide, by decide, rfl⟩, ?_⟩
  have hrun : ((StateMachine.run (perform 8192 fun _ _ => true) initial
      [.reserve "a" (requestFor "task" providerTokens) [⟨providerTokens, 4, 100⟩],
        .settle "a" none true,
        .joinAliases { providerTokens with ownerKind := .task } providerTokens]).map fun l =>
      (l.remaining providerTokens 100, (l.closeTask "task").remaining providerTokens 100)) =
        some (96, 100) := by
    decide +kernel
  obtain ⟨l, hrun, hleft⟩ := Option.map_eq_some_iff.1 hrun
  rw [Prod.mk.injEq] at hleft
  exact ⟨l, hrun, hleft.1, hleft.2⟩

end Falryn.Orchestration.ResourceLedger
