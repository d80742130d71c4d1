import Falryn.Foundation.JsValue
import Falryn.Foundation.Number
import Falryn.Lib.Aliases
import Falryn.Lib.MapSums
import Falryn.Lib.StateMachine
import Falryn.Orchestration.BudgetLedger

/-!
# Capacity accounting

The ledger of one process (`createResourceLedger`): buckets of used capacity, the names that were
learnt to mean one bucket, and the reservations held.  A scope is its own key, since the canonical
form of a scope determines it; amounts and limits are integers, and a fraction is refused where a
negative number is.  A receipt keeps the scope and the reservation themselves where the code keeps
their digests, and the listeners are left out.
-/

namespace Falryn.Orchestration

/-! ## Scopes, debits and receipts -/

/-- Who owns a shared capacity. -/
inductive OwnerKind where
  | process | task | platform | provider | tool | package | agent
  deriving DecidableEq

/-- What a capacity is measured in (`RESOURCE_DIMENSIONS`). -/
inductive ResourceDimension where
  | operations | requests | attempts | retries | inputTokens | outputTokens | costMicros | cpuMs
  | memoryBytes | networkBytes | bufferedBytes | bufferedItems | processes | descendants
  | artifactBytes | diskBytes | concurrency | wallTimeMs
  deriving DecidableEq

/-- Whether usage only adds up or is given back. -/
inductive BucketKind where
  | cumulative | occupancy
  deriving DecidableEq

/-- A shared capacity scope (`SharedCapacityScopeIdentityV1`). -/
structure CapacityScope where
  ownerKind : OwnerKind
  destination : String
  account : Option String := none
  organization : Option String := none
  project : Option String := none
  workspace : Option String := none
  region : Option String := none
  serviceTier : Option String := none
  family : String
  dimension : ResourceDimension
  bucketKind : BucketKind
  deriving DecidableEq

/-- `segment`: a text of one to 256 code units. -/
def isSegment (text : String) : Bool := decide (1 ≤ utf16Length text ∧ utf16Length text ≤ 256)

/-- `sharedCapacityScopeIdentitySchema`. -/
def CapacityScope.isValid (scope : CapacityScope) : Bool :=
  isSegment scope.destination && scope.account.all isSegment && scope.organization.all isSegment &&
    scope.project.all isSegment && scope.workspace.all isSegment && scope.region.all isSegment &&
    scope.serviceTier.all isSegment && isSegment scope.family

/-- What a reservation is for (`ResourceReservationIdentityV1`). -/
structure ReservationIdentity where
  parentScope : String
  owner : String
  operation : String
  workspaceGeneration : String
  configurationGeneration : String
  attempt : String
  fence : String
  scopes : List CapacityScope
  deriving DecidableEq

/-- `resourceReservationIdentitySchema`. -/
def ReservationIdentity.isValid (identity : ReservationIdentity) : Bool :=
  isSegment identity.parentScope && isSegment identity.owner && isSegment identity.operation &&
    isSegment identity.workspaceGeneration && isSegment identity.configurationGeneration &&
    isSegment identity.attempt && isSegment identity.fence &&
    decide (1 ≤ identity.scopes.length ∧ identity.scopes.length ≤ 128) &&
    identity.scopes.all CapacityScope.isValid

/-- An amount of a capacity and the limit the caller declares for it. -/
structure ResourceDebit where
  scope : CapacityScope
  amount : ℤ
  limit : ℤ
  deriving DecidableEq

/-- A safe integer that is not negative. -/
def isAmount (n : ℤ) : Bool := decide (0 ≤ n ∧ n ≤ maxSafeInteger)

/-- `ADMISSION_STATES`. -/
inductive AdmissionState where
  | admitted | queued | limitExceeded | admissionTimeout | cancelled | staleGeneration
  | authorityDenied | quotaUnknown | uncertainAfterInterruption | shutdown
  deriving DecidableEq

/-- What a caller is told of a reservation. -/
structure AdmissionReceipt where
  state : AdmissionState
  reservation : String
  scope : Option CapacityScope
  dimension : Option ResourceDimension
  acquired : Bool
  released : Bool
  uncertain : Bool

/-- How a reservation was decided. -/
inductive DecisionKind where
  | admitted | replay | queued | refused

/-- The answer to a reservation. -/
structure ReservationDecision where
  kind : DecisionKind
  receipt : AdmissionReceipt

/-! ## The ledger -/

/-- The usage of one class of names. -/
structure Bucket where
  /-- The tasks that use the bucket, if it keeps them. -/
  parentScopes : Option (Finset String)
  /-- The name the bucket was last written under. -/
  scope : CapacityScope
  used : ℤ
  limit : ℤ
  poisoned : Bool

/-- What two requests under one id are compared by. -/
structure Fingerprint where
  identity : ReservationIdentity
  debits : List ResourceDebit
  deriving DecidableEq

/-- An admitted reservation. -/
structure RecordEntry where
  fingerprint : Fingerprint
  identity : ReservationIdentity
  debits : List ResourceDebit
  receipt : AdmissionReceipt
  settled : Bool
  /-- What it is charged, by the root each name had when it was charged. -/
  charges : OrderedMap CapacityScope ℤ

/-- The state of the ledger. -/
structure ResourceLedger where
  buckets : OrderedMap CapacityScope Bucket
  aliases : Aliases CapacityScope
  records : OrderedMap String RecordEntry

namespace ResourceLedger

/-- A ledger nothing was asked of yet. -/
def initial : ResourceLedger := ⟨.empty, .empty, .empty⟩

/-- The bucket key of a scope: the root of its class. -/
def root (l : ResourceLedger) (scope : CapacityScope) : CapacityScope := l.aliases.root scope

/-- The receipt of a request, about one of its debits. -/
def receipt (l : ResourceLedger) (id : String) (state : AdmissionState)
    (debit : Option ResourceDebit) : AdmissionReceipt where
  state
  reservation := id
  scope := debit.map fun debit => l.root debit.scope
  dimension := debit.map fun debit => debit.scope.dimension
  acquired := decide (state = .admitted)
  released := false
  uncertain := decide (state = .uncertainAfterInterruption)

/-- The debits of one class of names taken together. -/
structure Group where
  amount : ℤ
  limit : ℤ
  debit : ResourceDebit

/-- A debit joined to the debits of its class: two names of one class describe one usage. -/
def Group.add (previous : Option Group) (debit : ResourceDebit) : Group where
  amount := max ((previous.map Group.amount).getD 0) debit.amount
  limit := min ((previous.map Group.limit).getD maxSafeInteger) debit.limit
  debit

/-- `grouped`: the debits by class. -/
def grouped (l : ResourceLedger) (debits : List ResourceDebit) : OrderedMap CapacityScope Group :=
  debits.foldl (fun groups debit =>
    groups.set (l.root debit.scope) (Group.add (groups.get (l.root debit.scope)) debit)) .empty

/-! ## `reserve` -/

/-- Whether the request is malformed. -/
def malformed (id : String) (identity : ReservationIdentity) (debits : List ResourceDebit) : Bool :=
  !identity.isValid || debits.isEmpty || decide (128 < debits.length) ||
    debits.any (fun debit =>
      !debit.scope.isValid || !isAmount debit.amount || !isAmount debit.limit) ||
    decide (utf16Length id = 0 ∨ 256 < utf16Length id)

/-- The request in canonical form: scopes and debits in the order of `localeCompare` on the keys. -/
def fingerprint (precedes : CapacityScope → CapacityScope → Bool) (identity : ReservationIdentity)
    (debits : List ResourceDebit) : Fingerprint where
  identity := { identity with scopes := identity.scopes.mergeSort precedes }
  debits := debits.mergeSort fun a b => precedes a.scope b.scope

/-- How the check of the groups against the buckets ends. -/
inductive Verdict where
  | admits
  | queue (debit : ResourceDebit)
  | refuse (debit : ResourceDebit)

/-- The limit a group leaves on a bucket. -/
def narrowedLimit (bucket : Option Bucket) (limit : ℤ) : ℤ :=
  min ((bucket.map Bucket.limit).getD limit) limit

/-- Whether a bucket cannot take a group now. -/
def cannotTake (bucket : Option Bucket) (group : Group) : Prop :=
  bucket.any Bucket.poisoned = true ∨
    narrowedLimit bucket group.limit - (bucket.map Bucket.used).getD 0 < group.amount

instance (bucket : Option Bucket) (group : Group) : Decidable (cannotTake bucket group) :=
  inferInstanceAs (Decidable (_ ∨ _))

/-- Whether a bucket that cannot take a group now may take it later. -/
def mayWait (bucket : Option Bucket) (group : Group) : Prop :=
  bucket.any Bucket.poisoned = false ∧ group.amount ≤ narrowedLimit bucket group.limit ∧
    group.debit.scope.bucketKind = .occupancy

instance (bucket : Option Bucket) (group : Group) : Decidable (mayWait bucket group) :=
  inferInstanceAs (Decidable (_ ∧ _ ∧ _))

/-- A newer declaration narrows a bucket that is there, even while it is busy. -/
def narrowBucket (buckets : OrderedMap CapacityScope Bucket) (scope : CapacityScope) (group : Group) :
    OrderedMap CapacityScope Bucket :=
  match buckets.get scope with
  | none => buckets
  | some bucket =>
    buckets.set scope { bucket with limit := narrowedLimit (some bucket) group.limit }

/-- The first loop of `reserve`: every group against its bucket, up to the first refusal. -/
def preflight : List (CapacityScope × Group) → OrderedMap CapacityScope Bucket →
    Option ResourceDebit → OrderedMap CapacityScope Bucket × Verdict
  | [], buckets, none => (buckets, .admits)
  | [], buckets, some debit => (buckets, .queue debit)
  | (scope, group) :: groups, buckets, waiting =>
    if cannotTake (buckets.get scope) group then
      if mayWait (buckets.get scope) group then
        preflight groups (narrowBucket buckets scope group) (waiting <|> some group.debit)
      else (narrowBucket buckets scope group, .refuse group.debit)
    else preflight groups (narrowBucket buckets scope group) waiting

/-- The bucket of a group that is admitted.  Only a bucket written under a task's or an agent's name
keeps the tasks that use it. -/
def chargedBucket (parentScope : String) (group : Group) (bucket : Option Bucket) : Bucket where
  parentScopes :=
    if group.debit.scope.ownerKind = .task ∨ group.debit.scope.ownerKind = .agent then
      some (insert parentScope ((bucket.bind Bucket.parentScopes).getD ∅))
    else none
  scope := group.debit.scope
  used := (bucket.map Bucket.used).getD 0 + group.amount
  limit := narrowedLimit bucket group.limit
  poisoned := false

/-- The second loop of `reserve`: every group is charged. -/
def chargeGroups (parentScope : String) (groups : List (CapacityScope × Group))
    (buckets : OrderedMap CapacityScope Bucket) : OrderedMap CapacityScope Bucket :=
  groups.foldl (fun buckets entry =>
    buckets.set entry.1 (chargedBucket parentScope entry.2 (buckets.get entry.1))) buckets

/-- What each class of a request is charged. -/
def chargesOf (groups : OrderedMap CapacityScope Group) : OrderedMap CapacityScope ℤ :=
  groups.filterMap fun _ group => some group.amount

section
variable (maxRecords : ℕ) (precedes : CapacityScope → CapacityScope → Bool)

def reserve (l : ResourceLedger) (id : String) (identity : ReservationIdentity)
    (debits : List ResourceDebit) : ResourceLedger × ReservationDecision :=
  if malformed id identity debits then (l, ⟨.refused, l.receipt id .quotaUnknown none⟩)
  -- The two sorted lists of keys are compared: equal exactly for a rearrangement.
  else if ¬ (debits.map ResourceDebit.scope).Nodup ∨
      ¬ (debits.map ResourceDebit.scope).Perm identity.scopes then
    (l, ⟨.refused, l.receipt id .staleGeneration none⟩)
  else
    match l.records.get id with
    | some previous =>
      if previous.fingerprint = fingerprint precedes identity debits then
        (l, ⟨.replay, previous.receipt⟩)
      else (l, ⟨.refused, l.receipt id .staleGeneration none⟩)
    | none =>
      if maxRecords ≤ l.records.size ∨ maxRecords * 16 < l.buckets.size + debits.length then
        (l, ⟨.refused, l.receipt id .limitExceeded none⟩)
      else
        let groups := l.grouped debits
        match preflight groups.entries l.buckets none with
        | (buckets, .refuse debit) =>
          ({ l with buckets }, ⟨.refused, l.receipt id .limitExceeded (some debit)⟩)
        | (buckets, .queue debit) =>
          ({ l with buckets }, ⟨.queued, l.receipt id .queued (some debit)⟩)
        | (buckets, .admits) =>
          ({ l with
              buckets := chargeGroups identity.parentScope groups.entries buckets
              records := l.records.set id
                { fingerprint := fingerprint precedes identity debits
                  identity
                  debits
                  receipt := l.receipt id .admitted none
                  settled := false
                  charges := chargesOf groups } },
            ⟨.admitted, l.receipt id .admitted none⟩)

end

/-! ## `settle` -/

/-- What was really used, by scope. -/
def actualByKey (actual : Option (List ResourceDebit)) : OrderedMap CapacityScope ℤ :=
  (actual.getD []).foldl (fun amounts debit => amounts.set debit.scope debit.amount) .empty

/-- Whether the actual amounts are not those of the record's scopes. -/
def actualsRejected (record : RecordEntry) (actual : List ResourceDebit) : Bool :=
  decide (actual.length ≠ record.debits.length) ||
    decide ((actualByKey (some actual)).size ≠ record.debits.length) ||
    actual.any fun debit => !isAmount debit.amount ||
      !record.debits.any fun reserved => decide (reserved.scope = debit.scope)

/-- What a debit comes to.  Occupancy is given back only once termination is proven; usage nobody
reported counts as all that was reserved. -/
def settledDebit (actual : Option (List ResourceDebit)) (terminated : Bool) (debit : ResourceDebit) :
    ResourceDebit :=
  { debit with
    amount :=
      if debit.scope.bucketKind = .occupancy then if terminated then 0 else debit.amount
      else ((actualByKey actual).get debit.scope).getD debit.amount }

/-- What a record is charged under the roots of now. -/
def charged (l : ResourceLedger) (charges : OrderedMap CapacityScope ℤ) :
    OrderedMap CapacityScope ℤ :=
  charges.entries.foldl (fun charged entry =>
    charged.set (l.root entry.1) (toNumber ((charged.get (l.root entry.1)).getD 0 + entry.2))) .empty

/-- The usage of a bucket with one charge exchanged for another. -/
def nextUsed (bucket : Bucket) (reserved used : ℤ) : ℤ :=
  toNumber (toNumber (bucket.used - reserved) + used)

/-- Whether some debit of a class came to more than was reserved for it. -/
def exceeded (l : ResourceLedger) (settledDebits debits : List ResourceDebit)
    (scope : CapacityScope) : Bool :=
  (settledDebits.zip debits).any fun pair =>
    decide (l.root pair.1.scope = scope ∧ pair.2.amount < pair.1.amount)

/-- A bucket after one of its charges is settled. -/
def settledBucket (bucket : Bucket) (exceeded : Bool) (next : ℤ) : Bucket :=
  if |next| ≤ maxSafeInteger then
    { bucket with poisoned := bucket.poisoned || exceeded, used := next }
  else { bucket with poisoned := true }

/-- What a class comes to when its record is settled. -/
def settledAmount (groups : OrderedMap CapacityScope Group) (scope : CapacityScope) (reserved : ℤ) :
    ℤ :=
  ((groups.get scope).map Group.amount).getD reserved

/-- One turn of the loop of `settle`; `none` is the thrown "missing admitted capacity". -/
def settleCharge (l : ResourceLedger) (settledDebits debits : List ResourceDebit)
    (state : OrderedMap CapacityScope Bucket × Bool) (entry : CapacityScope × ℤ) :
    Option (OrderedMap CapacityScope Bucket × Bool) :=
  match state.1.get entry.1 with
  | none => none
  | some bucket =>
    let next := nextUsed bucket entry.2 (settledAmount (l.grouped settledDebits) entry.1 entry.2)
    let exceeded := l.exceeded settledDebits debits entry.1
    some (state.1.set entry.1 (settledBucket bucket exceeded next),
      state.2 || exceeded || decide (¬ |next| ≤ maxSafeInteger))

/-- `settle`: the ledger after it and what it returns; `none` when it throws. -/
def settle (l : ResourceLedger) (id : String) (actual : Option (List ResourceDebit))
    (terminated : Bool) : Option (ResourceLedger × Option AdmissionReceipt) :=
  match l.records.get id with
  | none => some (l, none)
  | some record =>
    if record.settled then some (l, some record.receipt)
    else if actual.any (actualsRejected record) then some (l, none)
    else
      let settledDebits := record.debits.map (settledDebit actual terminated)
      match (l.charged record.charges).entries.foldlM (l.settleCharge settledDebits record.debits)
          (l.buckets, false) with
      | none => none
      | some (buckets, overrun) =>
        let receipt : AdmissionReceipt :=
          { record.receipt with
            state :=
              if overrun then .limitExceeded
              else if terminated then .admitted
              else .uncertainAfterInterruption
            released := terminated
            uncertain := !terminated }
        some ({ l with
            buckets
            records := l.records.set id
              { record with
                charges := chargesOf (l.grouped settledDebits)
                settled := terminated
                receipt } },
          some receipt)

/-! ## Names and limits -/

/-- The bucket of two classes joined under the name `left`. -/
def joinedBucket (left : CapacityScope) (first second : Option Bucket) : Bucket where
  parentScopes :=
    some ((first.bind Bucket.parentScopes).getD ∅ ∪ (second.bind Bucket.parentScopes).getD ∅)
  scope := left
  used := (first.map Bucket.used).getD 0 + (second.map Bucket.used).getD 0
  limit := min ((first.map Bucket.limit).getD maxSafeInteger)
    ((second.map Bucket.limit).getD maxSafeInteger)
  poisoned := first.any Bucket.poisoned || second.any Bucket.poisoned

/-- The ledger with the class of `right` joined to the class of `left`. -/
def joined (l : ResourceLedger) (left right : CapacityScope) (hne : l.root left ≠ l.root right) :
    ResourceLedger :=
  { l with
    aliases := l.aliases.join (l.root left) (l.root right) (l.aliases.root_root left)
      (l.aliases.root_root right) hne
    buckets := (l.buckets.set (l.root left) (joinedBucket left (l.buckets.get (l.root left))
      (l.buckets.get (l.root right)))).delete (l.root right) }

def joinAliases (maxRecords : ℕ) (l : ResourceLedger) (left right : CapacityScope) :
    ResourceLedger × Bool :=
  if !left.isValid || !right.isValid || decide (left.dimension ≠ right.dimension) ||
      decide (left.bucketKind ≠ right.bucketKind) then (l, false)
  else if hne : l.root left = l.root right then (l, true)
  else if maxRecords ≤ l.aliases.links.size then (l, false)
  else
    let joined := joinedBucket left (l.buckets.get (l.root left)) (l.buckets.get (l.root right))
    if |joined.used| ≤ maxSafeInteger then (l.joined left right hne, true) else (l, false)

def remaining (l : ResourceLedger) (scope : CapacityScope) (limit : ℤ) : ℤ :=
  match l.buckets.get (l.root scope) with
  | none => max 0 limit
  | some bucket =>
    if bucket.poisoned then 0 else max 0 (min limit bucket.limit - bucket.used)

/-- `narrow`; `none` when it throws "invalid resource limit". -/
def narrow (l : ResourceLedger) (scope : CapacityScope) (limit : ℤ) (parentScope : String) :
    Option ResourceLedger :=
  if !scope.isValid || !isAmount limit then none
  else
    let bucket := l.buckets.get (l.root scope)
    some { l with
      buckets := l.buckets.set (l.root scope)
        { parentScopes := some (insert parentScope ((bucket.bind Bucket.parentScopes).getD ∅))
          scope
          used := (bucket.map Bucket.used).getD 0
          limit := narrowedLimit bucket limit
          poisoned := bucket.any Bucket.poisoned } }

/-! ## `closeTask` -/

/-- The records a closed task leaves. -/
def openRecords (l : ResourceLedger) (parentScope : String) : OrderedMap String RecordEntry :=
  l.records.filterMap fun _ record =>
    if !(decide (record.identity.parentScope = parentScope) && record.settled) then some record
    else none

/-- Whether one of the records debits the bucket under a key. -/
def referenced (l : ResourceLedger) (records : OrderedMap String RecordEntry)
    (scope : CapacityScope) : Bool :=
  records.entries.any fun entry => entry.2.debits.any fun debit => decide (l.root debit.scope = scope)

/-- The tasks that use a bucket, without one of them. -/
def withoutParent (bucket : Bucket) (parentScope : String) : Option (Finset String) :=
  bucket.parentScopes.map fun scopes => scopes.erase parentScope

/-- Whether a bucket that no record debits is dropped when a task closes. -/
def abandoned (bucket : Bucket) (parentScope : String) : Bool :=
  (decide (bucket.scope.ownerKind = .task ∨
      (bucket.scope.ownerKind = .agent ∧ bucket.scope.family = "child")) &&
      decide (withoutParent bucket parentScope = some ∅)) ||
    decide (bucket.used = 0 ∧ "conflict:".toList <+: bucket.scope.family.toList)

def closeTask (l : ResourceLedger) (parentScope : String) : ResourceLedger :=
  let records := l.openRecords parentScope
  { l with
    records
    buckets := l.buckets.filterMap fun scope bucket =>
      if !l.referenced records scope && abandoned bucket parentScope then none
      else some { bucket with parentScopes := withoutParent bucket parentScope } }

/-! ## Calls in sequence -/

/-- A call that may change the ledger. -/
inductive Call where
  | reserve (id : String) (identity : ReservationIdentity) (debits : List ResourceDebit)
  | settle (id : String) (actual : Option (List ResourceDebit)) (terminated : Bool)
  | joinAliases (left right : CapacityScope)
  | narrow (scope : CapacityScope) (limit : ℤ) (parentScope : String)
  | closeTask (parentScope : String)

section
variable (maxRecords : ℕ) (precedes : CapacityScope → CapacityScope → Bool)

/-- The ledger after a call; `none` when `settle` finds no bucket for what it admitted.  A limit that
`narrow` does not accept is thrown before anything changes. -/
def perform (l : ResourceLedger) : Call → Option ResourceLedger
  | .reserve id identity debits => some (l.reserve maxRecords precedes id identity debits).1
  | .settle id actual terminated => (l.settle id actual terminated).map Prod.fst
  | .joinAliases left right => some (l.joinAliases maxRecords left right).1
  | .narrow scope limit parentScope => some ((l.narrow scope limit parentScope).getD l)
  | .closeTask parentScope => some (l.closeTask parentScope)

end

end ResourceLedger
end Falryn.Orchestration
