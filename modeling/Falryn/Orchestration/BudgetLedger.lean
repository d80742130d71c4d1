import Falryn.Foundation.Result
import Falryn.Orchestration.Work

/-!
# The budget ledger

Hierarchical budgets (`application/orchestration/budget-ledger.ts`).  A reservation is taken against
a budget and every ancestor of it, after the whole chain was found to have room, and is closed by
`consume` or by `release`.

Amounts come in as arbitrary numbers and are checked; what the ledger stores is whole numbers.
-/

namespace Falryn.Orchestration

/-- `Number.MAX_SAFE_INTEGER`. -/
def maxSafeInteger : ℤ := 2 ^ 53 - 1

def isSafeInteger (q : ℚ) : Bool := decide (q.den = 1 ∧ |q.num| ≤ maxSafeInteger)

/-- `BUDGET_DIMENSIONS`. -/
def budgetDimensions : List BudgetDimension := [.timeMs, .costMicros, .tokens, .bytes, .operations]

theorem mem_budgetDimensions (d : BudgetDimension) : d ∈ budgetDimensions := by
  cases d <;> decide

/-- Amounts as a caller gives them; a dimension may be left out.  What is no finite number is refused
where a fraction is. -/
abbrev BudgetAmounts := BudgetDimension → Option ℚ

/-- Limits, where `none` is no limit. -/
abbrev BudgetLimits := BudgetDimension → Option ℤ

/-- `MAX_BUDGET_DEPTH`. -/
def maxBudgetDepth : ℕ := 16

structure BudgetNode where
  budgetId : String
  parentId : Option String
  depth : ℕ
  limits : BudgetLimits
  reserved : BudgetDimension → ℤ
  consumed : BudgetDimension → ℤ

/-- A reservation and the chain of budgets it was applied to, nearest first. -/
structure Reservation where
  reservationId : String
  budgetId : String
  chain : List String
  amounts : BudgetDimension → ℤ
  isOpen : Bool

inductive BudgetError where
  | unknownBudget (budgetId : String)
  | unknownReservation (reservationId : String)
  | duplicateBudget (budgetId : String)
  | duplicateReservation (reservationId : String)
  | accountingOverflow (budgetId : String) (dimension : BudgetDimension) (remaining : ℤ)
  | nonIntegerAmount (dimension : BudgetDimension)
  | negativeAmount (dimension : BudgetDimension)
  | budgetExhausted (budgetId : String) (dimension : BudgetDimension) (requested remaining : ℤ)
  | overConsumption (dimension : BudgetDimension) (reserved requested : ℤ)
  | budgetDepthExceeded (maximumDepth : ℕ)

/-- The two maps of a ledger, in insertion order. -/
structure BudgetLedger where
  nodes : List BudgetNode
  reservations : List Reservation

/-- `createBudgetLedger`. -/
def BudgetLedger.empty : BudgetLedger := ⟨[], []⟩

/-! ## Amounts -/

/-- `validateAmounts`: the first dimension that is not a safe integer, or is negative. -/
def validateAmounts (amounts : BudgetAmounts) : Except BudgetError Unit :=
  budgetDimensions.forM fun dimension =>
    match amounts dimension with
    | none => .ok ()
    | some amount =>
      if isSafeInteger amount = false then .error (.nonIntegerAmount dimension)
      else if amount < 0 then .error (.negativeAmount dimension)
      else .ok ()

def filled (amounts : BudgetAmounts) (dimension : BudgetDimension) : ℤ :=
  ((amounts dimension).getD 0).num

namespace BudgetLedger

variable (ledger : BudgetLedger)

def node? (budgetId : String) : Option BudgetNode :=
  ledger.nodes.find? fun node => node.budgetId = budgetId

def reservation? (reservationId : String) : Option Reservation :=
  ledger.reservations.find? fun reservation => reservation.reservationId = reservationId

/-- `chainOf`.  A parent was created before its child, so a chain is never longer than the map. -/
def chainOf (budgetId : String) : List BudgetNode :=
  go ledger.nodes.length (ledger.node? budgetId)
where
  go : ℕ → Option BudgetNode → List BudgetNode
    | 0, _ => []
    | _ + 1, none => []
    | fuel + 1, some node => node :: go fuel (node.parentId.bind ledger.node?)

end BudgetLedger

def remainingIn (node : BudgetNode) (dimension : BudgetDimension) : Option ℤ :=
  (node.limits dimension).map fun limit => limit - node.reserved dimension - node.consumed dimension

/-- `narrowLimits`: the tighter limit wins, and a limited parent limits an unlimited child. -/
def narrowLimits (inherited requested : BudgetLimits) : BudgetLimits := fun dimension =>
  match inherited dimension, requested dimension with
  | none, child => child
  | some parent, none => some parent
  | some parent, some child => some (min parent child)

/-- The preflight check of `reserve` at one dimension of one budget. -/
def preflight (node : BudgetNode) (requested : BudgetDimension → ℤ) (dimension : BudgetDimension) :
    Except BudgetError Unit :=
  match remainingIn node dimension with
  | some remaining =>
    if requested dimension > remaining then
      .error (.budgetExhausted node.budgetId dimension (requested dimension) remaining)
    else overflow
  | none => overflow
where
  overflow : Except BudgetError Unit :=
    let safeRemaining := maxSafeInteger - node.reserved dimension - node.consumed dimension
    if requested dimension > safeRemaining then
      .error (.accountingOverflow node.budgetId dimension safeRemaining)
    else .ok ()

/-! ## Operations -/

namespace BudgetLedger

def createRoot (ledger : BudgetLedger) (budgetId : String) (limits : BudgetAmounts) :
    Except BudgetError BudgetLedger := do
  refuseIf ((ledger.node? budgetId).isSome = true) (.duplicateBudget budgetId)
  validateAmounts limits
  return { ledger with
    nodes := ledger.nodes ++
      [⟨budgetId, none, 0, fun d => (limits d).map Rat.num, fun _ => 0, fun _ => 0⟩] }

def createChild (ledger : BudgetLedger) (parentId budgetId : String) (limits : BudgetAmounts) :
    Except BudgetError BudgetLedger := do
  match ledger.node? parentId with
  | none => .error (.unknownBudget parentId)
  | some parent =>
    refuseIf ((ledger.node? budgetId).isSome = true) (.duplicateBudget budgetId)
    refuseIf (parent.depth + 1 > maxBudgetDepth) (.budgetDepthExceeded maxBudgetDepth)
    validateAmounts limits
    return { ledger with
      nodes := ledger.nodes ++
        [⟨budgetId, some parentId, parent.depth + 1,
          narrowLimits parent.limits fun d => (limits d).map Rat.num, fun _ => 0, fun _ => 0⟩] }

def reserve (ledger : BudgetLedger) (budgetId reservationId : String) (amounts : BudgetAmounts) :
    Except BudgetError BudgetLedger := do
  validateAmounts amounts
  refuseIf ((ledger.node? budgetId).isNone = true) (.unknownBudget budgetId)
  refuseIf ((ledger.reservation? reservationId).isSome = true) (.duplicateReservation reservationId)
  let requested := filled amounts
  let chain := (ledger.chainOf budgetId).map BudgetNode.budgetId
  (ledger.chainOf budgetId).forM fun node => budgetDimensions.forM (preflight node requested)
  return {
    nodes := ledger.nodes.map fun node =>
      if node.budgetId ∈ chain then
        { node with reserved := fun d => node.reserved d + requested d }
      else node
    reservations := ledger.reservations ++ [⟨reservationId, budgetId, chain, requested, true⟩] }

/-- The end of a reservation: every budget of its chain gets the reserved amounts back, and what was
used is charged. -/
def close (ledger : BudgetLedger) (reservation : Reservation) (used : BudgetDimension → ℤ) :
    BudgetLedger where
  nodes := ledger.nodes.map fun node =>
    if node.budgetId ∈ reservation.chain then
      { node with
        reserved := fun d => node.reserved d - reservation.amounts d
        consumed := fun d => node.consumed d + used d }
    else node
  reservations := ledger.reservations.map fun r =>
    if r.reservationId = reservation.reservationId then { r with isOpen := false } else r

def consume (ledger : BudgetLedger) (reservationId : String) (actual : BudgetAmounts) :
    Except BudgetError BudgetLedger := do
  validateAmounts actual
  match ledger.reservation? reservationId with
  | none => .error (.unknownReservation reservationId)
  | some reservation =>
    refuseIf (reservation.isOpen = false) (.unknownReservation reservationId)
    budgetDimensions.forM fun dimension =>
      if filled actual dimension > reservation.amounts dimension then
        .error (.overConsumption dimension (reservation.amounts dimension)
          (filled actual dimension))
      else .ok ()
    return ledger.close reservation (filled actual)

/-- `release`.  Closing twice is safe. -/
def release (ledger : BudgetLedger) (reservationId : String) : Except BudgetError BudgetLedger :=
  match ledger.reservation? reservationId with
  | none => .error (.unknownReservation reservationId)
  | some reservation =>
    if reservation.isOpen = false then .ok ledger
    else .ok (ledger.close reservation fun _ => 0)

/-- Whether a reservation is still open. -/
def IsOpen (ledger : BudgetLedger) (reservationId : String) : Prop :=
  ∃ r, ledger.reservation? reservationId = some r ∧ r.isOpen = true

/-! ## What the operations do to a reservation -/

variable {ledger ledger' : BudgetLedger}

variable {budgetId reservationId : String} {amounts : BudgetAmounts}

theorem reserve_ok (h : ledger.reserve budgetId reservationId amounts = .ok ledger') :
    validateAmounts amounts = .ok () ∧ ledger.reservation? reservationId = none
      ∧ ∃ chain, ledger'.reservations
        = ledger.reservations ++ [⟨reservationId, budgetId, chain, filled amounts, true⟩] := by
  simp only [reserve, except_bind_ok, refuseIf_ok, exists_const, except_pure_ok] at h
  obtain ⟨_, hvalid, -, hnew, _, -, rfl⟩ := h
  exact ⟨hvalid, by simpa using hnew, _, rfl⟩

/-- A new reservation can be read back, and no other one is touched. -/
theorem reserve_reservation? (h : ledger.reserve budgetId reservationId amounts = .ok ledger') :
    (∃ r, ledger'.reservation? reservationId = some r ∧ r.isOpen = true
        ∧ r.amounts = filled amounts)
      ∧ ∀ id, id ≠ reservationId → ledger'.reservation? id = ledger.reservation? id := by
  obtain ⟨-, hnew, chain, hres⟩ := reserve_ok h
  refine ⟨⟨⟨reservationId, budgetId, chain, filled amounts, true⟩, ?_, rfl, rfl⟩, fun id hid => ?_⟩
  · rw [reservation?] at hnew ⊢
    rw [hres, List.find?_append, hnew]
    simp
  · rw [reservation?, reservation?, hres, List.find?_append]
    simp [Ne.symm hid]

theorem close_reservation? (ledger : BudgetLedger) (reservation : Reservation)
    (used : BudgetDimension → ℤ) (id : String) :
    (ledger.close reservation used).reservation? id
      = (ledger.reservation? id).map fun r =>
          if r.reservationId = reservation.reservationId then { r with isOpen := false } else r := by
  rw [reservation?, reservation?, close, List.find?_map]
  congr 1
  refine congrArg (fun p => List.find? p ledger.reservations) (funext fun r => ?_)
  simp only [Function.comp_apply]
  split <;> rfl

variable {id : String}

theorem reservation?_id {r : Reservation} (h : ledger.reservation? id = some r) :
    r.reservationId = id := by
  have := List.find?_some h
  simpa using this

variable {reservation : Reservation} {limits : BudgetAmounts}

/-- A closed reservation is not open, and every other one is as it was. -/
theorem close_spec (h : ledger.reservation? id = some reservation) (used : BudgetDimension → ℤ) :
    ¬ (ledger.close reservation used).IsOpen id
      ∧ ∀ id', id' ≠ id →
        (ledger.close reservation used).reservation? id' = ledger.reservation? id' := by
  have hid := reservation?_id h
  constructor
  · rintro ⟨r, hr, hopen⟩
    rw [close_reservation?, h, Option.map_some, if_pos rfl] at hr
    cases hr
    cases hopen
  · intro id' hne
    rw [close_reservation?]
    cases hr : ledger.reservation? id' with
    | none => rfl
    | some r =>
      have hr' := reservation?_id hr
      rw [Option.map_some, if_neg]
      rw [hr', hid]
      exact hne

/-- **Consuming exactly what was reserved closes the reservation.** -/
theorem consume_reserved
    (h : ledger.reservation? id = some reservation) (hopen : reservation.isOpen = true)
    (hvalid : validateAmounts amounts = .ok ()) (ham : reservation.amounts = filled amounts) :
    ledger.consume id amounts = .ok (ledger.close reservation (filled amounts)) := by
  have hdim : budgetDimensions.forM (fun dimension =>
      if filled amounts dimension > reservation.amounts dimension then
        (.error (.overConsumption dimension (reservation.amounts dimension)
          (filled amounts dimension)) : Except BudgetError Unit)
      else .ok ()) = .ok () := forM_ok fun _ _ => by rw [ham, if_neg (lt_irrefl _)]
  rw [consume, except_bind_ok]
  refine ⟨(), hvalid, ?_⟩
  simp only [h]
  rw [except_bind_ok]
  refine ⟨(), refuseIf_ok.2 (by simp [hopen]), ?_⟩
  rw [except_bind_ok]
  exact ⟨(), hdim, rfl⟩

/-- **Releasing closes the reservation.** -/
theorem release_open
    (h : ledger.reservation? id = some reservation) (hopen : reservation.isOpen = true) :
    ledger.release id = .ok (ledger.close reservation fun _ => 0) := by
  rw [release]
  simp [h, hopen]

/-! ## What everybody else may do to a ledger -/

/-- A call of one of the operations that change a ledger. -/
inductive Call where
  | createRoot (budgetId : String) (limits : BudgetAmounts)
  | createChild (parentId budgetId : String) (limits : BudgetAmounts)
  | reserve (budgetId reservationId : String) (amounts : BudgetAmounts)
  | consume (reservationId : String) (actual : BudgetAmounts)
  | release (reservationId : String)

/-- The ledger after a call; a refused call changes nothing. -/
def call (ledger : BudgetLedger) : Call → BudgetLedger
  | .createRoot budgetId limits => (ledger.createRoot budgetId limits).toOption.getD ledger
  | .createChild parentId budgetId limits =>
    (ledger.createChild parentId budgetId limits).toOption.getD ledger
  | .reserve budgetId reservationId amounts =>
    (ledger.reserve budgetId reservationId amounts).toOption.getD ledger
  | .consume reservationId actual => (ledger.consume reservationId actual).toOption.getD ledger
  | .release reservationId => (ledger.release reservationId).toOption.getD ledger

/-- The reservation a call names. -/
def Call.reservationId? : Call → Option String
  | .createRoot _ _ => none
  | .createChild _ _ _ => none
  | .reserve _ reservationId _ => some reservationId
  | .consume reservationId _ => some reservationId
  | .release reservationId => some reservationId

theorem createRoot_reservations (h : ledger.createRoot budgetId limits = .ok ledger') :
    ledger'.reservations = ledger.reservations := by
  simp only [createRoot, except_bind_ok, refuseIf_ok, exists_const, except_pure_ok] at h
  obtain ⟨-, _, -, rfl⟩ := h
  rfl

theorem createChild_reservations {parentId : String}
    (h : ledger.createChild parentId budgetId limits = .ok ledger') :
    ledger'.reservations = ledger.reservations := by
  rw [createChild] at h
  split at h
  · cases h
  · simp only [except_bind_ok, refuseIf_ok, exists_const, except_pure_ok] at h
    obtain ⟨-, -, _, -, rfl⟩ := h
    rfl

theorem consume_ok {actual : BudgetAmounts}
    (h : ledger.consume reservationId actual = .ok ledger') :
    ∃ reservation used, ledger.reservation? reservationId = some reservation
      ∧ ledger' = ledger.close reservation used := by
  rw [consume, except_bind_ok] at h
  obtain ⟨_, -, h⟩ := h
  split at h
  · cases h
  · rename_i reservation hr
    simp only [except_bind_ok, except_pure_ok] at h
    obtain ⟨_, -, _, -, rfl⟩ := h
    exact ⟨reservation, _, hr, rfl⟩

theorem release_ok (h : ledger.release reservationId = .ok ledger') :
    ledger' = ledger ∨ ∃ reservation used, ledger.reservation? reservationId = some reservation
      ∧ ledger' = ledger.close reservation used := by
  rw [release] at h
  split at h
  · cases h
  · rename_i reservation hr
    split at h
    · cases h
      exact .inl rfl
    · cases h
      exact .inr ⟨reservation, _, hr, rfl⟩

/-- **A call touches no reservation but the one it names.** -/
theorem call_reservation? (ledger : BudgetLedger) (c : Call)
    (hid : c.reservationId? ≠ some id) : (ledger.call c).reservation? id = ledger.reservation? id := by
  have hsame : ∀ x : Except BudgetError BudgetLedger,
      (∀ l, x = .ok l → l.reservation? id = ledger.reservation? id) →
      (x.toOption.getD ledger).reservation? id = ledger.reservation? id := by
    intro x hx
    cases x with
    | error => rfl
    | ok l => exact hx l rfl
  cases c with
  | createRoot budgetId limits =>
    exact hsame _ fun l h => by rw [reservation?, createRoot_reservations h, reservation?]
  | createChild _ budgetId limits =>
    exact hsame _ fun l h => by rw [reservation?, createChild_reservations h, reservation?]
  | reserve budgetId reservationId =>
    refine hsame _ fun l h => (reserve_reservation? h).2 id ?_
    rintro rfl
    exact hid rfl
  | consume reservationId =>
    refine hsame _ fun l h => ?_
    obtain ⟨r, used, hr, rfl⟩ := consume_ok h
    refine (close_spec hr used).2 id ?_
    rintro rfl
    exact hid rfl
  | release reservationId =>
    refine hsame _ fun l h => ?_
    rcases release_ok h with rfl | ⟨r, used, hr, rfl⟩
    · rfl
    · refine (close_spec hr used).2 id ?_
      rintro rfl
      exact hid rfl

end BudgetLedger

end Falryn.Orchestration
