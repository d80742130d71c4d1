import Falryn.Lib.Imperative
import Falryn.Orchestration.BudgetLedger

/-!
# The budget ledger, statement by statement

The calls of a ledger as the source runs them: checks and writes in one sequence, the writes of a
reservation budget by budget and dimension by dimension, and nothing undone when a check in between
refuses.  Over a well-formed ledger these programs do what `BudgetLedger.reserve` and its siblings
say in one go.
-/

namespace Falryn.Orchestration
namespace BudgetLedger

open Imperative

/-! ## Budgets and their ancestors -/

/-- `parent` is the parent of the budget `child`. -/
def ParentLink (ledger : BudgetLedger) (child parent : String) : Prop :=
  ∃ n, ledger.node? child = some n ∧ n.parentId = some parent

/-- A budget is another one, or a descendant of it. -/
def AtOrBelow (ledger : BudgetLedger) : String → String → Prop :=
  Relation.ReflTransGen ledger.ParentLink

/-- A child's limits are within its parent's. -/
def Within (limits inherited : BudgetLimits) : Prop :=
  ∀ d limit, inherited d = some limit → ∃ own, limits d = some own ∧ own ≤ limit

/-- The budgets of a ledger form a forest. -/
structure Formed (ledger : BudgetLedger) : Prop where
  nodup : (ledger.nodes.map BudgetNode.budgetId).Nodup
  parent : ∀ {n p}, n ∈ ledger.nodes → n.parentId = some p →
    ∃ pn, ledger.node? p = some pn ∧ n.depth = pn.depth + 1 ∧ Within n.limits pn.limits
  depth : ∀ {n}, n ∈ ledger.nodes → n.depth < ledger.nodes.length

variable {ledger ledger' : BudgetLedger}

variable {id : String} {n : BudgetNode}

theorem node?_eq_some (h : ledger.node? id = some n) : n ∈ ledger.nodes ∧ n.budgetId = id := by
  have hid := List.find?_some h
  exact ⟨List.mem_of_find?_eq_some h, by simpa using hid⟩

theorem node?_eq_none : ledger.node? id = none ↔ id ∉ ledger.nodes.map BudgetNode.budgetId := by
  simp [node?, List.find?_eq_none]

theorem Formed.node?_of_mem (h : Formed ledger) (hn : n ∈ ledger.nodes) :
    ledger.node? n.budgetId = some n := by
  rcases hfind : ledger.node? n.budgetId with _ | m
  · exact absurd (List.mem_map_of_mem hn) (node?_eq_none.1 hfind)
  · obtain ⟨hm, hid⟩ := node?_eq_some hfind
    rw [List.inj_on_of_nodup_map h.nodup hm hn hid]

theorem AtOrBelow.step {a b c : String} (hn : ledger.node? b = some n)
    (hp : n.parentId = some c) : ledger.AtOrBelow b a ↔ a = b ∨ ledger.AtOrBelow c a := by
  constructor
  · intro h
    rcases h.cases_head with rfl | ⟨c', ⟨m, hm, hp'⟩, hrest⟩
    · exact .inl rfl
    · rw [hn] at hm
      cases hm
      rw [hp] at hp'
      cases hp'
      exact .inr hrest
  · rintro (rfl | h)
    · exact .refl
    · exact .head ⟨n, hn, hp⟩ h

theorem AtOrBelow.root {a b : String} {n : BudgetNode} (hn : ledger.node? b = some n)
    (hp : n.parentId = none) : ledger.AtOrBelow b a ↔ a = b := by
  constructor
  · intro h
    rcases h.cases_head with rfl | ⟨c, ⟨m, hm, hp'⟩, -⟩
    · rfl
    · rw [hn] at hm
      cases hm
      rw [hp] at hp'
      cases hp'
  · rintro rfl
    exact .refl

/-- The identifiers of a budget's chain, nearest first. -/
def chainIds (ledger : BudgetLedger) (budgetId : String) : List String :=
  (ledger.chainOf budgetId).map BudgetNode.budgetId

/-- With enough fuel the chain of a budget is the budget and its ancestors, each once. -/
theorem Formed.go_spec (h : Formed ledger) {fuel : ℕ}
    (hn : ledger.node? id = some n) (hfuel : n.depth < fuel) :
    (∀ m ∈ chainOf.go ledger fuel (some n), ledger.node? m.budgetId = some m ∧ m.depth ≤ n.depth) ∧
    ((chainOf.go ledger fuel (some n)).map BudgetNode.budgetId).Nodup ∧
    ∀ a, a ∈ (chainOf.go ledger fuel (some n)).map BudgetNode.budgetId ↔
      ledger.AtOrBelow id a := by
  induction fuel generalizing id n with
  | zero => exact absurd hfuel (Nat.not_lt_zero _)
  | succ fuel ih =>
    obtain ⟨hmem, rfl⟩ := node?_eq_some hn
    rw [chainOf.go]
    rcases hp : n.parentId with _ | p
    · have hnil : chainOf.go ledger fuel (Option.bind none ledger.node?) = [] := by
        rcases fuel with _ | fuel <;> rfl
      rw [hnil]
      refine ⟨fun m hm => ?_, List.nodup_singleton _, fun a => ?_⟩
      · cases List.mem_singleton.1 hm
        exact ⟨hn, le_refl _⟩
      · rw [AtOrBelow.root hn hp]
        simp
    · obtain ⟨pn, hpn, hdepth, -⟩ := h.parent hmem hp
      rw [Option.bind_some, hpn]
      obtain ⟨hall, hnodup, hmem'⟩ := ih hpn (by omega)
      refine ⟨fun m hm => ?_, ?_, fun a => ?_⟩
      · rcases List.mem_cons.1 hm with rfl | hm
        · exact ⟨hn, le_refl _⟩
        · obtain ⟨hmn, hle⟩ := hall m hm
          exact ⟨hmn, by omega⟩
      · refine List.nodup_cons.2 ⟨fun hin => ?_, hnodup⟩
        obtain ⟨m, hm, hid⟩ := List.mem_map.1 hin
        obtain ⟨hmn, hle⟩ := hall m hm
        rw [hid, hn] at hmn
        cases hmn
        omega
      · rw [List.map_cons, List.mem_cons, hmem', AtOrBelow.step hn hp]

theorem Formed.chain_spec (h : Formed ledger) (hn : ledger.node? id = some n) :
    (∀ m ∈ ledger.chainOf id, ledger.node? m.budgetId = some m) ∧ (ledger.chainIds id).Nodup ∧
      ∀ a, a ∈ ledger.chainIds id ↔ ledger.AtOrBelow id a := by
  obtain ⟨hall, hnodup, hmem⟩ := h.go_spec hn (h.depth (node?_eq_some hn).1)
  rw [chainIds, chainOf, hn]
  exact ⟨fun m hm => (hall m hm).1, hnodup, hmem⟩

/-! ## Writes -/

/-- A write to one dimension of one budget. -/
def charge (budgetId : String) (reserved consumed : ℤ) (dimension : BudgetDimension)
    (ledger : BudgetLedger) : BudgetLedger :=
  { ledger with
    nodes := ledger.nodes.map fun node =>
      if node.budgetId = budgetId then
        { node with
          reserved := Function.update node.reserved dimension (node.reserved dimension + reserved)
          consumed := Function.update node.consumed dimension (node.consumed dimension + consumed) }
      else node }

/-- A write to the budgets of a chain, in every dimension. -/
def chargeChain (chain : List String) (reserved consumed : BudgetDimension → ℤ)
    (ledger : BudgetLedger) : BudgetLedger :=
  { ledger with
    nodes := ledger.nodes.map fun node =>
      if node.budgetId ∈ chain then
        { node with
          reserved := fun d => node.reserved d + reserved d
          consumed := fun d => node.consumed d + consumed d }
      else node }

/-- `for (const dimension of BUDGET_DIMENSIONS)` in the writes. -/
def chargeAll (budgetId : String) (reserved consumed : BudgetDimension → ℤ)
    (ledger : BudgetLedger) : BudgetLedger :=
  budgetDimensions.foldl (fun l d => charge budgetId (reserved d) (consumed d) d l) ledger

theorem chargeAll_eq (budgetId : String) (reserved consumed : BudgetDimension → ℤ)
    (ledger : BudgetLedger) :
    chargeAll budgetId reserved consumed ledger =
      chargeChain [budgetId] reserved consumed ledger := by
  simp only [chargeAll, budgetDimensions, List.foldl_cons, List.foldl_nil, charge, chargeChain,
    List.map_map]
  refine congrArg (fun nodes => (⟨nodes, ledger.reservations⟩ : BudgetLedger))
    (List.map_congr_left fun node _ => ?_)
  by_cases h : node.budgetId = budgetId
  · simp only [Function.comp_apply, h, if_true, List.mem_singleton]
    congr 1 <;> funext d <;> cases d <;> simp [Function.update]
  · simp [h]

/-- The writes of a chain without repetitions reach every budget of it once. -/
theorem foldl_chargeAll {chain : List String} (hnodup : chain.Nodup)
    (reserved consumed : BudgetDimension → ℤ) (ledger : BudgetLedger) :
    chain.foldl (fun l id => chargeAll id reserved consumed l) ledger =
      chargeChain chain reserved consumed ledger := by
  induction chain generalizing ledger with
  | nil => simp [chargeChain]
  | cons id chain ih =>
    obtain ⟨hout, hnodup⟩ := List.nodup_cons.1 hnodup
    rw [List.foldl_cons, ih hnodup, chargeAll_eq]
    simp only [chargeChain, List.map_map]
    refine congrArg (fun nodes => (⟨nodes, ledger.reservations⟩ : BudgetLedger))
      (List.map_congr_left fun node _ => ?_)
    by_cases h : node.budgetId = id
    · simp [h, hout]
    · by_cases hmem : node.budgetId ∈ chain <;> simp [h, hmem]

end BudgetLedger

/-! ## The calls -/

namespace BudgetCalls

open Imperative

/-- The body of a ledger's method. -/
abbrev Program := Imperative BudgetLedger BudgetError

def createRoot (budgetId : String) (limits : BudgetAmounts) : Program String := do
  let ledger ← get
  check (refuseIf ((ledger.node? budgetId).isSome = true) (.duplicateBudget budgetId))
  check (validateAmounts limits)
  modify fun ledger =>
    { ledger with
      nodes := ledger.nodes ++
        [⟨budgetId, none, 0, fun d => (limits d).map Rat.num, fun _ => 0, fun _ => 0⟩] }
  return budgetId

def createChild (parentId budgetId : String) (limits : BudgetAmounts) : Program String := do
  let ledger ← get
  match ledger.node? parentId with
  | none => check (.error (.unknownBudget parentId))
  | some parent =>
    check (refuseIf ((ledger.node? budgetId).isSome = true) (.duplicateBudget budgetId))
    check (refuseIf (parent.depth + 1 > maxBudgetDepth) (.budgetDepthExceeded maxBudgetDepth))
    check (validateAmounts limits)
    modify fun ledger =>
      { ledger with
        nodes := ledger.nodes ++
          [⟨budgetId, some parentId, parent.depth + 1,
            narrowLimits parent.limits fun d => (limits d).map Rat.num, fun _ => 0, fun _ => 0⟩] }
    return budgetId

/-- `node.reserved[dimension] += reserved; node.consumed[dimension] += consumed` for every
dimension. -/
def chargeBudget (reserved consumed : BudgetDimension → ℤ) (budgetId : String) : Program Unit :=
  budgetDimensions.forM fun d =>
    modify (BudgetLedger.charge budgetId (reserved d) (consumed d) d)

def reserve (budgetId reservationId : String) (amounts : BudgetAmounts) : Program String := do
  check (validateAmounts amounts)
  let ledger ← get
  check (refuseIf ((ledger.node? budgetId).isNone = true) (.unknownBudget budgetId))
  check (refuseIf ((ledger.reservation? reservationId).isSome = true)
    (.duplicateReservation reservationId))
  let requested := filled amounts
  let chain := ledger.chainOf budgetId
  chain.forM fun node => budgetDimensions.forM fun d => check (preflight node requested d)
  chain.forM fun node => chargeBudget requested (fun _ => 0) node.budgetId
  modify fun ledger =>
    { ledger with
      reservations := ledger.reservations ++
        [⟨reservationId, budgetId, chain.map BudgetNode.budgetId, requested, true⟩] }
  return reservationId

/-- The loop over a reservation's chain that `consume` and `release` end with. -/
def settle (reservation : Reservation) (used : BudgetDimension → ℤ) : Program Unit := do
  reservation.chain.forM fun budgetId => do
    let ledger ← get
    match ledger.node? budgetId with
    | none => return ()
    | some _ => chargeBudget (fun d => -reservation.amounts d) used budgetId
  modify fun ledger =>
    { ledger with
      reservations := ledger.reservations.map fun r =>
        if r.reservationId = reservation.reservationId then { r with isOpen := false } else r }

def consume (reservationId : String) (actual : BudgetAmounts) : Program Unit := do
  check (validateAmounts actual)
  let ledger ← get
  match ledger.reservation? reservationId with
  | none => check (.error (.unknownReservation reservationId))
  | some reservation =>
    check (refuseIf (reservation.isOpen = false) (.unknownReservation reservationId))
    let used := filled actual
    budgetDimensions.forM fun dimension => check <|
      if used dimension > reservation.amounts dimension then
        .error (.overConsumption dimension (reservation.amounts dimension) (used dimension))
      else .ok ()
    settle reservation used

def release (reservationId : String) : Program Unit := do
  let ledger ← get
  match ledger.reservation? reservationId with
  | none => check (.error (.unknownReservation reservationId))
  | some reservation =>
    if reservation.isOpen = false then return ()
    else settle reservation fun _ => 0

/-- A call, whatever it returns. -/
def perform : BudgetLedger.Call → Program Unit
  | .createRoot budgetId limits => do
    let _ ← createRoot budgetId limits
  | .createChild parentId budgetId limits => do
    let _ ← createChild parentId budgetId limits
  | .reserve budgetId reservationId amounts => do
    let _ ← reserve budgetId reservationId amounts
  | .consume reservationId actual => consume reservationId actual
  | .release reservationId => release reservationId

end BudgetCalls

namespace BudgetLedger

open Imperative

variable {ledger ledger' : BudgetLedger} {α : Type} {a : α}

/-- What a call makes of a ledger, or why it is refused. -/
def attempt (ledger : BudgetLedger) : Call → Except BudgetError BudgetLedger
  | .createRoot budgetId limits => ledger.createRoot budgetId limits
  | .createChild parentId budgetId limits => ledger.createChild parentId budgetId limits
  | .reserve budgetId reservationId amounts => ledger.reserve budgetId reservationId amounts
  | .consume reservationId actual => ledger.consume reservationId actual
  | .release reservationId => ledger.release reservationId

/-- A ledger whose budgets form a forest and whose reservations name no budget twice. -/
structure Chained (ledger : BudgetLedger) : Prop where
  formed : Formed ledger
  chains : ∀ {r}, r ∈ ledger.reservations → r.chain.Nodup

/-- What a program leaves when the pure function says what becomes of the ledger. -/
def settled {α : Type} (ledger : BudgetLedger) (a : α) :
    Except BudgetError BudgetLedger → Except BudgetError α × BudgetLedger
  | .ok ledger' => (.ok a, ledger')
  | .error e => (.error e, ledger)

theorem outcome_discard {p : BudgetCalls.Program α}
    {x : Except BudgetError BudgetLedger} (h : outcome p ledger = settled ledger a x) :
    outcome (do let _ ← p) ledger = settled ledger () x := by
  rw [outcome_bind, h]
  rcases x with _ | _ <;> rfl

/-- A check that the program and the pure function both make. -/
theorem outcome_bind_eq {β : Type} {p : BudgetCalls.Program β} {x : Except BudgetError β}
    {f : β → BudgetCalls.Program α} {g : β → Except BudgetError BudgetLedger}
    (hp : outcome p ledger = (x, ledger))
    (h : ∀ b, x = .ok b → outcome (f b) ledger = settled ledger a (g b)) :
    outcome (p >>= f) ledger = settled ledger a (x >>= g) := by
  rw [outcome_bind, hp]
  rcases x with e | b
  · rfl
  · exact h b rfl

theorem outcome_createRoot (ledger : BudgetLedger) (budgetId : String) (limits : BudgetAmounts) :
    outcome (BudgetCalls.createRoot budgetId limits) ledger =
      settled ledger budgetId (ledger.createRoot budgetId limits) := by
  rw [BudgetCalls.createRoot, outcome_bind_ok (outcome_get ledger), createRoot]
  refine outcome_bind_eq rfl fun _ _ => ?_
  refine outcome_bind_eq rfl fun _ _ => ?_
  rw [outcome_bind_ok (outcome_modify _ _)]
  rfl

theorem outcome_createChild (ledger : BudgetLedger) (parentId budgetId : String)
    (limits : BudgetAmounts) :
    outcome (BudgetCalls.createChild parentId budgetId limits) ledger =
      settled ledger budgetId (ledger.createChild parentId budgetId limits) := by
  rw [BudgetCalls.createChild, outcome_bind_ok (outcome_get ledger), createChild]
  rcases ledger.node? parentId with _ | parent
  · rfl
  · refine outcome_bind_eq rfl fun _ _ => ?_
    refine outcome_bind_eq rfl fun _ _ => ?_
    refine outcome_bind_eq rfl fun _ _ => ?_
    rw [outcome_bind_ok (outcome_modify _ _)]
    rfl

theorem outcome_chargeBudget (reserved consumed : BudgetDimension → ℤ) (budgetId : String)
    (ledger : BudgetLedger) :
    outcome (BudgetCalls.chargeBudget reserved consumed budgetId) ledger =
      (.ok (), chargeAll budgetId reserved consumed ledger) :=
  outcome_forM_modify _ _ _ (fun _ _ => rfl) ledger

theorem outcome_reserve (h : Formed ledger) (budgetId reservationId : String)
    (amounts : BudgetAmounts) :
    outcome (BudgetCalls.reserve budgetId reservationId amounts) ledger =
      settled ledger reservationId (ledger.reserve budgetId reservationId amounts) := by
  rw [BudgetCalls.reserve, reserve]
  refine outcome_bind_eq rfl fun _ _ => ?_
  rw [outcome_bind_ok (outcome_get ledger)]
  refine outcome_bind_eq rfl fun _ hknown => ?_
  refine outcome_bind_eq rfl fun _ _ => ?_
  obtain ⟨n, hn⟩ : ∃ n, ledger.node? budgetId = some n := by
    rw [refuseIf_ok] at hknown
    exact Option.ne_none_iff_exists'.1 (by simpa using hknown)
  obtain ⟨-, hnodup, -⟩ := h.chain_spec hn
  have hchecks := outcome_forM_check (ledger.chainOf budgetId)
    (fun node => budgetDimensions.forM fun d => check (preflight node (filled amounts) d))
    (fun node => budgetDimensions.forM (preflight node (filled amounts))) ledger
    (fun node => outcome_forM_check _ _ _ ledger fun _ => rfl)
  have hwrites : outcome ((ledger.chainOf budgetId).forM fun node =>
      BudgetCalls.chargeBudget (filled amounts) (fun _ => 0) node.budgetId) ledger =
        (.ok (), chargeChain (ledger.chainIds budgetId) (filled amounts) (fun _ => 0) ledger) := by
    rw [outcome_forM_modify _ _ (fun l node => chargeAll node.budgetId (filled amounts)
      (fun _ => 0) l) (fun node l => outcome_chargeBudget _ _ _ l), ← foldl_chargeAll hnodup,
      chainIds, List.foldl_map]
  refine outcome_bind_eq hchecks fun _ _ => ?_
  rw [outcome_bind_ok hwrites, outcome_bind_ok (outcome_modify _ _)]
  simp only [outcome_pure, chargeChain, chainIds, add_zero]
  rfl

/-- A budget that is not there is passed over. -/
theorem chargeAll_of_none {id : String} (h : ledger.node? id = none)
    (reserved consumed : BudgetDimension → ℤ) : chargeAll id reserved consumed ledger = ledger := by
  have hkeep : ∀ n ∈ ledger.nodes, (if n.budgetId ∈ [id] then
      { n with
        reserved := fun d => n.reserved d + reserved d
        consumed := fun d => n.consumed d + consumed d } else n) = n := by
    intro n hn
    refine if_neg fun heq => node?_eq_none.1 h ?_
    rw [← List.mem_singleton.1 heq]
    exact List.mem_map_of_mem hn
  rw [chargeAll_eq, chargeChain, List.map_congr_left hkeep, List.map_id']

theorem outcome_settle {reservation : Reservation} (hnodup : reservation.chain.Nodup)
    (used : BudgetDimension → ℤ) (ledger : BudgetLedger) :
    outcome (BudgetCalls.settle reservation used) ledger =
      (.ok (), ledger.close reservation used) := by
  have hbudget : ∀ (id : String) (l : BudgetLedger),
      outcome (do
        let ledger ← get
        match ledger.node? id with
        | none => return ()
        | some _ => BudgetCalls.chargeBudget (fun d => -reservation.amounts d) used id :
          BudgetCalls.Program Unit) l =
        (.ok (), chargeAll id (fun d => -reservation.amounts d) used l) := by
    intro id l
    rw [outcome_bind_ok (outcome_get l)]
    rcases hnode : l.node? id with _ | n
    · rw [chargeAll_of_none hnode]
      rfl
    · exact outcome_chargeBudget _ _ id l
  rw [BudgetCalls.settle, outcome_bind_ok (outcome_forM_modify _ _ _ hbudget ledger),
    foldl_chargeAll hnodup, outcome_modify]
  rfl

theorem outcome_consume (h : Chained ledger) (reservationId : String) (actual : BudgetAmounts) :
    outcome (BudgetCalls.consume reservationId actual) ledger =
      settled ledger () (ledger.consume reservationId actual) := by
  rw [BudgetCalls.consume, consume]
  refine outcome_bind_eq rfl fun _ _ => ?_
  rw [outcome_bind_ok (outcome_get ledger)]
  rcases hr : ledger.reservation? reservationId with _ | reservation
  · rfl
  · refine outcome_bind_eq rfl fun _ _ => ?_
    refine outcome_bind_eq (outcome_forM_check _ _ _ ledger fun _ => rfl) fun _ _ => ?_
    exact outcome_settle (h.chains (List.mem_of_find?_eq_some hr)) _ ledger

theorem outcome_release (h : Chained ledger) (reservationId : String) :
    outcome (BudgetCalls.release reservationId) ledger =
      settled ledger () (ledger.release reservationId) := by
  rw [BudgetCalls.release, release, outcome_bind_ok (outcome_get ledger)]
  rcases hr : ledger.reservation? reservationId with _ | reservation
  · rfl
  · dsimp only
    split
    · rfl
    · exact outcome_settle (h.chains (List.mem_of_find?_eq_some hr)) _ ledger

/-- **The calls do what the pure functions say.**  A call that is refused leaves the ledger as it
found it. -/
theorem outcome_perform (h : Chained ledger) (c : Call) :
    outcome (BudgetCalls.perform c) ledger = settled ledger () (ledger.attempt c) := by
  rcases c with ⟨budgetId, limits⟩ | ⟨parentId, budgetId, limits⟩ |
    ⟨budgetId, reservationId, amounts⟩ | ⟨reservationId, actual⟩ | reservationId
  · exact outcome_discard (outcome_createRoot ledger budgetId limits)
  · exact outcome_discard (outcome_createChild ledger parentId budgetId limits)
  · exact outcome_discard (outcome_reserve h.formed budgetId reservationId amounts)
  · exact outcome_consume h reservationId actual
  · exact outcome_release h reservationId

end BudgetLedger
end Falryn.Orchestration
