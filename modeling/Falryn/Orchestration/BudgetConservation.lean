import Falryn.Orchestration.BudgetProgram

/-!
# Conservation in the budget ledger

What a budget holds as reserved is what is open on it and below it, what it holds as consumed is what
was spent there, and no budget holds more than its limit.  A ledger forgets what a reservation was
settled with, so the history beside it keeps the settlements; it decides nothing.
-/

namespace Falryn.Orchestration.BudgetLedger

open Imperative

/-! ## Sums over a part of a list -/

section
variable {α : Type}

open Classical in
/-- The sum of `f` over the members of a list that satisfy `p`. -/
noncomputable def sumWhere (p : α → Prop) (f : α → ℤ) (l : List α) : ℤ :=
  ((l.filter fun a => p a).map f).sum

variable {p q : α → Prop} {f g : α → ℤ} {l : List α}

theorem sumWhere_nil : sumWhere p f [] = 0 := rfl

open Classical in
theorem sumWhere_cons (a : α) : sumWhere p f (a :: l) = (if p a then f a else 0) + sumWhere p f l := by
  rw [sumWhere, sumWhere, List.filter_cons]
  by_cases h : p a <;> simp [h]

open Classical in
theorem sumWhere_append (a : α) :
    sumWhere p f (l ++ [a]) = sumWhere p f l + if p a then f a else 0 := by
  rw [sumWhere, sumWhere, List.filter_append, List.map_append, List.sum_append]
  by_cases h : p a <;> simp [h]

theorem sumWhere_congr (h : ∀ a ∈ l, p a ↔ q a) : sumWhere p f l = sumWhere q f l := by
  rw [sumWhere, sumWhere]
  exact congrArg (fun l => (List.map f l).sum) (List.filter_congr fun a ha => by simp [h a ha])

theorem sumWhere_eq_zero (h : ∀ a ∈ l, ¬ p a) : sumWhere p f l = 0 := by
  rw [sumWhere, List.filter_eq_nil_iff.2 fun a ha => by simp [h a ha]]
  rfl

theorem sumWhere_nonneg (h : ∀ a ∈ l, 0 ≤ f a) : 0 ≤ sumWhere p f l := by
  refine List.sum_nonneg fun _ hx => ?_
  obtain ⟨a, ha, rfl⟩ := List.mem_map.1 hx
  exact h a (List.mem_of_mem_filter ha)

open Classical in
/-- One member is taken out of the sum. -/
theorem sumWhere_map {key : α → String} {change : α → α} {a : α}
    (hnodup : (l.map key).Nodup) (ha : a ∈ l)
    (hchange : ¬ p (change a)) (hother : ∀ b, key b ≠ key a → change b = b) :
    sumWhere p f (l.map change) = sumWhere p f l - if p a then f a else 0 := by
  induction l with
  | nil => cases ha
  | cons b l ih =>
    obtain ⟨hout, hnodup⟩ := List.nodup_cons.1 hnodup
    rw [List.map_cons, sumWhere_cons, sumWhere_cons]
    rcases List.mem_cons.1 ha with rfl | hmem
    · have hrest : l.map change = l := by
        refine (List.map_congr_left fun c hc => hother c fun heq => hout ?_).trans (List.map_id' l)
        rw [← heq]
        exact List.mem_map_of_mem hc
      rw [hrest, if_neg hchange]
      ring
    · have hne : key b ≠ key a := fun heq => hout (heq ▸ List.mem_map_of_mem hmem)
      rw [ih hnodup hmem, hother b hne]
      ring

end

/-! ## Histories -/

/-- A ledger and what was spent: on which budget, and how much. -/
structure History where
  ledger : BudgetLedger
  spent : List (String × (BudgetDimension → ℤ))

/-- What a call spends: a reservation that is consumed, the actual amounts on its budget. -/
def spentBy (ledger : BudgetLedger) : Call → List (String × (BudgetDimension → ℤ))
  | .consume reservationId actual =>
    match (outcome (BudgetCalls.consume reservationId actual) ledger).1,
      ledger.reservation? reservationId with
    | .ok _, some reservation => [(reservation.budgetId, filled actual)]
    | _, _ => []
  | _ => []

namespace History

/-- The history of a new ledger. -/
def start : History := ⟨.empty, []⟩

/-- The history after a call. -/
def call (h : History) (c : Call) : History :=
  ⟨(outcome (BudgetCalls.perform c) h.ledger).2, spentBy h.ledger c ++ h.spent⟩

/-- The history after a list of calls. -/
def calls (h : History) (cs : List Call) : History := cs.foldl call h

end History

/-- The amounts of the open reservations on a budget or below it. -/
noncomputable def openAtOrBelow (ledger : BudgetLedger) (budgetId : String) (d : BudgetDimension) :
    ℤ :=
  sumWhere (fun r : Reservation => r.isOpen = true ∧ ledger.AtOrBelow r.budgetId budgetId)
    (fun r => r.amounts d) ledger.reservations

/-- What was spent on a budget or below it. -/
noncomputable def spentAtOrBelow (h : History) (budgetId : String) (d : BudgetDimension) : ℤ :=
  sumWhere (fun s : String × (BudgetDimension → ℤ) => h.ledger.AtOrBelow s.1 budgetId)
    (fun s => s.2 d) h.spent

/-- What holds of every history. -/
structure Balanced (h : History) : Prop where
  formed : Formed h.ledger
  ids : (h.ledger.reservations.map Reservation.reservationId).Nodup
  taken : ∀ {r}, r ∈ h.ledger.reservations → (∃ n, h.ledger.node? r.budgetId = some n) ∧
    r.chain.Nodup ∧ (∀ a, a ∈ r.chain ↔ h.ledger.AtOrBelow r.budgetId a) ∧ ∀ d, 0 ≤ r.amounts d
  spent : ∀ {s}, s ∈ h.spent → (∃ n, h.ledger.node? s.1 = some n) ∧ ∀ d, 0 ≤ s.2 d
  reserved : ∀ {n}, n ∈ h.ledger.nodes → ∀ d, n.reserved d = h.ledger.openAtOrBelow n.budgetId d
  consumed : ∀ {n}, n ∈ h.ledger.nodes → ∀ d, n.consumed d = spentAtOrBelow h n.budgetId d
  safe : ∀ {n}, n ∈ h.ledger.nodes → ∀ d, n.reserved d + n.consumed d ≤ maxSafeInteger
  limited : ∀ {n}, n ∈ h.ledger.nodes → ∀ d limit, n.limits d = some limit →
    n.reserved d + n.consumed d ≤ limit

variable {h : History} {ledger ledger' : BudgetLedger}

theorem Balanced.chained (hb : Balanced h) : Chained h.ledger :=
  ⟨hb.formed, fun hr => (hb.taken hr).2.1⟩

variable {n : BudgetNode}

theorem Balanced.reserved_nonneg (hb : Balanced h) (hn : n ∈ h.ledger.nodes)
    (d : BudgetDimension) : 0 ≤ n.reserved d := by
  rw [hb.reserved hn]
  exact sumWhere_nonneg fun _ hr => (hb.taken hr).2.2.2 d

theorem Balanced.consumed_nonneg (hb : Balanced h) (hn : n ∈ h.ledger.nodes)
    (d : BudgetDimension) : 0 ≤ n.consumed d := by
  rw [hb.consumed hn]
  exact sumWhere_nonneg fun _ hs => (hb.spent hs).2 d

/-! ## Amounts that pass -/

variable {amounts : BudgetAmounts} {u : Unit} {d : BudgetDimension}

theorem validateAmounts_nonneg
    (h : validateAmounts amounts = .ok u) {q : ℚ} (hq : amounts d = some q) :
    0 ≤ q.num := by
  have hd := forM_ok_mem h d (mem_budgetDimensions d)
  simp only [hq] at hd
  split at hd
  · cases hd
  · split at hd
    · cases hd
    next hneg => exact Rat.num_nonneg.2 (not_lt.1 hneg)

theorem filled_nonneg (h : validateAmounts amounts = .ok u)
    (d : BudgetDimension) : 0 ≤ filled amounts d := by
  rw [filled]
  rcases hq : amounts d with _ | q
  · exact le_refl _
  · exact validateAmounts_nonneg h hq

theorem preflight_ok {requested : BudgetDimension → ℤ} (h : preflight n requested d = .ok u) :
    (∀ limit, n.limits d = some limit →
      n.reserved d + requested d + n.consumed d ≤ limit) ∧
      n.reserved d + requested d + n.consumed d ≤ maxSafeInteger := by
  have hoverflow : ∀ {u}, preflight.overflow n requested d = .ok u →
      n.reserved d + requested d + n.consumed d ≤ maxSafeInteger := by
    intro u h
    rw [preflight.overflow] at h
    split at h
    · cases h
    next hle => linarith
  rw [preflight, remainingIn] at h
  rcases hlimit : n.limits d with _ | limit
  · rw [hlimit] at h
    exact ⟨fun limit hl => (by cases hl), hoverflow h⟩
  · rw [hlimit] at h
    change (if requested d > limit - n.reserved d - n.consumed d then _
      else preflight.overflow n requested d) = _ at h
    split at h
    · cases h
    next hle =>
      refine ⟨fun _ hl => ?_, hoverflow h⟩
      cases hl
      linarith

/-! ## A new budget -/

variable {b : String} {a : String} {m : BudgetNode} {spent : List (String × (BudgetDimension → ℤ))}

theorem Formed.exists_of_atOrBelow (h : Formed ledger)
    (hn : ledger.node? b = some n) (hab : ledger.AtOrBelow b a) : ∃ m, ledger.node? a = some m := by
  induction hab with
  | refl => exact ⟨n, hn⟩
  | tail _ hlink =>
    obtain ⟨m, hm, hp⟩ := hlink
    obtain ⟨pn, hpn, -⟩ := h.parent (node?_eq_some hm).1 hp
    exact ⟨pn, hpn⟩

/-- The ledger with one more budget. -/
def withNode (ledger : BudgetLedger) (n : BudgetNode) : BudgetLedger :=
  { ledger with nodes := ledger.nodes ++ [n] }

theorem node?_withNode (ledger : BudgetLedger) (n : BudgetNode) (b : String) :
    (ledger.withNode n).node? b =
      (ledger.node? b).or (if n.budgetId = b then some n else none) := by
  rw [node?, withNode, List.find?_append, node?]
  by_cases h : n.budgetId = b <;> simp [h]

theorem node?_withNode_of_some (h : ledger.node? b = some m) :
    (ledger.withNode n).node? b = some m := by
  rw [node?_withNode, h, Option.some_or]

/-- A new budget changes nothing about what is above the old ones. -/
theorem Formed.atOrBelow_withNode (h : Formed ledger) (hb : ledger.node? b = some m) :
    (ledger.withNode n).AtOrBelow b a ↔ ledger.AtOrBelow b a := by
  constructor
  · intro hab
    induction hab with
    | refl => exact .refl
    | tail _ hlink ih =>
      obtain ⟨k, hk, hp⟩ := hlink
      obtain ⟨k', hk'⟩ := h.exists_of_atOrBelow hb ih
      rw [node?_withNode_of_some hk'] at hk
      cases hk
      exact ih.tail ⟨k, hk', hp⟩
  · intro hab
    refine Relation.ReflTransGen.mono (fun _ _ hlink => ?_) _ _ hab
    obtain ⟨k, hk, hp⟩ := hlink
    exact ⟨k, node?_withNode_of_some hk, hp⟩

theorem Balanced.withNode (hb : Balanced h) (hfresh : h.ledger.node? n.budgetId = none)
    (hreserved : ∀ d, n.reserved d = 0) (hconsumed : ∀ d, n.consumed d = 0)
    (hlimits : ∀ d limit, n.limits d = some limit → 0 ≤ limit)
    (hparent : ∀ p, n.parentId = some p →
      ∃ pn, h.ledger.node? p = some pn ∧ n.depth = pn.depth + 1 ∧ Within n.limits pn.limits)
    (hdepth : n.depth ≤ h.ledger.nodes.length) : Balanced ⟨h.ledger.withNode n, h.spent⟩ := by
  have hmem : ∀ {m}, m ∈ (h.ledger.withNode n).nodes → m ∈ h.ledger.nodes ∨ m = n := by
    intro m hm
    rcases List.mem_append.1 hm with hm | hm
    · exact .inl hm
    · exact .inr (List.mem_singleton.1 hm)
  -- nothing that was reserved or spent is on the new budget or below it
  have hnone : ∀ {b m}, h.ledger.node? b = some m → ¬ h.ledger.AtOrBelow b n.budgetId := by
    intro b m hm hab
    obtain ⟨k, hk⟩ := hb.formed.exists_of_atOrBelow hm hab
    rw [hfresh] at hk
    cases hk
  have hopen : ∀ b d, (h.ledger.withNode n).openAtOrBelow b d = h.ledger.openAtOrBelow b d := by
    intro b d
    refine sumWhere_congr fun r hr => ?_
    obtain ⟨⟨m, hm⟩, -⟩ := hb.taken hr
    rw [hb.formed.atOrBelow_withNode hm]
  have hspent : ∀ b d, spentAtOrBelow ⟨h.ledger.withNode n, h.spent⟩ b d =
      spentAtOrBelow h b d := by
    intro b d
    refine sumWhere_congr fun s hs => ?_
    obtain ⟨⟨m, hm⟩, -⟩ := hb.spent hs
    exact hb.formed.atOrBelow_withNode hm
  refine ⟨⟨?_, fun {m p} hm hp => ?_, fun {m} hm => ?_⟩, hb.ids, fun hr => ?_, fun hs => ?_,
    fun {m} hm d => ?_, fun {m} hm d => ?_, fun {m} hm d => ?_, fun {m} hm d limit hl => ?_⟩
  · show ((h.ledger.nodes ++ [n]).map BudgetNode.budgetId).Nodup
    rw [List.map_append]
    exact hb.formed.nodup.append (List.nodup_singleton _)
      (List.disjoint_singleton.2 (node?_eq_none.1 hfresh))
  · rcases hmem hm with hm | rfl
    · obtain ⟨pn, hpn, hrest⟩ := hb.formed.parent hm hp
      exact ⟨pn, node?_withNode_of_some hpn, hrest⟩
    · obtain ⟨pn, hpn, hrest⟩ := hparent p hp
      exact ⟨pn, node?_withNode_of_some hpn, hrest⟩
  · show m.depth < (h.ledger.nodes ++ [n]).length
    rw [List.length_append, List.length_singleton, Nat.lt_succ_iff]
    rcases hmem hm with hm | rfl
    · exact (hb.formed.depth hm).le
    · exact hdepth
  · obtain ⟨⟨m, hm⟩, hnodup, hchain, hamounts⟩ := hb.taken hr
    refine ⟨⟨m, node?_withNode_of_some hm⟩, hnodup, fun a => ?_, hamounts⟩
    rw [hb.formed.atOrBelow_withNode hm]
    exact hchain a
  · obtain ⟨⟨m, hm⟩, hrest⟩ := hb.spent hs
    exact ⟨⟨m, node?_withNode_of_some hm⟩, hrest⟩
  · rw [hopen]
    rcases hmem hm with hm | rfl
    · exact hb.reserved hm d
    · rw [hreserved]
      refine (sumWhere_eq_zero fun r hr => ?_).symm
      obtain ⟨⟨k, hk⟩, -⟩ := hb.taken hr
      exact fun hr' => hnone hk hr'.2
  · rw [hspent]
    rcases hmem hm with hm | rfl
    · exact hb.consumed hm d
    · rw [hconsumed]
      refine (sumWhere_eq_zero fun s hs => ?_).symm
      obtain ⟨⟨k, hk⟩, -⟩ := hb.spent hs
      exact hnone hk
  · rcases hmem hm with hm | rfl
    · exact hb.safe hm d
    · rw [hreserved, hconsumed]
      decide
  · rcases hmem hm with hm | rfl
    · exact hb.limited hm d limit hl
    · rw [hreserved, hconsumed]
      exact hlimits d limit hl

/-! ## Writes to the budgets of a chain -/

theorem node?_chargeChain (chain : List String) (reserved consumed : BudgetDimension → ℤ)
    (ledger : BudgetLedger) (b : String) :
    (chargeChain chain reserved consumed ledger).node? b =
      (ledger.node? b).map fun node => if node.budgetId ∈ chain then
        { node with
          reserved := fun d => node.reserved d + reserved d
          consumed := fun d => node.consumed d + consumed d } else node := by
  rw [node?, node?, chargeChain, List.find?_map]
  congr 1
  refine congrArg (fun p => List.find? p ledger.nodes) (funext fun _ => ?_)
  simp only [Function.comp_apply]
  split <;> rfl

/-- Two ledgers with the same budgets under the same parents. -/
theorem atOrBelow_congr {f : BudgetNode → BudgetNode}
    (hget : ∀ b, ledger'.node? b = (ledger.node? b).map f)
    (hf : ∀ n, (f n).parentId = n.parentId) (a b : String) :
    ledger'.AtOrBelow b a ↔ ledger.AtOrBelow b a := by
  have hlink : ledger'.ParentLink = ledger.ParentLink := by
    funext x y
    simp only [ParentLink, hget, Option.map_eq_some_iff, eq_iff_iff]
    constructor
    · rintro ⟨_, ⟨n, hn, rfl⟩, hp⟩
      exact ⟨n, hn, (hf n).symm.trans hp⟩
    · rintro ⟨n, hn, hp⟩
      exact ⟨f n, ⟨n, hn, rfl⟩, (hf n).trans hp⟩
  rw [AtOrBelow, AtOrBelow, hlink]

theorem Formed.chargeChain (hf : Formed ledger) (chain : List String)
    (reserved consumed : BudgetDimension → ℤ) :
    Formed (chargeChain chain reserved consumed ledger) := by
  have hget := node?_chargeChain chain reserved consumed ledger
  refine ⟨?_, fun {m p} hm hp => ?_, fun {m} hm => ?_⟩
  · have hids : (BudgetLedger.chargeChain chain reserved consumed ledger).nodes.map
        BudgetNode.budgetId = ledger.nodes.map BudgetNode.budgetId := by
      rw [BudgetLedger.chargeChain, List.map_map]
      refine List.map_congr_left fun n _ => ?_
      simp only [Function.comp_apply]
      split <;> rfl
    rw [hids]
    exact hf.nodup
  · obtain ⟨n, hn, rfl⟩ := List.mem_map.1 hm
    have hp' : n.parentId = some p := by
      split at hp <;> exact hp
    obtain ⟨pn, hpn, hdepth, hwithin⟩ := hf.parent hn hp'
    refine ⟨_, by rw [hget, hpn, Option.map_some], ?_⟩
    split <;> split <;> exact ⟨hdepth, hwithin⟩
  · obtain ⟨n, hn, rfl⟩ := List.mem_map.1 hm
    have hlen : (BudgetLedger.chargeChain chain reserved consumed ledger).nodes.length =
        ledger.nodes.length := List.length_map ..
    rw [hlen]
    have hdepth := hf.depth hn
    split <;> exact hdepth

open Classical in
/-- **Conservation in one write.**  A write to a chain keeps the balance if the reservations and what
was spent change by as much, and there is room on the chain. -/
theorem Balanced.charge (hb : Balanced h) {chain : List String} {x y : BudgetDimension → ℤ}
    {rs : List Reservation}
    (hids : (rs.map Reservation.reservationId).Nodup)
    (htaken : ∀ {r}, r ∈ rs → (∃ n, h.ledger.node? r.budgetId = some n) ∧ r.chain.Nodup ∧
      (∀ a, a ∈ r.chain ↔ h.ledger.AtOrBelow r.budgetId a) ∧ ∀ d, 0 ≤ r.amounts d)
    (hspent : ∀ {s}, s ∈ spent → (∃ n, h.ledger.node? s.1 = some n) ∧ ∀ d, 0 ≤ s.2 d)
    (hopen : ∀ b d, sumWhere (fun r : Reservation =>
        r.isOpen = true ∧ h.ledger.AtOrBelow r.budgetId b) (fun r => r.amounts d) rs =
      h.ledger.openAtOrBelow b d + if b ∈ chain then x d else 0)
    (hsum : ∀ b d, sumWhere (fun s : String × (BudgetDimension → ℤ) =>
        h.ledger.AtOrBelow s.1 b) (fun s => s.2 d) spent =
      spentAtOrBelow h b d + if b ∈ chain then y d else 0)
    (hroom : ∀ {n}, n ∈ h.ledger.nodes → n.budgetId ∈ chain → ∀ d,
      n.reserved d + x d + (n.consumed d + y d) ≤ maxSafeInteger ∧
        ∀ limit, n.limits d = some limit →
          n.reserved d + x d + (n.consumed d + y d) ≤ limit) :
    Balanced ⟨{ chargeChain chain x y h.ledger with reservations := rs }, spent⟩ := by
  have hget := node?_chargeChain chain x y h.ledger
  have hbelow : ∀ a b, (chargeChain chain x y h.ledger).AtOrBelow b a ↔ h.ledger.AtOrBelow b a :=
    atOrBelow_congr hget fun n => by split <;> rfl
  have hsome : ∀ {b}, (∃ n, h.ledger.node? b = some n) →
      ∃ n, (chargeChain chain x y h.ledger).node? b = some n := by
    rintro b ⟨n, hn⟩
    exact ⟨_, by rw [hget, hn, Option.map_some]⟩
  have hformed := hb.formed.chargeChain chain x y
  refine ⟨⟨hformed.nodup, hformed.parent, hformed.depth⟩, hids, fun hr => ?_, fun hs => ?_,
    fun {m} hm d => ?_, fun {m} hm d => ?_, fun {m} hm d => ?_, fun {m} hm d limit hl => ?_⟩
  · obtain ⟨hn, hnodup, hchain, hamounts⟩ := htaken hr
    exact ⟨hsome hn, hnodup, fun a => (hchain a).trans (hbelow a _).symm, hamounts⟩
  · obtain ⟨hn, hnonneg⟩ := hspent hs
    exact ⟨hsome hn, hnonneg⟩
  · obtain ⟨n, hn, rfl⟩ := List.mem_map.1 hm
    have htotal := (sumWhere_congr (f := fun r : Reservation => r.amounts d) fun r _ =>
      and_congr_right fun _ => hbelow n.budgetId r.budgetId).trans (hopen n.budgetId d)
    rw [← hb.reserved hn] at htotal
    by_cases hin : n.budgetId ∈ chain
    · simp only [if_pos hin] at htotal ⊢
      exact htotal.symm
    · simp only [if_neg hin, add_zero] at htotal ⊢
      exact htotal.symm
  · obtain ⟨n, hn, rfl⟩ := List.mem_map.1 hm
    have htotal := (sumWhere_congr (f := fun s : String × (BudgetDimension → ℤ) => s.2 d) fun s _ =>
      hbelow n.budgetId s.1).trans (hsum n.budgetId d)
    rw [← hb.consumed hn] at htotal
    by_cases hin : n.budgetId ∈ chain
    · simp only [if_pos hin] at htotal ⊢
      exact htotal.symm
    · simp only [if_neg hin, add_zero] at htotal ⊢
      exact htotal.symm
  · obtain ⟨n, hn, rfl⟩ := List.mem_map.1 hm
    by_cases hin : n.budgetId ∈ chain
    · simp only [if_pos hin]
      exact (hroom hn hin d).1
    · simp only [if_neg hin]
      exact hb.safe hn d
  · obtain ⟨n, hn, rfl⟩ := List.mem_map.1 hm
    by_cases hin : n.budgetId ∈ chain
    · simp only [if_pos hin] at hl ⊢
      exact (hroom hn hin d).2 limit hl
    · simp only [if_neg hin] at hl ⊢
      exact hb.limited hn d limit hl

variable {budgetId reservationId : String}

theorem Balanced.reserve (hb : Balanced h)
    (hok : h.ledger.reserve budgetId reservationId amounts = .ok ledger') :
    Balanced ⟨ledger', h.spent⟩ := by
  simp only [BudgetLedger.reserve, except_bind_ok, refuseIf_ok, exists_const, except_pure_ok] at hok
  obtain ⟨_, hvalid, hknown, hnew, _, hroom, rfl⟩ := hok
  obtain ⟨n₀, hn₀⟩ : ∃ n, h.ledger.node? budgetId = some n :=
    Option.ne_none_iff_exists'.1 (by simpa using hknown)
  obtain ⟨hchain, hnodup, hmem⟩ := hb.formed.chain_spec hn₀
  have hfresh : reservationId ∉ h.ledger.reservations.map Reservation.reservationId := by
    simpa [reservation?, List.find?_eq_none] using hnew
  have hcharged : Balanced
      ⟨{ chargeChain (h.ledger.chainIds budgetId) (filled amounts) (fun _ => 0) h.ledger with
        reservations := h.ledger.reservations ++
          [⟨reservationId, budgetId, h.ledger.chainIds budgetId, filled amounts, true⟩] },
        h.spent⟩ := by
    refine hb.charge ?_ ?_ (fun hs => hb.spent hs) (fun b d => ?_) (fun b d => ?_)
      fun {n} hn hin d => ?_
    · rw [List.map_append]
      exact hb.ids.append (List.nodup_singleton _) (List.disjoint_singleton.2 hfresh)
    · intro r hr
      rcases List.mem_append.1 hr with hr | hr
      · exact hb.taken hr
      · cases List.mem_singleton.1 hr
        exact ⟨⟨n₀, hn₀⟩, hnodup, hmem, filled_nonneg hvalid⟩
    · rw [sumWhere_append]
      by_cases hin : h.ledger.AtOrBelow budgetId b
      · rw [if_pos ⟨rfl, hin⟩, if_pos ((hmem b).2 hin)]
        rfl
      · rw [if_neg fun h' => hin h'.2, if_neg fun h' => hin ((hmem b).1 h')]
        rfl
    · simp only [ite_self, add_zero]
      rfl
    · obtain ⟨m, hm, hid⟩ := List.mem_map.1 hin
      have hfound := hchain m hm
      rw [hid, hb.formed.node?_of_mem hn] at hfound
      cases hfound
      obtain ⟨hlimit, hsafe⟩ := preflight_ok
        (forM_ok_mem (forM_ok_mem hroom n hm) d (mem_budgetDimensions d))
      simp only [add_zero]
      exact ⟨hsafe, hlimit⟩
  simp only [chargeChain, add_zero, chainIds] at hcharged
  exact hcharged

/-- The end of a reservation. -/
theorem Balanced.close (hb : Balanced h) {r : Reservation}
    (hr : h.ledger.reservation? reservationId = some r) (hopen : r.isOpen = true)
    {used : BudgetDimension → ℤ} (hused : ∀ d, 0 ≤ used d ∧ used d ≤ r.amounts d)
    (hspent : spent = (r.budgetId, used) :: h.spent ∨ spent = h.spent ∧ ∀ d, used d = 0) :
    Balanced ⟨h.ledger.close r used, spent⟩ := by
  have hmem : r ∈ h.ledger.reservations := List.mem_of_find?_eq_some hr
  obtain ⟨hbudget, hnodup, hchain, -⟩ := hb.taken hmem
  have hcharged : Balanced
      ⟨{ chargeChain r.chain (fun d => -r.amounts d) used h.ledger with
        reservations := h.ledger.reservations.map fun r' =>
          if r'.reservationId = r.reservationId then { r' with isOpen := false } else r' },
        spent⟩ := by
    refine hb.charge ?_ ?_ ?_ (fun b d => ?_) (fun b d => ?_) fun {n} hn hin d => ?_
    · rw [List.map_map]
      refine (List.map_congr_left fun r' _ => ?_ : _ = h.ledger.reservations.map _) ▸ hb.ids
      simp only [Function.comp_apply]
      split <;> rfl
    · intro r' hr'
      obtain ⟨r₀, hr₀, rfl⟩ := List.mem_map.1 hr'
      have hold := hb.taken hr₀
      split <;> exact hold
    · intro s hs
      rcases hspent with rfl | ⟨rfl, -⟩
      · rcases List.mem_cons.1 hs with rfl | hs
        · exact ⟨hbudget, fun d => (hused d).1⟩
        · exact hb.spent hs
      · exact hb.spent hs
    · rw [sumWhere_map hb.ids hmem (fun h' => ?_) fun r' hne => if_neg hne]
      · by_cases hin : h.ledger.AtOrBelow r.budgetId b
        · rw [if_pos ⟨hopen, hin⟩, if_pos ((hchain b).2 hin)]
          rfl
        · rw [if_neg fun h' => hin h'.2, if_neg fun h' => hin ((hchain b).1 h'), sub_zero, add_zero]
          rfl
      · simp only [if_true] at h'
        cases h'.1
    · rcases hspent with rfl | ⟨rfl, hzero⟩
      · rw [sumWhere_cons, add_comm]
        by_cases hin : h.ledger.AtOrBelow r.budgetId b
        · rw [if_pos hin, if_pos ((hchain b).2 hin)]
          rfl
        · rw [if_neg hin, if_neg fun h' => hin ((hchain b).1 h')]
          rfl
      · rw [hzero, ite_self, add_zero]
        rfl
    · obtain ⟨hlow, hhigh⟩ := hused d
      refine ⟨?_, fun limit hl => ?_⟩
      · have hsafe := hb.safe hn d
        linarith
      · have hlimited := hb.limited hn d limit hl
        linarith
  simp only [chargeChain, ← sub_eq_add_neg] at hcharged
  exact hcharged

/-! ## Every call keeps the balance -/

theorem narrowLimits_within (inherited requested : BudgetLimits) :
    Within (narrowLimits inherited requested) inherited := by
  intro d limit hl
  rw [narrowLimits, hl]
  rcases requested d with _ | own
  · exact ⟨limit, rfl, le_refl _⟩
  · exact ⟨min limit own, rfl, min_le_left _ _⟩

theorem narrowLimits_nonneg {inherited requested : BudgetLimits}
    (hinherited : ∀ d limit, inherited d = some limit → 0 ≤ limit)
    (hrequested : ∀ d limit, requested d = some limit → 0 ≤ limit) (d : BudgetDimension) (limit : ℤ)
    (hl : narrowLimits inherited requested d = some limit) : 0 ≤ limit := by
  rw [narrowLimits] at hl
  rcases hi : inherited d with _ | i
  · rw [hi] at hl
    exact hrequested d limit hl
  · rcases hr : requested d with _ | r
    · rw [hi, hr] at hl
      cases hl
      exact hinherited d limit hi
    · rw [hi, hr] at hl
      cases hl
      exact le_min (hinherited d i hi) (hrequested d r hr)

variable {limits : BudgetAmounts}

theorem limits_nonneg (h : validateAmounts limits = .ok u)
    (d : BudgetDimension) (limit : ℤ) (hl : (limits d).map Rat.num = some limit) : 0 ≤ limit := by
  obtain ⟨q, hq, rfl⟩ := Option.map_eq_some_iff.1 hl
  exact validateAmounts_nonneg h hq

theorem Balanced.createRoot (hb : Balanced h)
    (hok : h.ledger.createRoot budgetId limits = .ok ledger') : Balanced ⟨ledger', h.spent⟩ := by
  simp only [BudgetLedger.createRoot, except_bind_ok, refuseIf_ok, exists_const,
    except_pure_ok] at hok
  obtain ⟨hfresh, _, hvalid, rfl⟩ := hok
  exact hb.withNode (by simpa using hfresh) (fun _ => rfl) (fun _ => rfl) (limits_nonneg hvalid)
    (fun _ hp => (by cases hp)) (Nat.zero_le _)

theorem Balanced.createChild (hb : Balanced h) {parentId : String}
    (hok : h.ledger.createChild parentId budgetId limits = .ok ledger') :
    Balanced ⟨ledger', h.spent⟩ := by
  rw [BudgetLedger.createChild] at hok
  split at hok
  · cases hok
  next parent hparent =>
    simp only [except_bind_ok, refuseIf_ok, exists_const, except_pure_ok] at hok
    obtain ⟨hfresh, -, _, hvalid, rfl⟩ := hok
    have hmem := (node?_eq_some hparent).1
    refine hb.withNode (by simpa using hfresh) (fun _ => rfl) (fun _ => rfl) ?_ (fun _ hp => ?_)
      (hb.formed.depth hmem)
    · refine narrowLimits_nonneg (fun d limit hl => ?_) (limits_nonneg hvalid)
      have hlimited := hb.limited hmem d limit hl
      have hreserved := hb.reserved_nonneg hmem d
      have hconsumed := hb.consumed_nonneg hmem d
      linarith
    · cases hp
      exact ⟨parent, hparent, rfl, narrowLimits_within _ _⟩

theorem consume_eq_ok {actual : BudgetAmounts}
    (hok : ledger.consume reservationId actual = .ok ledger') :
    ∃ r, ledger.reservation? reservationId = some r ∧ r.isOpen = true ∧
      (∀ d, 0 ≤ filled actual d ∧ filled actual d ≤ r.amounts d) ∧
      ledger' = ledger.close r (filled actual) := by
  rw [consume, except_bind_ok] at hok
  obtain ⟨_, hvalid, hok⟩ := hok
  split at hok
  · cases hok
  next r hr =>
    simp only [except_bind_ok, refuseIf_ok, exists_const, except_pure_ok] at hok
    obtain ⟨hopen, _, hwithin, rfl⟩ := hok
    refine ⟨r, hr, by simpa using hopen, fun d => ⟨filled_nonneg hvalid d, ?_⟩, rfl⟩
    have hd := forM_ok_mem hwithin d (mem_budgetDimensions d)
    split at hd
    · cases hd
    next hle => exact not_lt.1 hle

theorem Balanced.call (hb : Balanced h) (c : Call) : Balanced (h.call c) := by
  have hout := outcome_perform hb.chained c
  rw [History.call, hout]
  rcases c with ⟨budgetId, limits⟩ | ⟨parentId, budgetId, limits⟩ |
    ⟨budgetId, reservationId, amounts⟩ | ⟨reservationId, actual⟩ | reservationId
  · rw [attempt]
    rcases hok : h.ledger.createRoot budgetId limits with e | ledger'
    · exact hb
    · exact hb.createRoot hok
  · rw [attempt]
    rcases hok : h.ledger.createChild parentId budgetId limits with e | ledger'
    · exact hb
    · exact hb.createChild hok
  · rw [attempt]
    rcases hok : h.ledger.reserve budgetId reservationId amounts with e | ledger'
    · exact hb
    · exact hb.reserve hok
  · rw [attempt] at hout ⊢
    change outcome (BudgetCalls.consume reservationId actual) h.ledger = _ at hout
    rw [spentBy, hout]
    rcases hok : h.ledger.consume reservationId actual with e | ledger'
    · exact hb
    · obtain ⟨r, hr, hopen, hused, rfl⟩ := consume_eq_ok hok
      rw [hr]
      exact hb.close hr hopen hused (.inl rfl)
  · rw [attempt]
    rcases hok : h.ledger.release reservationId with e | ledger'
    · exact hb
    · rw [release] at hok
      split at hok
      · cases hok
      next r hr =>
        split at hok
        · cases hok
          exact hb
        next hopen =>
          cases hok
          have hmem : r ∈ h.ledger.reservations := List.mem_of_find?_eq_some hr
          exact hb.close hr (by simpa using hopen)
            (fun d => ⟨le_refl _, (hb.taken hmem).2.2.2 d⟩) (.inr ⟨rfl, fun _ => rfl⟩)

theorem balanced_start : Balanced History.start :=
  ⟨⟨List.nodup_nil, nofun, nofun⟩,
    List.nodup_nil, nofun, nofun,
    nofun, nofun,
    nofun, nofun⟩

theorem Balanced.calls (hb : Balanced h) (cs : List Call) : Balanced (h.calls cs) := by
  induction cs generalizing h with
  | nil => exact hb
  | cons c cs ih => exact ih (hb.call c)

end Falryn.Orchestration.BudgetLedger
