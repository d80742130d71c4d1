import Mathlib

/-!
# Terminal outcomes

How a piece of work ended and what it did to the world (`domain/orchestration/outcome.ts`).  The four
effect certainties are listed from the harmless to the one that demands inspection; `severity` is
that order.
-/

namespace Falryn.Orchestration

/-- Whether the work changed anything outside the runtime. -/
inductive EffectCertainty where
  | none
  | completed
  | partial_
  | uncertain
  deriving DecidableEq

namespace EffectCertainty

/-- The position in the list of certainties. -/
def severity : EffectCertainty → ℕ
  | none => 0
  | completed => 1
  | partial_ => 2
  | uncertain => 3

theorem severity_injective : Function.Injective severity := by
  intro a b h
  cases a <;> cases b <;> first | rfl | cases h

instance : LinearOrder EffectCertainty := LinearOrder.lift' severity severity_injective

variable {a : EffectCertainty}

theorem le_iff {b : EffectCertainty} : a ≤ b ↔ a.severity ≤ b.severity := Iff.rfl

@[simp] theorem none_le (a : EffectCertainty) : none ≤ a := Nat.zero_le _

@[simp] theorem le_uncertain (a : EffectCertainty) : a ≤ uncertain := by
  cases a <;> exact le_iff.2 (by decide)

@[simp] theorem le_none_iff : a ≤ none ↔ a = none := by
  cases a <;> simp [le_iff, severity]

end EffectCertainty

/-- How work ended. -/
inductive TerminalOutcome where
  | completed
  | failed (effect : EffectCertainty)
  | cancelled (effect : EffectCertainty)
  | timedOut (effect : EffectCertainty)
  | uncertain
  deriving DecidableEq

/-- `effectOf`: the effect an outcome implies. -/
def effectOf : TerminalOutcome → EffectCertainty
  | .completed => .completed
  | .failed effect => effect
  | .cancelled effect => effect
  | .timedOut effect => effect
  | .uncertain => .uncertain

def requiresInspection (outcome : TerminalOutcome) : Bool :=
  effectOf outcome = .uncertain || effectOf outcome = .partial_

end Falryn.Orchestration
