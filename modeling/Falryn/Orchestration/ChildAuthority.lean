import Falryn.Lib.StateMachine
import Falryn.Orchestration.EditScope
import Falryn.Orchestration.Work

/-!
# Child authority

The ceiling under which a child executes (`child-admission.ts`).  It is narrowed from that of its parent:
what can be selected is intersected, the edit scope must lie within the parent's.  Along a chain of
children nothing is ever gained (`authority_narrows`).
-/

namespace Falryn.Orchestration

/-! ## Authorities -/

structure ChildProviderBinding where
  providerId : String
  providerProfileId : String
  providerDestinationId : String
  modelId : String
  reasoning : String
  reasoningControl : Option String
  deriving DecidableEq

structure ChildAuthority where
  workspaceId : String
  configurationGeneration : String
  capabilityGeneration : String
  providers : List ChildProviderBinding
  capabilities : List String
  effects : List EffectClass
  editScope : EditScope
  deriving DecidableEq

def sameChildProvider (left right : ChildProviderBinding) : Bool :=
  left.providerId = right.providerId && left.providerProfileId = right.providerProfileId &&
    left.providerDestinationId = right.providerDestinationId && left.modelId = right.modelId &&
    left.reasoning = right.reasoning && left.reasoningControl = right.reasoningControl

def narrowChildAuthority (parent requested : ChildAuthority) : Option ChildAuthority :=
  if parent.workspaceId ≠ requested.workspaceId ∨
      parent.configurationGeneration ≠ requested.configurationGeneration ∨
      parent.capabilityGeneration ≠ requested.capabilityGeneration then none
  else
    let editScope := requested.editScope <|> parent.editScope
    if editScopeWithin editScope parent.editScope = false then none
    else some { requested with
      providers := requested.providers.filter fun value => parent.providers.any (sameChildProvider value)
      capabilities := requested.capabilities.filter fun value => parent.capabilities.contains value
      effects := requested.effects.filter fun value => parent.effects.contains value
      editScope }

/-! ## Narrowing -/

theorem sameChildProvider_iff {left right : ChildProviderBinding} :
    sameChildProvider left right = true ↔ left = right := by
  obtain ⟨a, b, c, d, e, f⟩ := left
  obtain ⟨a', b', c', d', e', f'⟩ := right
  simp [sameChildProvider, and_assoc]

/-- One authority is no wider than another. -/
structure NoWider (child parent : ChildAuthority) : Prop where
  providers : child.providers ⊆ parent.providers
  capabilities : child.capabilities ⊆ parent.capabilities
  effects : child.effects ⊆ parent.effects
  contained : ∀ path, editScopeContains child.editScope path = true →
    editScopeContains parent.editScope path = true
  permitted : ∀ root targets confined,
    checkEditScopeWrites { scope := child.editScope, root, writes := .paths, targets, confined } = none →
    checkEditScopeWrites { scope := parent.editScope, root, writes := .paths, targets, confined } = none

theorem NoWider.refl (authority : ChildAuthority) : NoWider authority authority where
  providers := List.Subset.refl _
  capabilities := List.Subset.refl _
  effects := List.Subset.refl _
  contained _ h := h
  permitted _ _ _ h := h

theorem NoWider.trans {a b c : ChildAuthority} (h : NoWider a b) (h' : NoWider b c) : NoWider a c where
  providers := List.Subset.trans h.providers h'.providers
  capabilities := List.Subset.trans h.capabilities h'.capabilities
  effects := List.Subset.trans h.effects h'.effects
  contained path hpath := h'.contained path (h.contained path hpath)
  permitted root targets confined hnone :=
    h'.permitted root targets confined (h.permitted root targets confined hnone)

/-- One step narrows. -/
theorem noWider_narrow {parent requested child : ChildAuthority}
    (h : narrowChildAuthority parent requested = some child) : NoWider child parent := by
  unfold narrowChildAuthority at h
  dsimp only at h
  split_ifs at h with _ hwithin
  cases h
  have hwithin : editScopeWithin (requested.editScope <|> parent.editScope) parent.editScope = true := by
    simpa using hwithin
  refine ⟨fun value hvalue => ?_, fun value hvalue => ?_, fun value hvalue => ?_,
    fun _ => editScopeContains_of_within hwithin, fun _ _ _ =>
      checkEditScopeWrites_of_within hwithin⟩
  · obtain ⟨allowed, hallowed, hsame⟩ := List.any_eq_true.1 (List.mem_filter.1 hvalue).2
    rwa [sameChildProvider_iff.1 hsame]
  · exact List.contains_iff_mem.1 (List.mem_filter.1 hvalue).2
  · exact List.contains_iff_mem.1 (List.mem_filter.1 hvalue).2

theorem noWider_run {requests : List ChildAuthority} : ∀ {authority last : ChildAuthority},
    StateMachine.run narrowChildAuthority authority requests = some last → NoWider last authority := by
  induction requests with
  | nil =>
    intro authority last h
    cases h
    exact .refl _
  | cons _ requests ih =>
    intro authority last h
    obtain ⟨child, hchild, hrest⟩ := StateMachine.run_cons.1 h
    exact (ih hrest).trans (noWider_narrow hchild)

/-- **Authority only narrows.**  Along a chain of accepted requests the last authority selects nothing
that one above it does not, its edit scope contains no path that the scope of one above does not, and
every write to paths it is permitted is permitted to all above. -/
theorem authority_narrows {root last : ChildAuthority} {above below : List ChildAuthority}
    (h : StateMachine.run narrowChildAuthority root (above ++ below) = some last) :
    ∃ authority, StateMachine.run narrowChildAuthority root above = some authority ∧
      NoWider last authority := by
  obtain ⟨authority, habove, hbelow⟩ := StateMachine.run_append.1 h
  exact ⟨authority, habove, noWider_run hbelow⟩

/-- An authority over a scope. -/
def scopedAuthority (editScope : EditScope) : ChildAuthority where
  workspaceId := "w"
  configurationGeneration := "1"
  capabilityGeneration := "1"
  providers := []
  capabilities := ["edit"]
  effects := []
  editScope

theorem authority_narrows_globs :
    StateMachine.run narrowChildAuthority (scopedAuthority (some ["src/*"]))
      ([scopedAuthority (some ["src/a"])] ++ [scopedAuthority none]) =
        some (scopedAuthority (some ["src/a"])) ∧
    ∃ authority, StateMachine.run narrowChildAuthority (scopedAuthority (some ["src/*"]))
      [scopedAuthority (some ["src/a"])] = some authority ∧
        NoWider (scopedAuthority (some ["src/a"])) authority := by
  have hrun : StateMachine.run narrowChildAuthority (scopedAuthority (some ["src/*"]))
      ([scopedAuthority (some ["src/a"])] ++ [scopedAuthority none]) =
        some (scopedAuthority (some ["src/a"])) := by decide +kernel
  exact ⟨hrun, authority_narrows hrun⟩

end Falryn.Orchestration
