import Falryn.Orchestration.ProcessTask
import Falryn.Orchestration.ScopeTree

/-!
# Verdicts on joins

A parent joins the agents it launched (`agent-join.ts`): a join names the generations of children it
waits for and a policy, and `evaluateJoin` decides it on what is known of their ends.

* `evaluateJoin_perm`: the order in which the evidence comes does not matter.
* `evaluateJoin_waits`: a join waits for a child that is running.
* `evaluateJoin_satisfied_later`, `evaluateJoin_failed_later`: a verdict stands when children that were
  running end later.  A failure is taken back only when it came from a running child with an uncertain
  effect, which no evidence has that is collected.
-/

namespace Falryn.Orchestration

/-- `JOIN_LIMITS.children`. -/
def maxJoinChildren : ℕ := 16

/-- `agentGenerationSchema`. -/
structure AgentGeneration where
  taskId : String
  generation : ℕ
  task : ProcessTaskHandle
  deriving DecidableEq

inductive JoinMode where
  | all
  | firstSuccess
  | quorum
  deriving DecidableEq

/-- `joinPolicySchema`. -/
structure JoinPolicy where
  mode : JoinMode
  quorum : Option ℕ
  partialOnFailure : Bool
  cancelRemaining : Bool

/-- `joinInputSchema`, before it is checked. -/
structure JoinInput where
  id : String
  generation : ℕ
  children : List AgentGeneration
  policy : JoinPolicy

/-- The generations an agent or a join can have. -/
def isJoinGeneration (generation : ℕ) : Bool := decide (1 ≤ generation) && decide (generation ≤ 64)

/-- The rules of `joinInputSchema`. -/
def JoinInput.Schema (input : JoinInput) : Prop :=
  isJoinGeneration input.generation = true ∧ 1 ≤ input.children.length
    ∧ input.children.length ≤ maxJoinChildren
    ∧ (∀ child ∈ input.children, isJoinGeneration child.generation = true)
    ∧ (input.children.map AgentGeneration.taskId).Nodup
    ∧ if input.policy.mode = .quorum then
        ∃ quorum ∈ input.policy.quorum, 1 ≤ quorum ∧ quorum ≤ input.children.length
      else input.policy.quorum = none

instance JoinInput.decidableSchema (input : JoinInput) : Decidable input.Schema := by
  unfold JoinInput.Schema
  infer_instance

/-- `agentLinkSchema`, what a verdict reads of it. -/
structure AgentLink where
  handle : AgentGeneration
  required : Bool
  detached : Bool

/-- The states of an evidence; one that ended has the outcome of its task. -/
inductive EvidenceState where
  | running
  | missing
  | stale
  | invalid
  | ended (outcome : TerminalOutcomeKind)
  deriving DecidableEq

/-- `joinEvidenceSchema`. -/
structure JoinEvidence where
  handle : AgentGeneration
  state : EvidenceState
  effect : EffectCertainty
  resultDigest : Option String
  artifactId : Option String
  sequence : Option ℕ

/-- The states of a join. -/
inductive JoinState where
  | waiting
  | satisfied
  | failed
  | cancelled

/-! ## The decision -/

namespace JoinEvidence

/-- An evidence of success. -/
def Valid (item : JoinEvidence) : Prop :=
  item.state = .ended .completed ∧ item.effect ≠ .uncertain ∧ item.resultDigest ≠ none
    ∧ item.sequence ≠ none

instance decidableValid (item : JoinEvidence) : Decidable item.Valid := by
  unfold Valid
  infer_instance

end JoinEvidence

/-- The successes, in the order in which they were sealed. -/
def validEvidence (evidence : List JoinEvidence) : List JoinEvidence :=
  (evidence.filter fun item => decide item.Valid).mergeSort fun a b =>
    decide (a.sequence.getD 0 ≤ b.sequence.getD 0)

/-- The successes a join asks for. -/
def JoinInput.threshold (input : JoinInput) : ℕ :=
  match input.policy.mode with
  | .all => input.children.length
  | .firstSuccess => 1
  | .quorum => input.policy.quorum.getD input.children.length

/-- The state of a required child; an uncertain effect makes it uncertain. -/
def requiredState (evidence : List JoinEvidence) (link : AgentLink) : EvidenceState :=
  match evidence.find? fun item => decide (item.handle.taskId = link.handle.taskId) with
  | none => .missing
  | some item => if item.effect = .uncertain then .ended .uncertain else item.state

/-- The links that have to succeed. -/
def requiredLinks (links : List AgentLink) : List AgentLink :=
  links.filter fun link => link.required && !link.detached

/-- The entries that are still running. -/
def pending (evidence : List JoinEvidence) : ℕ := evidence.countP fun item => decide (item.state = .running)

/-- `mandatoryFailed`. -/
def MandatoryFailed (links : List AgentLink) (evidence : List JoinEvidence) : Prop :=
  ∃ link ∈ requiredLinks links,
    requiredState evidence link ≠ .ended .completed ∧ requiredState evidence link ≠ .running

instance MandatoryFailed.decidable (links : List AgentLink) (evidence : List JoinEvidence) : Decidable (MandatoryFailed links evidence) :=
  inferInstanceAs (Decidable (∃ _ ∈ _, _))

/-- Every required child succeeded, and as many children as are asked for. -/
def JoinMet (input : JoinInput) (links : List AgentLink) (evidence : List JoinEvidence) : Prop :=
  (∀ link ∈ requiredLinks links, requiredState evidence link = .ended .completed)
    ∧ input.threshold ≤ (validEvidence evidence).length

instance JoinMet.decidable (input : JoinInput) (links : List AgentLink) (evidence : List JoinEvidence) :
    Decidable (JoinMet input links evidence) := inferInstanceAs (Decidable (_ ∧ _))

/-- What `evaluateJoin` decides. -/
structure JoinDecision where
  state : JoinState
  selected : List String

def evaluateJoin (input : JoinInput) (links : List AgentLink) (evidence : List JoinEvidence) :
    JoinDecision :=
  if ¬ MandatoryFailed links evidence ∧ JoinMet input links evidence then
    ⟨.satisfied, (((validEvidence evidence).take input.threshold).map (·.handle.taskId)
      ++ (requiredLinks links).map (·.handle.taskId)).eraseDups⟩
  else if MandatoryFailed links evidence
      ∨ (validEvidence evidence).length + pending evidence < input.threshold then
    ⟨.failed, if input.policy.partialOnFailure then (validEvidence evidence).map (·.handle.taskId) else []⟩
  else ⟨.waiting, []⟩

/-! ## Sorted evidence -/

/-- What is smaller than all the rest comes first in a sorted list. -/
theorem eq_append_of_sorted {α : Type*} {key : α → ℕ} : ∀ {first rest l : List α},
    first.Pairwise (fun x y => key x < key y) → (∀ x ∈ first, ∀ y ∈ rest, key x < key y) →
    l.Pairwise (fun x y => key x ≤ key y) → l.Perm (first ++ rest) → ∃ l', l = first ++ l' ∧ l'.Perm rest := by
  intro first
  induction first with
  | nil => exact fun _ _ _ hperm => ⟨_, rfl, hperm⟩
  | cons x first ih =>
    intro rest l hfirst hrest hsorted hperm
    obtain ⟨hx, hlater⟩ := List.pairwise_cons.1 hfirst
    obtain ⟨hxrest, hbelow⟩ := List.forall_mem_cons.1 hrest
    rcases l with _ | ⟨y, l⟩
    · exact absurd hperm.symm (List.not_perm_cons_nil)
    · obtain ⟨hy, hsorted⟩ := List.pairwise_cons.1 hsorted
      have hyx : y = x := by
        by_contra hne
        have hxl : x ∈ l := (List.mem_cons.1 (hperm.mem_iff.2 List.mem_cons_self)).resolve_left (Ne.symm hne)
        have hylater : y ∈ first ++ rest :=
          (List.mem_cons.1 (hperm.mem_iff.1 List.mem_cons_self)).resolve_left hne
        have hlt : key x < key y := (List.mem_append.1 hylater).elim (hx y) (hxrest y)
        exact absurd (hy x hxl) (not_le.2 hlt)
      subst hyx
      obtain ⟨l', rfl, hl'⟩ := ih hlater hbelow hsorted (List.Perm.cons_inv hperm)
      exact ⟨l', rfl, hl'⟩

/-- The place of a success among the others. -/
def JoinEvidence.place (item : JoinEvidence) : ℕ := item.sequence.getD 0

theorem validEvidence_perm (evidence : List JoinEvidence) :
    (validEvidence evidence).Perm (evidence.filter fun item => decide item.Valid) :=
  List.mergeSort_perm _ _

theorem validEvidence_sorted (evidence : List JoinEvidence) :
    (validEvidence evidence).Pairwise fun x y => x.place ≤ y.place := by
  have hsorted := @List.pairwise_mergeSort _ (fun a b : JoinEvidence =>
      decide (a.sequence.getD 0 ≤ b.sequence.getD 0))
    (fun a b _ hab hbc => decide_eq_true ((of_decide_eq_true hab).trans (of_decide_eq_true hbc)))
    (fun a b => by simpa using Nat.le_total _ _) (evidence.filter fun item => decide item.Valid)
  exact hsorted.imp of_decide_eq_true

/-! ## Runs of evidence -/

/-- What is promised of the children, the links and the evidence of a join: the links are to its
children, there is at most one entry for each of them, and no two have one sequence. -/
structure JoinInputs (input : JoinInput) (links : List AgentLink) (evidence : List JoinEvidence) : Prop where
  belongs : ∀ link ∈ links, link.handle ∈ input.children
  once : ∀ child ∈ input.children,
    (evidence.filter fun item => decide (item.handle.taskId = child.taskId)).length ≤ 1
  distinct : (evidence.filterMap JoinEvidence.sequence).Nodup

/-- An entry that ran gives way to one that ended after all that is there. -/
structure EndsLater (evidence : List JoinEvidence) (item item' : JoinEvidence) : Prop where
  running : item.state = .running
  handle : item'.handle = item.handle
  ended : item'.state ≠ .running
  later : ∀ s' ∈ item'.sequence, ∀ other ∈ evidence, ∀ s ∈ other.sequence, s < s'

/-- Evidence in which some entries of a kind ended later. -/
def Settles (kind : JoinEvidence → Prop) (evidence evidence' : List JoinEvidence) : Prop :=
  List.Forall₂ (fun item item' => item' = item ∨ (kind item ∧ EndsLater evidence item item')) evidence
    evidence'

section

variable {input : JoinInput} {links : List AgentLink} {evidence evidence' : List JoinEvidence}

theorem valid_strict (h : (evidence.filterMap JoinEvidence.sequence).Nodup) :
    (validEvidence evidence).Pairwise fun x y => x.place < y.place := by
  have hnodup : ((validEvidence evidence).filterMap JoinEvidence.sequence).Nodup := by
    refine ((validEvidence_perm evidence).filterMap _).nodup_iff.2 ?_
    exact h.sublist (List.filter_sublist.filterMap _)
  have hvalid : ∀ item ∈ validEvidence evidence, item.Valid := fun item hitem =>
    of_decide_eq_true (List.mem_filter.1 ((validEvidence_perm evidence).mem_iff.1 hitem)).2
  have hmap : (validEvidence evidence).filterMap JoinEvidence.sequence
      = (validEvidence evidence).map JoinEvidence.place := by
    rw [← List.filterMap_eq_map]
    refine List.filterMap_congr fun item hitem => ?_
    obtain ⟨s, hs⟩ := Option.ne_none_iff_exists'.1 (hvalid item hitem).2.2.2
    rw [Function.comp_apply, JoinEvidence.place, hs]
    rfl
  rw [hmap] at hnodup
  have hne := List.pairwise_map.1 hnodup
  exact (validEvidence_sorted evidence).imp₂ (fun _ _ hle hne => lt_of_le_of_ne hle hne) hne

/-- The successes do not depend on the order of the evidence. -/
theorem validEvidence_eq_of_perm (h : (evidence.filterMap JoinEvidence.sequence).Nodup)
    (hperm : evidence'.Perm evidence) : validEvidence evidence' = validEvidence evidence := by
  have hvalid : (validEvidence evidence').Perm (validEvidence evidence ++ []) := by
    rw [List.append_nil]
    exact ((validEvidence_perm evidence').trans (hperm.filter _)).trans (validEvidence_perm evidence).symm
  obtain ⟨rest, heq, hrest⟩ := eq_append_of_sorted (valid_strict h)
    (fun _ _ _ hy => absurd hy List.not_mem_nil) (validEvidence_sorted evidence') hvalid
  rw [heq, hrest.eq_nil, List.append_nil]

variable {link : AgentLink}

theorem requiredState_eq_of_perm
    (h : (evidence.filter fun item => decide (item.handle.taskId = link.handle.taskId)).length ≤ 1)
    (hperm : evidence'.Perm evidence) : requiredState evidence' link = requiredState evidence link := by
  have hfilter := hperm.filter fun item => decide (item.handle.taskId = link.handle.taskId)
  unfold requiredState
  rw [← List.head?_filter, ← List.head?_filter]
  rcases hfound : evidence.filter fun item => decide (item.handle.taskId = link.handle.taskId) with
    _ | ⟨item, _ | ⟨other, items⟩⟩
  · rw [hfound] at hfilter
    rw [hfilter.eq_nil, hfound]
  · rw [hfound] at hfilter
    rw [List.perm_singleton.1 hfilter, hfound]
  · rw [hfound, List.length_cons, List.length_cons] at h
    omega

/-- A verdict depends on the successes, the states of the required children and what is pending. -/
theorem evaluateJoin_congr (hvalid : validEvidence evidence' = validEvidence evidence)
    (hstates : ∀ link ∈ requiredLinks links, requiredState evidence' link = requiredState evidence link)
    (hpending : pending evidence' = pending evidence) :
    evaluateJoin input links evidence' = evaluateJoin input links evidence := by
  have hfailed : MandatoryFailed links evidence' ↔ MandatoryFailed links evidence := by
    unfold MandatoryFailed
    exact exists_congr fun link => and_congr_right fun hlink => by rw [hstates link hlink]
  have hmet : JoinMet input links evidence' ↔ JoinMet input links evidence := by
    unfold JoinMet
    rw [hvalid]
    exact and_congr_left' (forall₂_congr fun link hlink => by rw [hstates link hlink])
  unfold evaluateJoin
  simp only [hfailed, hmet, hvalid, hpending]

/-- **The order of the evidence does not matter.** -/
theorem evaluateJoin_perm (h : JoinInputs input links evidence) (hperm : evidence'.Perm evidence) :
    evaluateJoin input links evidence' = evaluateJoin input links evidence :=
  evaluateJoin_congr (validEvidence_eq_of_perm h.distinct hperm)
    (fun link hlink => requiredState_eq_of_perm
      (h.once _ (h.belongs link (List.mem_of_mem_filter hlink))) hperm)
    (hperm.countP_eq _)

/-! ## Waiting -/

theorem satisfied_iff : (evaluateJoin input links evidence).state = .satisfied ↔
    JoinMet input links evidence := by
  have hmet : JoinMet input links evidence → ¬ MandatoryFailed links evidence :=
    fun h ⟨link, hlink, hcompleted, _⟩ => hcompleted (h.1 link hlink)
  unfold evaluateJoin
  split_ifs with hsatisfied hfailed
  · exact iff_of_true rfl hsatisfied.2
  · exact iff_of_false nofun fun h => hsatisfied ⟨hmet h, h⟩
  · exact iff_of_false nofun fun h => hsatisfied ⟨hmet h, h⟩

theorem failed_iff : (evaluateJoin input links evidence).state = .failed ↔ MandatoryFailed links evidence
    ∨ (validEvidence evidence).length + pending evidence < input.threshold := by
  unfold evaluateJoin
  by_cases hsatisfied : ¬ MandatoryFailed links evidence ∧ JoinMet input links evidence
  · rw [if_pos hsatisfied]
    refine iff_of_false (fun h => nomatch h) ?_
    rintro (hmandatory | hshort)
    · exact hsatisfied.1 hmandatory
    · have := hsatisfied.2.2
      omega
  · rw [if_neg hsatisfied]
    by_cases hfailed : MandatoryFailed links evidence
        ∨ (validEvidence evidence).length + pending evidence < input.threshold
    · rw [if_pos hfailed]
      exact iff_of_true rfl hfailed
    · rw [if_neg hfailed]
      exact iff_of_false (fun h => nomatch h) hfailed

theorem running_of_requiredState (h : requiredState evidence link = .running) :
    ∃ item ∈ evidence, item.state = .running := by
  unfold requiredState at h
  cases hfind : evidence.find? fun item => decide (item.handle.taskId = link.handle.taskId) with
  | none => rw [hfind] at h; cases h
  | some item =>
    rw [hfind] at h
    dsimp only at h
    split_ifs at h
    exact ⟨item, List.mem_of_find?_eq_some hfind, h⟩

/-- **A join waits for a child that is running.** -/
theorem evaluateJoin_waits (h : (evaluateJoin input links evidence).state = .waiting) :
    ∃ item ∈ evidence, item.state = .running := by
  have hsatisfied : ¬ JoinMet input links evidence := fun hmet => by
    rw [satisfied_iff.2 hmet] at h
    cases h
  have hfailed : ¬ (MandatoryFailed links evidence
      ∨ (validEvidence evidence).length + pending evidence < input.threshold) := fun hfailed => by
    rw [failed_iff.2 hfailed] at h
    cases h
  obtain ⟨hmandatory, -⟩ := not_or.1 hfailed
  by_contra hnone
  have hpending : pending evidence = 0 := by
    by_contra hne
    obtain ⟨item, hitem, hrunning⟩ := List.countP_pos_iff.1 (Nat.pos_of_ne_zero hne)
    exact hnone ⟨item, hitem, of_decide_eq_true hrunning⟩
  refine hsatisfied ⟨fun link hlink => ?_, by omega⟩
  by_contra hcompleted
  exact hmandatory ⟨link, hlink, hcompleted, fun hrunning => hnone (running_of_requiredState hrunning)⟩

/-! ## Later ends -/

variable {kind : JoinEvidence → Prop}

/-- The state an entry gives to a required child. -/
def JoinEvidence.requiredState (item : JoinEvidence) : EvidenceState :=
  if item.effect = .uncertain then .ended .uncertain else item.state

theorem requiredState_cons (item : JoinEvidence) (evidence : List JoinEvidence) (link : AgentLink) :
    requiredState (item :: evidence) link
      = if item.handle.taskId = link.handle.taskId then item.requiredState
        else requiredState evidence link := by
  by_cases hlink : item.handle.taskId = link.handle.taskId
  · rw [requiredState, List.find?_cons, decide_eq_true hlink, if_pos hlink]
    rfl
  · rw [requiredState, List.find?_cons, decide_eq_false hlink, if_neg hlink]
    rfl

variable {items items' : List JoinEvidence}

/-- What is found for a link before and after some entries ended: the same, unless an entry that ran is
what was found. -/
theorem requiredState_settles
    (h : List.Forall₂ (fun item item' => item' = item ∨ (kind item ∧ EndsLater evidence item item'))
      items items') :
    requiredState items' link = requiredState items link ∨
      ∃ item, kind item ∧ item.state = .running ∧ requiredState items link = item.requiredState := by
  induction h with
  | nil => exact .inl rfl
  | @cons item item' items items' hitem _ ih =>
    rw [requiredState_cons, requiredState_cons]
    rcases hitem with rfl | ⟨hkind, hends⟩
    · by_cases hlink : item'.handle.taskId = link.handle.taskId
      · rw [if_pos hlink, if_pos hlink]
        exact .inl rfl
      · rw [if_neg hlink, if_neg hlink]
        exact ih
    · rw [hends.handle]
      by_cases hlink : item.handle.taskId = link.handle.taskId
      · rw [if_pos hlink, if_pos hlink]
        exact .inr ⟨item, hkind, hends.running, rfl⟩
      · rw [if_neg hlink, if_neg hlink]
        exact ih

/-- The successes after some entries ended: those there were, and others after them. -/
theorem filter_valid_settles
    (h : List.Forall₂ (fun item item' => item' = item ∨ (kind item ∧ EndsLater evidence item item'))
      items items') :
    ∃ later, (items'.filter fun item => decide item.Valid).Perm
        ((items.filter fun item => decide item.Valid) ++ later)
      ∧ ∀ item' ∈ later, item'.Valid ∧ ∀ s' ∈ item'.sequence, ∀ other ∈ evidence, ∀ s ∈ other.sequence,
        s < s' := by
  induction h with
  | nil => exact ⟨[], .refl _, nofun⟩
  | @cons item item' items items' hitem _ ih =>
    obtain ⟨later, hperm, hlater⟩ := ih
    rcases hitem with rfl | ⟨-, hends⟩
    · refine ⟨later, ?_, hlater⟩
      rw [List.filter_cons, List.filter_cons]
      by_cases hvalid : decide item'.Valid = true
      · rw [if_pos hvalid, if_pos hvalid]
        exact hperm.cons _
      · rw [if_neg hvalid, if_neg hvalid]
        exact hperm
    · have hinvalid : ¬ decide item.Valid = true := fun hvalid => by
        have hstate := (of_decide_eq_true hvalid).1
        rw [hends.running] at hstate
        cases hstate
      rw [List.filter_cons, List.filter_cons, if_neg hinvalid]
      by_cases hvalid : item'.Valid
      · rw [if_pos (decide_eq_true hvalid)]
        exact ⟨item' :: later, (hperm.cons item').trans List.perm_middle.symm,
          List.forall_mem_cons.2 ⟨⟨hvalid, hends.later⟩, hlater⟩⟩
      · rw [if_neg (by simpa using hvalid)]
        exact ⟨later, hperm, hlater⟩

/-- The successes there were come first. -/
theorem validEvidence_settles (h : JoinInputs input links evidence) (hsettles : Settles kind evidence evidence') :
    ∃ later, validEvidence evidence' = validEvidence evidence ++ later := by
  obtain ⟨later, hperm, hlater⟩ := filter_valid_settles hsettles
  have hvalid : (validEvidence evidence').Perm (validEvidence evidence ++ later) :=
    ((validEvidence_perm evidence').trans hperm).trans ((validEvidence_perm evidence).symm.append_right later)
  have hbefore : ∀ x ∈ validEvidence evidence, ∀ y ∈ later, x.place < y.place := by
    intro x hx y hy
    obtain ⟨hmem, hxvalid⟩ := List.mem_filter.1 ((validEvidence_perm evidence).mem_iff.1 hx)
    obtain ⟨s, hs⟩ := Option.ne_none_iff_exists'.1 (of_decide_eq_true hxvalid).2.2.2
    obtain ⟨s', hs'⟩ := Option.ne_none_iff_exists'.1 (hlater y hy).1.2.2.2
    rw [JoinEvidence.place, JoinEvidence.place, hs, hs']
    exact (hlater y hy).2 s' hs' x hmem s hs
  obtain ⟨rest, heq, -⟩ := eq_append_of_sorted (valid_strict h.distinct) hbefore
    (validEvidence_sorted evidence') hvalid
  exact ⟨rest, heq⟩

/-- **A join that is satisfied stays so**, with the same selection. -/
theorem evaluateJoin_satisfied_later (h : JoinInputs input links evidence)
    (hsatisfied : (evaluateJoin input links evidence).state = .satisfied)
    (hsettles : Settles kind evidence evidence') :
    evaluateJoin input links evidence' = evaluateJoin input links evidence := by
  obtain ⟨hrequired, hthreshold⟩ := satisfied_iff.1 hsatisfied
  obtain ⟨later, hlater⟩ := validEvidence_settles h hsettles
  have hrequired' : ∀ link ∈ requiredLinks links, requiredState evidence' link = .ended .completed := by
    intro link hlink
    rcases @requiredState_settles _ link _ _ _ hsettles with hsame | ⟨item, -, hrunning, hfound⟩
    · rw [hsame, hrequired link hlink]
    · -- What ran is not completed.
      rw [hrequired link hlink, JoinEvidence.requiredState, hrunning] at hfound
      split_ifs at hfound
      all_goals cases hfound
  have hmet : JoinMet input links evidence := ⟨hrequired, hthreshold⟩
  have hmet' : JoinMet input links evidence' :=
    ⟨hrequired', by rw [hlater, List.length_append]; omega⟩
  have hfailed : ¬ MandatoryFailed links evidence :=
    fun ⟨link, hlink, hcompleted, _⟩ => hcompleted (hrequired link hlink)
  have hfailed' : ¬ MandatoryFailed links evidence' :=
    fun ⟨link, hlink, hcompleted, _⟩ => hcompleted (hrequired' link hlink)
  rw [evaluateJoin, evaluateJoin, if_pos ⟨hfailed', hmet'⟩, if_pos ⟨hfailed, hmet⟩, hlater,
    List.take_append_of_le_length hthreshold]

/-- An entry that is running or a success was one of both before. -/
theorem countP_settles
    (h : List.Forall₂ (fun item item' => item' = item ∨ (kind item ∧ EndsLater evidence item item'))
      items items') :
    items'.countP (fun item => decide item.Valid) + pending items'
      ≤ items.countP (fun item => decide item.Valid) + pending items := by
  unfold pending
  induction h with
  | nil => exact le_rfl
  | @cons item item' items items' hitem _ ih =>
    rw [List.countP_cons, List.countP_cons, List.countP_cons, List.countP_cons]
    rcases hitem with rfl | ⟨-, hends⟩
    · omega
    · have hrunning : decide (item.state = .running) = true := decide_eq_true hends.running
      have hended : ¬ decide (item'.state = .running) = true := by simpa using hends.ended
      rw [if_pos hrunning, if_neg hended]
      split_ifs
      all_goals omega

/-- **A join that failed stays so**, unless what made it fail was an uncertain effect of a child that is
running. -/
theorem evaluateJoin_failed_later
    (hfailed : (evaluateJoin input links evidence).state = .failed)
    (hsettles : Settles (fun item => item.effect ≠ .uncertain) evidence evidence') :
    (evaluateJoin input links evidence').state = .failed := by
  rw [failed_iff] at hfailed ⊢
  rcases hfailed with ⟨link, hlink, hcompleted, hrunning⟩ | hshort
  · refine .inl ⟨link, hlink, ?_⟩
    rcases @requiredState_settles _ link _ _ _ hsettles with hsame | ⟨item, hcertain, hran, hfound⟩
    · rw [hsame]
      exact ⟨hcompleted, hrunning⟩
    · rw [JoinEvidence.requiredState, if_neg hcertain, hran] at hfound
      exact absurd hfound hrunning
  · have hcount (items : List JoinEvidence) : (validEvidence items).length
        = items.countP fun item => decide item.Valid := by
      rw [(validEvidence_perm items).length_eq, List.countP_eq_length_filter]
    have hle := countP_settles hsettles
    rw [hcount] at hshort ⊢
    exact .inr (lt_of_le_of_lt hle hshort)

end

/-! ## Verdicts -/

/-- What is promised of a verdict, where failures stand for later ends of entries of one kind. -/
structure VerdictStands (kind : JoinEvidence → Prop) (input : JoinInput) (links : List AgentLink)
    (evidence : List JoinEvidence) : Prop where
  order : ∀ evidence', evidence'.Perm evidence →
    (evaluateJoin input links evidence').state = (evaluateJoin input links evidence).state
      ∧ ∀ task, task ∈ (evaluateJoin input links evidence').selected ↔
        task ∈ (evaluateJoin input links evidence).selected
  waits : (evaluateJoin input links evidence).state = .waiting → ∃ item ∈ evidence, item.state = .running
  satisfied : (evaluateJoin input links evidence).state = .satisfied →
    ∀ evidence', Settles (fun _ => True) evidence evidence' →
      (evaluateJoin input links evidence').state = .satisfied
        ∧ (evaluateJoin input links evidence').selected = (evaluateJoin input links evidence).selected
  failed : (evaluateJoin input links evidence).state = .failed →
    ∀ evidence', Settles kind evidence evidence' → (evaluateJoin input links evidence').state = .failed

/-- **Verdicts on joins do not depend on the order of the evidence, and stand**, a failure as long as no
entry with an uncertain effect is replaced. -/
theorem verdict_stands (input : JoinInput) (links : List AgentLink) (evidence : List JoinEvidence)
    (h : JoinInputs input links evidence) :
    VerdictStands (fun item => item.effect ≠ .uncertain) input links evidence where
  order evidence' hperm := by
    rw [evaluateJoin_perm h hperm]
    exact ⟨rfl, fun _ => Iff.rfl⟩
  waits := evaluateJoin_waits
  satisfied hsatisfied evidence' hsettles := by
    rw [evaluateJoin_satisfied_later h hsatisfied hsettles]
    exact ⟨hsatisfied, rfl⟩
  failed hfailed _ hsettles := evaluateJoin_failed_later hfailed hsettles

/-- A child of a join. -/
def sampleChild (taskId : String) : AgentGeneration := ⟨taskId, 1, ⟨taskId, "generation-1"⟩⟩

/-- The first success of one required child is waited for. -/
def sampleJoin : JoinInput := ⟨"join-1", 1, [sampleChild "a"], ⟨.firstSuccess, none, false, false⟩⟩

def sampleLinks : List AgentLink := [⟨sampleChild "a", true, false⟩]

/-- The child is running, with an effect that is uncertain. -/
def uncertainEvidence : List JoinEvidence := [⟨sampleChild "a", .running, .uncertain, none, none, none⟩]

/-- The child completed after that. -/
def completedEvidence : List JoinEvidence :=
  [⟨sampleChild "a", .ended .completed, .none, some "digest-1", some "artifact-1", some 1⟩]

theorem sampleJoin_inputs : JoinInputs sampleJoin sampleLinks uncertainEvidence where
  belongs := by decide
  once := by decide
  distinct := by decide

theorem verdict_stands_sample :
    VerdictStands (fun item => item.effect ≠ .uncertain) sampleJoin sampleLinks uncertainEvidence :=
  verdict_stands sampleJoin sampleLinks uncertainEvidence sampleJoin_inputs

/-- A failure is taken back when the child whose effect was uncertain completes. -/
theorem not_verdict_stands : sampleJoin.Schema ∧ JoinInputs sampleJoin sampleLinks uncertainEvidence
    ∧ ¬ VerdictStands (fun _ => True) sampleJoin sampleLinks uncertainEvidence := by
  refine ⟨by decide, sampleJoin_inputs, fun h => ?_⟩
  have hsettles : Settles (fun _ => True) uncertainEvidence completedEvidence := by
    refine .cons (.inr ⟨trivial, rfl, rfl, by decide, fun _ _ _ hother _ hs => ?_⟩) .nil
    cases List.mem_singleton.1 hother
    cases hs
  have hfailed := h.failed (failed_iff.2 (.inl (by decide))) completedEvidence hsettles
  have hmet : JoinMet sampleJoin sampleLinks completedEvidence :=
    ⟨by decide, by rw [(validEvidence_perm completedEvidence).length_eq]; decide⟩
  rw [satisfied_iff.2 hmet] at hfailed
  cases hfailed

end Falryn.Orchestration
