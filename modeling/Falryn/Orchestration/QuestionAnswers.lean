import Falryn.Orchestration.StructuredQuestions

/-!
# Answers in order

An answer is put in order before its digest is taken: the options of each selection, and then the items.
Two answers without a repeated item have the same order exactly when one is the other with its items and
their options moved about, and an answer fits a question exactly when it does in order.
-/

namespace Falryn.Orchestration

/-! ## The same answer -/

/-- Two answers to an item that differ in the order of the options at most. -/
def ItemAnswer.Alike : ItemAnswer → ItemAnswer → Prop
  | .selection itemId optionIds, .selection itemId' optionIds' =>
    itemId = itemId' ∧ optionIds.Perm optionIds'
  | a, b => a = b

/-- Two answers that differ in the order of their items and options at most. -/
def QuestionAnswer.Reorders (a b : QuestionAnswer) : Prop :=
  ∃ c, List.Forall₂ ItemAnswer.Alike a c ∧ c.Perm b

theorem mergeSort_strings_eq {a b : List String} :
    a.mergeSort (fun x y => decide (x ≤ y)) = b.mergeSort (fun x y => decide (x ≤ y)) ↔ a.Perm b := by
  constructor
  · intro h
    have hperm := (List.mergeSort_perm a fun x y => decide (x ≤ y)).symm
    rw [h] at hperm
    exact hperm.trans (List.mergeSort_perm b _)
  · intro h
    have hperm := ((List.mergeSort_perm a fun x y => decide (x ≤ y)).trans h).trans
      (List.mergeSort_perm b fun x y => decide (x ≤ y)).symm
    exact hperm.eq_of_pairwise' (List.pairwise_mergeSort' (· ≤ ·) a)
      (List.pairwise_mergeSort' (· ≤ ·) b)

@[simp] theorem ItemAnswer.sorted_itemId (answer : ItemAnswer) : answer.sorted.itemId = answer.itemId := by
  cases answer <;> rfl

@[simp] theorem map_itemId_sorted (answer : QuestionAnswer) :
    (answer.map ItemAnswer.sorted).map (·.itemId) = answer.map (·.itemId) := by
  rw [List.map_map]
  exact List.map_congr_left fun item _ => item.sorted_itemId

theorem ItemAnswer.sorted_eq_iff {a b : ItemAnswer} : a.sorted = b.sorted ↔ a.Alike b := by
  cases a <;> cases b <;> simp [sorted, Alike, mergeSort_strings_eq]

section
variable (ports : QuestionPorts) {itemId : String}

theorem normalized_perm (answer : QuestionAnswer) :
    (answer.normalized ports).Perm (answer.map ItemAnswer.sorted) :=
  List.mergeSort_perm _ _

theorem normalized_pairwise (answer : QuestionAnswer) :
    List.Pairwise (fun a b : ItemAnswer => ports.precedes a.itemId b.itemId = true)
      (answer.normalized ports) :=
  @List.pairwise_mergeSort _ (fun a b : ItemAnswer => ports.precedes a.itemId b.itemId)
    (fun _ _ _ => ports.trans _ _ _) (fun a b => by
      rw [Bool.or_eq_true]
      exact ports.total a.itemId b.itemId) _

/-- **Two answers come to the same order** exactly when they differ in the order of their items and
options at most. -/
theorem normalized_eq_iff {a b : QuestionAnswer} (hnodup : (a.map (·.itemId)).Nodup) :
    a.normalized ports = b.normalized ports ↔ a.Reorders b := by
  constructor
  · intro h
    have hperm : (a.map ItemAnswer.sorted).Perm (b.map ItemAnswer.sorted) :=
      ((normalized_perm ports a).symm.trans (h ▸ .refl _)).trans (normalized_perm ports b)
    have hgraph : List.Forall₂ (fun x y => x = y.sorted) (b.map ItemAnswer.sorted) b := by
      rw [List.forall₂_map_left_iff]
      exact List.forall₂_same.2 fun _ _ => rfl
    obtain ⟨c, hc, hperm⟩ := List.perm_comp_forall₂ hperm hgraph
    rw [List.forall₂_map_left_iff] at hc
    exact ⟨c, hc.imp fun _ _ => ItemAnswer.sorted_eq_iff.1, hperm⟩
  · rintro ⟨c, halike, hperm⟩
    have hmap : a.map ItemAnswer.sorted = c.map ItemAnswer.sorted := by
      rw [← List.forall₂_eq_eq_eq, List.forall₂_map_left_iff, List.forall₂_map_right_iff]
      exact halike.imp fun _ _ => ItemAnswer.sorted_eq_iff.2
    have hsorted : (a.normalized ports).Perm (b.normalized ports) :=
      (normalized_perm ports a).trans
        ((hmap ▸ hperm.map ItemAnswer.sorted).trans (normalized_perm ports b).symm)
    refine hsorted.eq_of_pairwise (fun x y hx hy hxy hyx => ?_) (normalized_pairwise ports a)
      (normalized_pairwise ports b)
    have hsame : x.itemId = y.itemId := ports.antisymm _ _ hxy hyx
    have hx := (normalized_perm ports a).mem_iff.1 hx
    have hy := (normalized_perm ports a).mem_iff.1 (hsorted.mem_iff.2 hy)
    have hids : ((a.map ItemAnswer.sorted).map (·.itemId)).Nodup := by
      rwa [map_itemId_sorted]
    exact List.inj_on_of_nodup_map hids hx hy hsame

/-! ## What fits, fits in order -/

theorem perm_sorted_options (optionIds : List String) :
    (optionIds.mergeSort fun x y => decide (x ≤ y)).Perm optionIds := List.mergeSort_perm _ _

theorem ItemAnswer.sorted_formats (answer : ItemAnswer) : answer.sorted.Formats ↔ answer.Formats := by
  cases answer with
  | selection itemId optionIds =>
    have hperm := perm_sorted_options optionIds
    simp [sorted, Formats, ItemAnswer.itemId, hperm.length_eq, hperm.mem_iff]
  | _ => exact Iff.rfl

theorem ItemAnswer.sorted_bytes (answer : ItemAnswer) : answer.sorted.bytes = answer.bytes := by
  cases answer with
  | selection _ optionIds =>
    have hperm := (perm_sorted_options optionIds).map jsonStringBytes
    simp [sorted, bytes, jsonArrayBytes, hperm.sum_eq, hperm.length_eq]
  | _ => rfl

theorem QuestionItem.accepts_sorted (item : QuestionItem) (answer : ItemAnswer) :
    item.Accepts answer.sorted ↔ item.Accepts answer := by
  cases answer with
  | selection _ optionIds =>
    have hperm := perm_sorted_options optionIds
    cases item <;>
      simp [Accepts, ItemAnswer.sorted, hperm.nodup_iff, hperm.length_eq, hperm.mem_iff]
  | _ => exact Iff.rfl

theorem ItemAnswer.sorted_eq_protected {answer : ItemAnswer} :
    answer.sorted = .protected_ itemId ↔ answer = .protected_ itemId := by
  cases answer <;> simp [sorted]

/-- An answer has the formats of an answer exactly when it does in order. -/
theorem normalized_schema (answer : QuestionAnswer) :
    QuestionAnswer.Schema (answer.normalized ports) ↔ QuestionAnswer.Schema answer := by
  have hperm := normalized_perm ports answer
  have hbytes : QuestionAnswer.bytes (answer.normalized ports) = QuestionAnswer.bytes answer := by
    have hmap := hperm.map ItemAnswer.bytes
    have hsame : (answer.map ItemAnswer.sorted).map ItemAnswer.bytes = answer.map ItemAnswer.bytes := by
      rw [List.map_map]
      exact List.map_congr_left fun item _ => item.sorted_bytes
    rw [hsame] at hmap
    simp [QuestionAnswer.bytes, jsonArrayBytes, hmap.sum_eq, hperm.length_eq]
  have hformats : (∀ item ∈ answer.normalized ports, item.Formats) ↔ ∀ item ∈ answer, item.Formats := by
    simp [hperm.mem_iff, ItemAnswer.sorted_formats]
  simp [QuestionAnswer.Schema, hperm.length_eq, hbytes, hformats]

/-- With no repeated item, an item is found by looking for it. -/
theorem mem_find?_itemId {answer : QuestionAnswer} (hnodup : (answer.map (·.itemId)).Nodup)
    {value : ItemAnswer} :
    value ∈ answer.find? (fun value => value.itemId = itemId) ↔ value ∈ answer ∧ value.itemId = itemId := by
  constructor
  · intro h
    exact ⟨List.mem_of_find?_eq_some h, by simpa using List.find?_some h⟩
  · rintro ⟨hmem, hid⟩
    obtain ⟨found, hfound⟩ := Option.isSome_iff_exists.1
      (List.find?_isSome (p := fun value : ItemAnswer => decide (value.itemId = itemId)).2
        ⟨value, hmem, by simpa using hid⟩)
    have hsame : found = value := List.inj_on_of_nodup_map hnodup (List.mem_of_find?_eq_some hfound)
      hmem (by rw [hid]; simpa using List.find?_some hfound)
    exact hsame ▸ hfound

/-- **An answer fits a question** exactly when it does in order. -/
theorem valid_normalized {input : QuestionInput} (answer : QuestionAnswer) :
    ValidQuestionAnswer input (answer.normalized ports) ↔ ValidQuestionAnswer input answer := by
  have hperm := normalized_perm ports answer
  have hids : ((answer.normalized ports).map (·.itemId)).Nodup ↔ (answer.map (·.itemId)).Nodup := by
    rw [(hperm.map _).nodup_iff, map_itemId_sorted]
  unfold ValidQuestionAnswer
  rw [hperm.length_eq, List.length_map, hids]
  refine and_congr_right fun _ => and_congr_right fun hnodup => forall₂_congr fun _ _ => ?_
  simp only [mem_find?_itemId hnodup, mem_find?_itemId (hids.2 hnodup), hperm.mem_iff, List.mem_map]
  constructor
  · rintro ⟨_, ⟨⟨value, hvalue, rfl⟩, hid⟩, h⟩
    refine ⟨value, ⟨hvalue, value.sorted_itemId ▸ hid⟩, ?_⟩
    rwa [ItemAnswer.sorted_eq_protected, QuestionItem.accepts_sorted] at h
  · rintro ⟨value, ⟨hvalue, hid⟩, h⟩
    refine ⟨value.sorted, ⟨⟨value, hvalue, rfl⟩, value.sorted_itemId ▸ hid⟩, ?_⟩
    rwa [ItemAnswer.sorted_eq_protected, QuestionItem.accepts_sorted]

end

end Falryn.Orchestration
