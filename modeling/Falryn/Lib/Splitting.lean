import Mathlib

/-!
# Splitting and joining

Lemmas about the pieces `List.splitOn` cuts a list into and about what `List.intercalate` makes of
pieces, besides those of the library: what the pieces hold, where two separators in a row cut a list,
and how much the joined list weighs when every element has a weight.
-/

namespace Splitting

variable {α : Type*} {c : α}

section Pieces

variable [BEq α] [LawfulBEq α] {c : α}

theorem not_mem_of_mem_splitOn : ∀ {text piece : List α}, piece ∈ text.splitOn c → c ∉ piece := by
  intro text
  induction text with
  | nil =>
    intro piece hpiece
    rw [List.splitOn_nil, List.mem_singleton] at hpiece
    rw [hpiece]
    exact List.not_mem_nil
  | cons _ text ih =>
    intro piece hpiece
    rw [List.splitOn_cons_eq_if_modifyHead] at hpiece
    split_ifs at hpiece with hd
    · rcases List.mem_cons.1 hpiece with rfl | hpiece
      · exact List.not_mem_nil
      · exact ih hpiece
    · obtain ⟨first, rest, hsplit⟩ := List.exists_cons_of_ne_nil (List.splitOn_ne_nil c text)
      rw [hsplit, List.modifyHead_cons] at hpiece
      rcases List.mem_cons.1 hpiece with rfl | hpiece
      · refine List.not_mem_cons_of_ne_of_not_mem (fun hc => hd (by simp [hc])) ?_
        exact ih (hsplit ▸ List.mem_cons_self)
      · exact ih (hsplit ▸ List.mem_cons_of_mem _ hpiece)

/-- What is in a piece is in the text. -/
theorem mem_of_mem_splitOn {d : α} {text piece : List α} (hpiece : piece ∈ text.splitOn c)
    (hd : d ∈ piece) : d ∈ text := by
  have htext : [c].intercalate (text.splitOn c) = text := List.intercalate_splitOn c
  rw [← htext]
  generalize text.splitOn c = pieces at hpiece
  induction pieces with
  | nil => cases hpiece
  | cons _ pieces ih =>
    rcases pieces with _ | ⟨next, pieces⟩
    · rwa [List.intercalate_singleton, ← List.mem_singleton.1 hpiece]
    · rw [List.intercalate_cons_cons]
      rcases List.mem_cons.1 hpiece with rfl | hpiece
      · exact List.mem_append_left _ (List.mem_append_left _ hd)
      · exact List.mem_append_right _ (ih hpiece)

end Pieces

/-- What is in a joined list is in a piece, or separates two of them. -/
theorem mem_of_mem_intercalate {d : α} : ∀ {pieces : List (List α)},
    d ∈ [c].intercalate pieces → d = c ∨ ∃ piece ∈ pieces, d ∈ piece := by
  intro pieces
  induction pieces with
  | nil => nofun
  | cons first pieces ih =>
    intro h
    rcases pieces with _ | ⟨next, pieces⟩
    · rw [List.intercalate_singleton] at h
      exact .inr ⟨first, List.mem_cons_self, h⟩
    · rw [List.intercalate_cons_cons] at h
      rcases List.mem_append.1 h with h | h
      · rcases List.mem_append.1 h with h | h
        · exact .inr ⟨first, List.mem_cons_self, h⟩
        · exact .inl (List.mem_singleton.1 h)
      · exact (ih h).imp_right fun ⟨piece, hmem, hd⟩ => ⟨piece, List.mem_cons_of_mem _ hmem, hd⟩

/-- Joining more pieces at the end. -/
theorem intercalate_append {pieces more : List (List α)} (h : pieces ≠ []) (h' : more ≠ []) :
    [c].intercalate (pieces ++ more) = [c].intercalate pieces ++ c :: [c].intercalate more := by
  induction pieces with
  | nil => exact absurd rfl h
  | cons _ pieces ih =>
    rcases pieces with _ | ⟨next, pieces⟩
    · obtain ⟨-, tail, rfl⟩ := List.exists_cons_of_ne_nil h'
      rw [List.singleton_append, List.intercalate_cons_cons, List.intercalate_singleton,
        List.append_assoc, List.singleton_append]
    · rw [List.cons_append, List.cons_append, List.intercalate_cons_cons,
        List.intercalate_cons_cons, ← List.cons_append, ih (List.cons_ne_nil _ _)]
      simp only [List.append_assoc, List.cons_append]

section Two

theorem modifyHead_id (l : List α) : l.modifyHead (fun a => a) = l := by cases l <;> rfl

variable [DecidableEq α]

/-- The pieces between two separators in a row, from left to right. -/
def splitOnTwo (c : α) : List α → List (List α)
  | [] => [[]]
  | [a] => [[a]]
  | a :: b :: rest =>
    if a = c ∧ b = c then [] :: splitOnTwo c rest
    else (splitOnTwo c (b :: rest)).modifyHead (a :: ·)

example : splitOnTwo 1 [0, 1, 1, 2, 1] = [[0], [2, 1]] := by simp [splitOnTwo]

variable {c : α} {a : α}

theorem splitOnTwo_cons_of_ne (h : a ≠ c) (rest : List α) :
    splitOnTwo c (a :: rest) = (splitOnTwo c rest).modifyHead (a :: ·) := by
  cases rest with
  | nil => rfl
  | cons _ rest => rw [splitOnTwo, if_neg fun hboth => h hboth.1]

theorem splitOnTwo_ne_nil (c : α) (l : List α) : splitOnTwo c l ≠ [] := by
  fun_induction splitOnTwo c l with
  | case1 | case2 | case3 => simp
  | case4 _ _ _ _ ih => simpa [List.modifyHead_eq_nil_iff] using ih

/-- The pieces give back the list. -/
theorem intercalate_splitOnTwo (c : α) (l : List α) : [c, c].intercalate (splitOnTwo c l) = l := by
  fun_induction splitOnTwo c l with
  | case1 | case2 => simp
  | case3 a b rest hboth ih =>
    obtain ⟨first, more, hmore⟩ := List.exists_cons_of_ne_nil (splitOnTwo_ne_nil c rest)
    obtain ⟨rfl, rfl⟩ := hboth
    rw [hmore] at ih ⊢
    rw [List.intercalate_cons_cons, ih]
    rfl
  | case4 a b rest _ ih =>
    obtain ⟨first, more, hmore⟩ := List.exists_cons_of_ne_nil (splitOnTwo_ne_nil c (b :: rest))
    rw [hmore] at ih ⊢
    rw [List.modifyHead_cons]
    rcases more with _ | ⟨next, more⟩
    · rw [List.intercalate_singleton] at ih ⊢
      rw [ih]
    · rw [List.intercalate_cons_cons] at ih ⊢
      rw [← ih]
      rfl

theorem splitOnTwo_two (c : α) (rest : List α) :
    splitOnTwo c (c :: c :: rest) = [] :: splitOnTwo c rest := by
  rw [splitOnTwo, if_pos ⟨rfl, rfl⟩]

/-- A piece without separators is kept whole. -/
theorem splitOnTwo_append {piece : List α} (h : c ∉ piece) (rest : List α) :
    splitOnTwo c (piece ++ rest) = (splitOnTwo c rest).modifyHead (piece ++ ·) := by
  induction piece with
  | nil => exact (modifyHead_id _).symm
  | cons a piece ih =>
    have ha : a ≠ c := (List.ne_of_not_mem_cons h).symm
    have hpiece : c ∉ piece := List.not_mem_of_not_mem_cons h
    rw [List.cons_append, splitOnTwo_cons_of_ne ha, ih hpiece, List.modifyHead_modifyHead]
    rfl

/-- One separator before something else is no place to split. -/
theorem splitOnTwo_cons_self (h : a ≠ c) (rest : List α) :
    splitOnTwo c (c :: a :: rest) = (splitOnTwo c (a :: rest)).modifyHead (c :: ·) := by
  rw [splitOnTwo, if_neg fun hboth => h hboth.2]

/-- **Pieces joined with single separators** are not split, and what follows them is. -/
theorem splitOnTwo_intercalate : ∀ {pieces : List (List α)},
    (∀ piece ∈ pieces, piece ≠ [] ∧ c ∉ piece) → ∀ rest : List α,
      splitOnTwo c ([c].intercalate pieces ++ rest)
        = (splitOnTwo c rest).modifyHead ([c].intercalate pieces ++ ·) := by
  intro pieces
  induction pieces with
  | nil => exact fun _ rest => (modifyHead_id _).symm
  | cons piece pieces ih =>
    intro h rest
    obtain ⟨⟨-, hfree⟩, hrest⟩ := List.forall_mem_cons.1 h
    rcases pieces with _ | ⟨next, pieces⟩
    · rw [List.intercalate_singleton, splitOnTwo_append hfree]
    · rw [List.intercalate_cons_cons, List.append_assoc, List.append_assoc, splitOnTwo_append hfree]
      obtain ⟨⟨hnext, hnextFree⟩, -⟩ := List.forall_mem_cons.1 hrest
      obtain ⟨a, tail, rfl⟩ := List.exists_cons_of_ne_nil hnext
      have ha : a ≠ c := fun heq => hnextFree (heq ▸ List.mem_cons_self)
      have hstart : ∃ more, [c].intercalate ((a :: tail) :: pieces) ++ rest = a :: more := by
        rcases pieces with _ | ⟨last, pieces⟩
        · exact ⟨tail ++ rest, by rw [List.intercalate_singleton]; rfl⟩
        · exact ⟨tail ++ [c] ++ [c].intercalate (last :: pieces) ++ rest, by
            rw [List.intercalate_cons_cons]; rfl⟩
      obtain ⟨more, hmore⟩ := hstart
      have hrec := ih hrest rest
      rw [hmore] at hrec ⊢
      rw [List.singleton_append, splitOnTwo_cons_self ha, hrec, List.modifyHead_modifyHead,
        List.modifyHead_modifyHead]
      congr 1
      funext text
      simp

/-- Joined pieces are one piece. -/
theorem splitOnTwo_join {pieces : List (List α)} (h : ∀ piece ∈ pieces, piece ≠ [] ∧ c ∉ piece) :
    splitOnTwo c ([c].intercalate pieces) = [[c].intercalate pieces] := by
  have hsplit := splitOnTwo_intercalate h []
  rw [List.append_nil] at hsplit
  rw [hsplit]
  simp [splitOnTwo]

/-- Two lists of joined pieces with two separators between them are two pieces. -/
theorem splitOnTwo_join_two {before after : List (List α)}
    (h : ∀ piece ∈ before, piece ≠ [] ∧ c ∉ piece) (h' : ∀ piece ∈ after, piece ≠ [] ∧ c ∉ piece) :
    splitOnTwo c ([c].intercalate before ++ c :: c :: [c].intercalate after)
      = [[c].intercalate before, [c].intercalate after] := by
  rw [splitOnTwo_intercalate h, splitOnTwo_two, splitOnTwo_join h']
  simp

end Two

section Weights

variable (weigh : α → ℕ)

/-- The weight of a list. -/
def weight (l : List α) : ℕ := (l.map weigh).sum

/-- The weight of pieces, each with a separator. -/
def separatedWeight (c : α) (pieces : List (List α)) : ℕ :=
  (pieces.map fun piece => weight weigh piece + weigh c).sum

@[simp] theorem weight_nil : weight weigh ([] : List α) = 0 := rfl

@[simp] theorem weight_cons (a : α) (l : List α) : weight weigh (a :: l) = weigh a + weight weigh l :=
  List.sum_cons

@[simp] theorem weight_append (l l' : List α) :
    weight weigh (l ++ l') = weight weigh l + weight weigh l' := by
  rw [weight, List.map_append, List.sum_append, weight, weight]

theorem weight_intercalate (c : α) {pieces : List (List α)} (h : pieces ≠ []) :
    weight weigh ([c].intercalate pieces) + weigh c = separatedWeight weigh c pieces := by
  induction pieces with
  | nil => exact absurd rfl h
  | cons _ pieces ih =>
    rcases pieces with _ | ⟨next, pieces⟩
    · rw [List.intercalate_singleton]
      rfl
    · have hrest := ih (List.cons_ne_nil _ _)
      rw [List.intercalate_cons_cons, weight_append, weight_append, weight_cons, weight_nil]
      rw [separatedWeight, List.map_cons, List.sum_cons, ← separatedWeight, ← hrest]
      omega

end Weights

end Splitting
