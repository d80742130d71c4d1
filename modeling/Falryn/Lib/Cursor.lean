import Mathlib

/-!
# Reading a sorted list from a cursor

What comes after a cursor in a list whose keys increase, read in pieces: a piece and what comes after its
last key are everything that came after the cursor (`after_split`), also when the list has grown at its
end in the meantime (`after_grown`).
-/

namespace Falryn.Cursor

variable {α : Type*} {key : α → ℕ}

/-- The elements whose keys are larger than a cursor; without one, than zero. -/
def after (key : α → ℕ) (cursor : Option ℕ) (l : List α) : List α :=
  l.filter fun x => cursor.getD 0 < key x

/-- The keys increase. -/
def Sorted (key : α → ℕ) (l : List α) : Prop := l.Pairwise fun x y => key x < key y

variable {l : List α}

theorem Sorted.after (h : Sorted key l) (cursor : Option ℕ) : Sorted key (after key cursor l) :=
  List.Pairwise.filter _ h

variable {k : ℕ}

/-- What comes after an element of a sorted list has larger keys, and nothing before has. -/
theorem Sorted.drop_eq (h : Sorted key l) (hk : k < l.length) :
    l.drop (k + 1) = l.filter fun x => key l[k] < key x := by
  have hbefore : (l.take (k + 1)).filter (fun x => key l[k] < key x) = [] := by
    rw [List.filter_eq_nil_iff]
    intro x hx
    obtain ⟨i, hi, rfl⟩ := List.mem_take_iff_getElem.1 hx
    rw [decide_eq_true_eq, not_lt]
    rcases Nat.lt_or_ge i k with hik | hik
    · exact le_of_lt (List.pairwise_iff_getElem.1 h i k _ _ hik)
    · obtain rfl : i = k := by omega
      exact le_rfl
  have hafter : (l.drop (k + 1)).filter (fun x => key l[k] < key x) = l.drop (k + 1) := by
    rw [List.filter_eq_self]
    intro x hx
    obtain ⟨i, hi, rfl⟩ := List.mem_drop_iff_getElem.1 hx
    exact decide_eq_true (List.pairwise_iff_getElem.1 h k _ _ _ (by omega))
  have hsplit : (l.take (k + 1)).filter (fun x => key l[k] < key x)
      ++ (l.drop (k + 1)).filter (fun x => key l[k] < key x) = l.filter fun x => key l[k] < key x := by
    rw [← List.filter_append, List.take_append_drop]
  rw [← hsplit, hbefore, hafter, List.nil_append]

variable {cursor : Option ℕ} {l' : List α}

/-- What comes after a later cursor comes after the earlier one. -/
theorem filter_after {s : ℕ} (hs : cursor.getD 0 < s) (l : List α) :
    ((after key cursor l).filter fun x => s < key x) = after key (some s) l := by
  rw [after, List.filter_filter]
  refine List.filter_congr fun x _ => ?_
  rw [Option.getD_some, ← Bool.decide_and, decide_eq_decide]
  exact ⟨fun hx => hx.1, fun hx => ⟨hx, hs.trans hx⟩⟩

/-- **A piece and what comes after its last key** are what came after the cursor. -/
theorem after_split (h : Sorted key l) (hk : k < (after key cursor l).length) : after key cursor l
      = (after key cursor l).take (k + 1) ++ after key (some (key (after key cursor l)[k])) l := by
  have hcursor : cursor.getD 0 < key (after key cursor l)[k] :=
    of_decide_eq_true (List.mem_filter.1 (List.getElem_mem hk)).2
  calc after key cursor l
      = (after key cursor l).take (k + 1) ++ (after key cursor l).drop (k + 1) :=
        (List.take_append_drop _ _).symm
    _ = _ := by rw [(h.after cursor).drop_eq hk, filter_after hcursor]

/-- A list that grew begins with what there was after the cursor. -/
theorem after_prefix (h : l <+: l') (cursor : Option ℕ) :
    after key cursor l <+: after key cursor l' :=
  h.filter _

/-- **A piece that was read, and what comes after its last key later on**, are what comes after the
cursor then. -/
theorem after_grown (h : l <+: l') (hsorted : Sorted key l')
    (hk : k < (after key cursor l).length) :
    after key cursor l'
      = (after key cursor l).take (k + 1) ++ after key (some (key (after key cursor l)[k])) l' := by
  have hgrown : after key cursor l <+: after key cursor l' := after_prefix h cursor
  have hk' : k < (after key cursor l').length := lt_of_lt_of_le hk hgrown.length_le
  have htake : (after key cursor l').take (k + 1) = (after key cursor l).take (k + 1) := by
    obtain ⟨more, hmore⟩ := hgrown
    rw [← hmore, List.take_append_of_le_length hk]
  rw [hgrown.getElem hk, ← htake]
  exact after_split hsorted hk'

end Falryn.Cursor
