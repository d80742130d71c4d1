import Mathlib

/-!
# Relations with one more edge

A path of a relation with one edge added either does without the edge or goes to its start and comes
from its end.  So the edge closes a cycle only if its end already leads back to its start.
-/

namespace Acyclic

variable {α : Type*} {R R' : α → α → Prop} {a b : α}

/-- A path with one more edge, without the edge or through it. -/
theorem transGen_of_insert (hinsert : ∀ x y, R' x y → R x y ∨ (x = a ∧ y = b)) {x y : α}
    (h : Relation.TransGen R' x y) :
    Relation.TransGen R x y ∨ (Relation.ReflTransGen R x a ∧ Relation.ReflTransGen R b y) := by
  induction h with
  | single hxy =>
    rcases hinsert _ _ hxy with hxy | ⟨rfl, rfl⟩
    · exact .inl (.single hxy)
    · exact .inr ⟨.refl, .refl⟩
  | tail _ hyz ih =>
    rcases hinsert _ _ hyz with hyz | ⟨rfl, rfl⟩
    · rcases ih with hpath | ⟨hto, hfrom⟩
      · exact .inl (hpath.tail hyz)
      · exact .inr ⟨hto, hfrom.tail hyz⟩
    · rcases ih with hpath | ⟨hto, -⟩
      · exact .inr ⟨hpath.to_reflTransGen, .refl⟩
      · exact .inr ⟨hto, .refl⟩

/-- An edge closes a cycle only if its end leads back to its start. -/
theorem not_cycle_insert (hinsert : ∀ x y, R' x y → R x y ∨ (x = a ∧ y = b))
    (hacyclic : ∀ x, ¬ Relation.TransGen R x x) (hback : ¬ Relation.ReflTransGen R b a) (x : α) :
    ¬ Relation.TransGen R' x x := by
  intro hcycle
  rcases transGen_of_insert hinsert hcycle with hcycle | ⟨hto, hfrom⟩
  · exact hacyclic x hcycle
  · exact hback (hfrom.trans hto)

end Acyclic
