import Falryn.Lib.DepthFirst

/-!
# Depth-first search with an explicit stack

The same search for a cycle as `DepthFirst`, written as a loop over a stack of frames.  A frame is a
node being visited with the successors it has not looked at yet.  The loop runs on fuel, and running
out of it is an answer of its own.

`findCycle_none` is completeness: if the search ends without a cycle, every root is accessible along
the successor relation.
-/

namespace FrameSearch

open DepthFirst (Mark Succ)

variable {α : Type*} [DecidableEq α]

/-- A node being visited, and those of its successors that are still to be looked at. -/
abbrev Frame (α : Type*) := α × List α

/-- How a search ends: on a cycle, or with what it marked. -/
abbrev Ending (α : Type*) := Except (List α) (α → Option Mark)

/-- The nodes of the stack from the first one that is `x`, the whole stack if none is. -/
def pathFrom (x : α) (frames : List (Frame α)) : List α :=
  let nodes := (frames.map Prod.fst).reverse
  if x ∈ nodes then nodes.drop (nodes.idxOf x) else nodes

/-- The loop; the top of the stack comes first. -/
def search (succ : α → List α) : ℕ → (α → Option Mark) → List (Frame α) → Option (Ending α)
  | _, marks, [] => some (.ok marks)
  | 0, _, _ :: _ => none
  | fuel + 1, marks, (x, []) :: frames =>
    search succ fuel (Function.update marks x (some .done)) frames
  | fuel + 1, marks, (x, y :: ys) :: frames =>
    match marks y with
    | some .done => search succ fuel marks ((x, ys) :: frames)
    | some .visiting => some (.error (pathFrom y ((x, ys) :: frames)))
    | none =>
      search succ fuel (Function.update marks y (some .visiting)) ((y, succ y) :: (x, ys) :: frames)

/-- The search from one root after the other. -/
def searchAll (succ : α → List α) (fuel : ℕ) : (α → Option Mark) → List α → Option (Ending α)
  | marks, [] => some (.ok marks)
  | marks, root :: roots =>
    match marks root with
    | some _ => searchAll succ fuel marks roots
    | none =>
      match search succ fuel (Function.update marks root (some .visiting)) [(root, succ root)] with
      | none => none
      | some (.error cycle) => some (.error cycle)
      | some (.ok marks') => searchAll succ fuel marks' roots

/-- A cycle reachable from the roots: `none` when the fuel runs out, `some none` when there is none. -/
def findCycle (succ : α → List α) (fuel : ℕ) (roots : List α) : Option (Option (List α)) :=
  match searchAll succ fuel (fun _ => none) roots with
  | none => none
  | some (.error cycle) => some (some cycle)
  | some (.ok _) => some none

section Completeness

variable {succ : α → List α}

/-- Every successor of a node on the stack is still to come, done, or the node above. -/
def Looked (succ : α → List α) (marks : α → Option Mark) : Option α → List (Frame α) → Prop
  | _, [] => True
  | above, (x, rest) :: frames =>
    (∀ y ∈ succ x, y ∈ rest ∨ marks y = some .done ∨ some y = above) ∧
      Looked succ marks (some x) frames

/-- What the loop keeps. -/
structure Invariant (succ : α → List α) (marks : α → Option Mark) (frames : List (Frame α)) : Prop where
  /-- What is done leads nowhere in a circle. -/
  done : ∀ x, marks x = some .done → Acc (Succ succ) x
  /-- The successors of the stack's nodes are accounted for. -/
  looked : Looked succ marks none frames
  /-- What is marked but not done stands on the stack. -/
  visiting : ∀ x, marks x = some .visiting → x ∈ frames.map Prod.fst

variable {marks : α → Option Mark}

omit [DecidableEq α] in
theorem Looked.mono {marks' : α → Option Mark}
    (h : ∀ x, marks x = some .done → marks' x = some .done) :
    ∀ {frames : List (Frame α)} {above : Option α}, Looked succ marks above frames →
      Looked succ marks' above frames := by
  intro frames
  induction frames with
  | nil => exact fun _ => trivial
  | cons _ frames ih =>
    intro above hlooked
    refine ⟨fun y hy => ?_, ih hlooked.2⟩
    rcases hlooked.1 y hy with hrest | hdone | habove
    · exact .inl hrest
    · exact .inr (.inl (h y hdone))
    · exact .inr (.inr habove)

variable {x y : α}

theorem done_update {mark : Mark}
    (hx : mark = .done ∨ marks x ≠ some .done) (hy : marks y = some .done) :
    Function.update marks x (some mark) y = some .done := by
  by_cases hxy : y = x
  · subst hxy
    rcases hx with rfl | hx
    · exact Function.update_self ..
    · exact absurd hy hx
  · rwa [Function.update_of_ne hxy]

variable {frames : List (Frame α)} {ys roots : List α} {fuel : ℕ}

/-- The node on top with nothing left to look at is done. -/
theorem Invariant.leave (h : Invariant succ marks ((x, []) :: frames)) :
    Invariant succ (Function.update marks x (some .done)) frames := by
  have hacc : Acc (Succ succ) x := by
    refine Acc.intro x fun y hy => h.done y ?_
    rcases h.looked.1 y hy with hnil | hdone | hnone
    · cases hnil
    · exact hdone
    · cases hnone
  refine ⟨fun y hy => ?_, ?_, fun y hy => ?_⟩
  · by_cases hxy : y = x
    · rw [hxy]
      exact hacc
    · rw [Function.update_of_ne hxy] at hy
      exact h.done y hy
  · rcases frames with _ | ⟨⟨z, rest⟩, frames⟩
    · trivial
    · obtain ⟨-, hz, hbelow⟩ := h.looked
      refine ⟨fun y hy => ?_, hbelow.mono fun y hy => done_update (.inl rfl) hy⟩
      rcases hz y hy with hrest | hdone | habove
      · exact .inl hrest
      · exact .inr (.inl (done_update (.inl rfl) hdone))
      · cases habove
        exact .inr (.inl (Function.update_self ..))
  · have hxy : y ≠ x := by
      rintro rfl
      rw [Function.update_self] at hy
      cases hy
    rw [Function.update_of_ne hxy] at hy
    exact (List.mem_cons.1 (h.visiting y hy)).resolve_left hxy

omit [DecidableEq α] in
/-- A successor that is done is passed over. -/
theorem Invariant.skip
    (h : Invariant succ marks ((x, y :: ys) :: frames)) (hy : marks y = some .done) :
    Invariant succ marks ((x, ys) :: frames) := by
  refine ⟨h.done, ⟨fun z hz => ?_, h.looked.2⟩, h.visiting⟩
  rcases h.looked.1 z hz with hrest | hother
  · rcases List.mem_cons.1 hrest with rfl | hrest
    · exact .inr (.inl hy)
    · exact .inl hrest
  · exact .inr hother

/-- A successor without a mark is visited next. -/
theorem Invariant.enter (h : Invariant succ marks ((x, y :: ys) :: frames)) (hy : marks y = none) :
    Invariant succ (Function.update marks y (some .visiting)) ((y, succ y) :: (x, ys) :: frames) := by
  have hkeep : ∀ z, marks z = some .done →
      Function.update marks y (some .visiting) z = some .done := fun z hz =>
    done_update (.inr (by rw [hy]; exact nofun)) hz
  refine ⟨fun z hz => ?_, ⟨fun z hz => .inl hz, fun z hz => ?_, h.looked.2.mono hkeep⟩, fun z hz => ?_⟩
  · have hzy : z ≠ y := by
      rintro rfl
      rw [Function.update_self] at hz
      cases hz
    rw [Function.update_of_ne hzy] at hz
    exact h.done z hz
  · rcases h.looked.1 z hz with hrest | hdone | hnone
    · rcases List.mem_cons.1 hrest with rfl | hrest
      · exact .inr (.inr rfl)
      · exact .inl hrest
    · exact .inr (.inl (hkeep z hdone))
    · cases hnone
  · by_cases hzy : z = y
    · rw [hzy]
      exact List.mem_cons_self
    · rw [Function.update_of_ne hzy] at hz
      exact List.mem_cons_of_mem _ (h.visiting z hz)

/-- A search that ends without a cycle leaves nothing half visited. -/
theorem search_ok : ∀ {fuel : ℕ} {marks marks' : α → Option Mark} {frames : List (Frame α)},
    Invariant succ marks frames → search succ fuel marks frames = some (.ok marks') →
    Invariant succ marks' [] ∧ ∀ x, (marks x).isSome → (marks' x).isSome := by
  intro fuel
  induction fuel with
  | zero =>
    intro marks marks' frames h hsearch
    rcases frames with _ | ⟨frame, frames⟩
    · cases hsearch
      exact ⟨h, fun _ hx => hx⟩
    · cases hsearch
  | succ fuel ih =>
    have hgrow : ∀ {marks marks' : α → Option Mark} {y : α} {mark : Mark},
        (∀ x, (Function.update marks y (some mark) x).isSome → (marks' x).isSome) →
        ∀ x, (marks x).isSome → (marks' x).isSome := by
      intro marks marks' y mark hall x hx
      refine hall x ?_
      by_cases hxy : x = y
      · rw [hxy, Function.update_self]
        rfl
      · rwa [Function.update_of_ne hxy]
    intro marks marks' frames h hsearch
    rcases frames with _ | ⟨⟨x, rest⟩, frames⟩
    · cases hsearch
      exact ⟨h, fun _ hx => hx⟩
    rcases rest with _ | ⟨y, ys⟩
    · obtain ⟨hdone, hall⟩ := ih h.leave hsearch
      exact ⟨hdone, hgrow hall⟩
    · unfold search at hsearch
      rcases hy : marks y with _ | mark
      · rw [hy] at hsearch
        obtain ⟨hdone, hall⟩ := ih (h.enter hy) hsearch
        exact ⟨hdone, hgrow hall⟩
      · rw [hy] at hsearch
        rcases mark with _ | _
        · cases hsearch
        · exact ih (h.skip hy) hsearch

/-- A root is visited first. -/
theorem Invariant.start {root : α} (h : Invariant succ marks []) :
    Invariant succ (Function.update marks root (some .visiting)) [(root, succ root)] := by
  refine ⟨fun x hx => ?_, ⟨fun _ hy => .inl hy, trivial⟩, fun x hx => ?_⟩
  · have hne : x ≠ root := by
      rintro rfl
      rw [Function.update_self] at hx
      cases hx
    rw [Function.update_of_ne hne] at hx
    exact h.done x hx
  · by_cases hne : x = root
    · rw [hne]
      exact List.mem_cons_self
    · rw [Function.update_of_ne hne] at hx
      exact absurd (h.visiting x hx) List.not_mem_nil

theorem searchAll_ok : ∀ {marks marks' : α → Option Mark}, Invariant succ marks [] →
      searchAll succ fuel marks roots = some (.ok marks') →
      Invariant succ marks' [] ∧ (∀ x, (marks x).isSome → (marks' x).isSome) ∧
        ∀ x ∈ roots, (marks' x).isSome := by
  induction roots with
  | nil =>
    intro marks marks' h hsearch
    cases hsearch
    exact ⟨h, fun _ hx => hx, nofun⟩
  | cons root roots ih =>
    intro marks marks' h hsearch
    unfold searchAll at hsearch
    rcases hroot : marks root with _ | mark
    · rw [hroot] at hsearch
      dsimp only at hsearch
      rcases hfirst : search succ fuel (Function.update marks root (some .visiting))
          [(root, succ root)] with _ | _ | marks₁
      · rw [hfirst] at hsearch
        cases hsearch
      · rw [hfirst] at hsearch
        cases hsearch
      · rw [hfirst] at hsearch
        obtain ⟨hdone, hall⟩ := search_ok h.start hfirst
        obtain ⟨hend, hall', hroots⟩ := ih hdone hsearch
        refine ⟨hend, fun x hx => hall' x (hall x ?_), fun x hx => ?_⟩
        · by_cases hne : x = root
          · rw [hne, Function.update_self]
            rfl
          · rwa [Function.update_of_ne hne]
        · rcases List.mem_cons.1 hx with rfl | hx
          · exact hall' x (hall x (by rw [Function.update_self]; rfl))
          · exact hroots x hx
    · rw [hroot] at hsearch
      obtain ⟨hend, hall, hroots⟩ := ih h hsearch
      refine ⟨hend, hall, fun x hx => ?_⟩
      rcases List.mem_cons.1 hx with rfl | hx
      · exact hall x (by rw [hroot]; rfl)
      · exact hroots x hx

/-- **Completeness.**  A search that finds no cycle leaves every root accessible. -/
theorem findCycle_none (h : findCycle succ fuel roots = some none) :
    ∀ x ∈ roots, Acc (Succ succ) x := by
  have hinit : Invariant succ (fun _ => none) [] :=
    ⟨nofun, trivial, nofun⟩
  unfold findCycle at h
  rcases hall : searchAll succ fuel (fun _ => none) roots with _ | _ | marks
  · rw [hall] at h
    cases h
  · rw [hall] at h
    cases h
  · obtain ⟨hend, -, hroots⟩ := searchAll_ok hinit hall
    intro x hx
    obtain ⟨mark, hmark⟩ := Option.isSome_iff_exists.1 (hroots x hx)
    rcases mark with _ | _
    · exact absurd (hend.visiting x hmark) List.not_mem_nil
    · exact hend.done x hmark

end Completeness

end FrameSearch
