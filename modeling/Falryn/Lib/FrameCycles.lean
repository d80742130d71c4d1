import Falryn.Lib.FrameSearch

/-!
# What the two searches answer

`FrameSearch.findCycle` is exact: with enough fuel it ends, what it names is a cycle that the roots
reach, and it names nothing only if there is none.  Its loop simulates the recursion of `DepthFirst`
call by call, so both searches give one answer.
-/

namespace FrameSearch

open DepthFirst (Mark Succ unmarked visit visitAll)

variable {α : Type*} [DecidableEq α]

/-- A list of nodes each of which leads to the next one, the last one back to the first. -/
structure IsCycle (succ : α → List α) (cycle : List α) : Prop where
  chain : cycle.IsChain fun x y => y ∈ succ x
  closes : ∃ first last, cycle.head? = some first ∧ cycle.getLast? = some last ∧ first ∈ succ last

/-- A node is reached from the roots. -/
def ReachedFrom (succ : α → List α) (roots : List α) (x : α) : Prop :=
  ∃ root ∈ roots, Relation.ReflTransGen (fun y z => z ∈ succ y) root x

/-- A node that the roots reach lies on a cycle. -/
def HasCycle (succ : α → List α) (roots : List α) : Prop :=
  ∃ x, ReachedFrom succ roots x ∧ Relation.TransGen (fun y z => z ∈ succ y) x x

section Soundness

variable {succ : α → List α} {roots : List α}

/-- The stack is a path from a root, and what a frame has still to look at are successors. -/
structure IsPath (succ : α → List α) (roots : List α) (frames : List (Frame α)) : Prop where
  chain : (frames.map Prod.fst).IsChain fun x y => x ∈ succ y
  frames : ∀ frame ∈ frames, ReachedFrom succ roots frame.1 ∧ ∀ y ∈ frame.2, y ∈ succ frame.1

variable {x : α} {frames : List (Frame α)}

omit [DecidableEq α] in
theorem IsPath.leave (h : IsPath succ roots ((x, []) :: frames)) : IsPath succ roots frames :=
  ⟨h.chain.tail, fun frame hframe => h.frames frame (List.mem_cons_of_mem _ hframe)⟩

variable {y : α} {ys : List α}

omit [DecidableEq α] in
theorem IsPath.skip
    (h : IsPath succ roots ((x, y :: ys) :: frames)) : IsPath succ roots ((x, ys) :: frames) := by
  obtain ⟨hx, hframes⟩ := List.forall_mem_cons.1 h.frames
  exact ⟨h.chain, List.forall_mem_cons.2 ⟨⟨hx.1, fun z hz => hx.2 z (List.mem_cons_of_mem _ hz)⟩, hframes⟩⟩

omit [DecidableEq α] in
theorem IsPath.enter (h : IsPath succ roots ((x, y :: ys) :: frames)) :
    IsPath succ roots ((y, succ y) :: (x, ys) :: frames) := by
  obtain ⟨⟨root, hroot, hpath⟩, hsucc⟩ := h.frames _ List.mem_cons_self
  have hy : y ∈ succ x := hsucc y List.mem_cons_self
  exact ⟨List.isChain_cons_cons.2 ⟨hy, h.chain⟩,
    List.forall_mem_cons.2 ⟨⟨⟨root, hroot, hpath.tail hy⟩, fun _ hz => hz⟩, h.skip.frames⟩⟩

/-- Meeting a node of the stack closes a cycle. -/
theorem IsPath.pathFrom
    (h : IsPath succ roots ((x, y :: ys) :: frames)) (hy : y ∈ ((x, ys) :: frames).map Prod.fst) :
    IsCycle succ (pathFrom y ((x, ys) :: frames)) ∧
      ∀ z ∈ pathFrom y ((x, ys) :: frames), ReachedFrom succ roots z := by
  have hmem : y ∈ (((x, ys) :: frames).map Prod.fst).reverse := List.mem_reverse.2 hy
  have hlt := List.idxOf_lt_length_of_mem hmem
  rw [FrameSearch.pathFrom, if_pos hmem]
  refine ⟨⟨(List.isChain_reverse.2 h.chain).drop _, y, x, ?_, ?_, ?_⟩, fun z hz => ?_⟩
  · rw [List.head?_drop, List.getElem?_eq_getElem hlt, List.getElem_idxOf]
  · rw [List.getLast?_drop, if_neg (by omega), List.getLast?_reverse]
    rfl
  · exact (h.frames _ List.mem_cons_self).2 y List.mem_cons_self
  · obtain ⟨frame, hframe, rfl⟩ := List.mem_map.1 (List.mem_reverse.1 (List.mem_of_mem_drop hz))
    exact (h.skip.frames frame hframe).1

/-- A search that ends on a cycle names one. -/
theorem search_error : ∀ {fuel : ℕ} {marks : α → Option Mark} {frames : List (Frame α)}
    {cycle : List α}, Invariant succ marks frames → IsPath succ roots frames →
    search succ fuel marks frames = some (.error cycle) →
    IsCycle succ cycle ∧ ∀ x ∈ cycle, ReachedFrom succ roots x := by
  intro fuel
  induction fuel with
  | zero => intro marks frames cycle _ _ h; rcases frames with _ | _ <;> cases h
  | succ fuel ih =>
    intro marks frames cycle hinv hpath h
    rcases frames with _ | ⟨⟨x, _ | ⟨y, ys⟩⟩, frames⟩
    · cases h
    · exact ih hinv.leave hpath.leave h
    · unfold search at h
      rcases hy : marks y with _ | _ | _
      · rw [hy] at h
        exact ih (hinv.enter hy) hpath.enter h
      · rw [hy] at h
        cases h
        exact hpath.pathFrom (hinv.visiting y hy)
      · rw [hy] at h
        exact ih (hinv.skip hy) hpath.skip h

variable {fuel : ℕ} {cycle : List α}

theorem searchAll_error : ∀ {todo : List α} {marks : α → Option Mark} {cycle : List α},
    (∀ x ∈ todo, x ∈ roots) → Invariant succ marks [] →
    searchAll succ fuel marks todo = some (.error cycle) →
    IsCycle succ cycle ∧ ∀ x ∈ cycle, ReachedFrom succ roots x := by
  intro todo
  induction todo with
  | nil => intro marks cycle _ _ h; cases h
  | cons root todo ih =>
    intro marks cycle hroots hinv h
    obtain ⟨hroot, hroots⟩ := List.forall_mem_cons.1 hroots
    unfold searchAll at h
    rcases hmark : marks root with _ | _
    · rw [hmark] at h
      dsimp only at h
      rcases hfirst : search succ fuel (Function.update marks root (some .visiting))
          [(root, succ root)] with _ | _ | marks'
      · rw [hfirst] at h
        cases h
      · rw [hfirst] at h
        cases h
        refine search_error hinv.start ⟨.singleton _, ?_⟩ hfirst
        exact List.forall_mem_singleton.2 ⟨⟨root, hroot, .refl⟩, fun _ hy => hy⟩
      · rw [hfirst] at h
        exact ih hroots (search_ok hinv.start hfirst).1 h
    · rw [hmark] at h
      exact ih hroots hinv h

omit [DecidableEq α] in
theorem invariant_none : Invariant succ (fun _ => none) [] :=
  ⟨nofun, trivial, nofun⟩

/-- **Soundness.**  A list that is found is a cycle that the roots reach. -/
theorem findCycle_some (h : findCycle succ fuel roots = some (some cycle)) :
    IsCycle succ cycle ∧ ∀ x ∈ cycle, ReachedFrom succ roots x := by
  unfold findCycle at h
  rcases hall : searchAll succ fuel (fun _ => none) roots with _ | _ | marks
  · rw [hall] at h
    cases h
  · rw [hall] at h
    cases h
    exact searchAll_error (fun _ hx => hx) invariant_none hall
  · rw [hall] at h
    cases h

omit [DecidableEq α] in
/-- The first node of a cycle leads back to itself. -/
theorem IsCycle.transGen (h : IsCycle succ cycle) :
    ∃ first ∈ cycle, Relation.TransGen (fun y z => z ∈ succ y) first first := by
  obtain ⟨first, last, hfirst, hlast, hmem⟩ := h.closes
  rcases cycle with _ | ⟨_, rest⟩
  · cases hfirst
  cases hfirst
  refine ⟨first, List.mem_cons_self, Relation.TransGen.tail' ?_ hmem⟩
  rw [List.getLast?_eq_some_getLast (List.cons_ne_nil _ _), Option.some.injEq] at hlast
  exact hlast ▸ List.relationReflTransGen_of_exists_isChain_cons rest h.chain rfl

/-- **Exactness.**  A search that ends finds no cycle if and only if there is none. -/
theorem findCycle_eq_none_iff {answer : Option (List α)}
    (h : findCycle succ fuel roots = some answer) : answer = none ↔ ¬HasCycle succ roots := by
  constructor
  · rintro rfl ⟨x, ⟨root, hroot, hpath⟩, hcycle⟩
    have hacc := findCycle_none h root hroot
    have hx : Acc (Succ succ) x := by
      clear hcycle
      induction hpath with
      | refl => exact hacc
      | tail _ hstep ih => exact ih.inv hstep
    exact DepthFirst.not_transGen_self hx (Relation.transGen_swap.1 hcycle)
  · intro hnone
    rcases answer with _ | cycle
    · rfl
    · obtain ⟨hcycle, hreached⟩ := findCycle_some h
      obtain ⟨first, hfirst, hself⟩ := hcycle.transGen
      exact absurd ⟨first, hreached first hfirst, hself⟩ hnone

end Soundness

section Agreement

variable {succ : α → List α} {nodes : List α}

/-- How the loop goes on when the recursion has answered: on the cycle, or with the frames below. -/
def Follows (succ : α → List α) (marks : α → Option Mark) (frames below : List (Frame α)) :
    Option (List α) × (α → Option Mark) → Prop
  | (some cycle, _) => ∃ k, ∀ n, search succ (k + n) marks frames = some (.error cycle)
  | (none, marks') => ∃ k, ∀ n, search succ (k + n) marks frames = search succ n marks' below

/-- The children of a frame, one call after the other. -/
theorem visitAll_follows {fuel : ℕ} {x : α} {frames : List (Frame α)}
    (hvisit : ∀ {ys : List α} {m : α → Option Mark} {y : α}, unmarked nodes m < fuel + 1 → y ∈ nodes →
      m y = none →
      Follows succ (Function.update m y (some .visiting)) ((y, succ y) :: (x, ys) :: frames)
        ((x, ys) :: frames) (visit succ (fuel + 1) (x :: frames.map Prod.fst).reverse m y)) :
    ∀ {ys : List α} {m : α → Option Mark}, unmarked nodes m < fuel + 1 → (∀ y ∈ ys, y ∈ nodes) →
      Follows succ m ((x, ys) :: frames) ((x, []) :: frames)
        (visitAll (visit succ (fuel + 1) (x :: frames.map Prod.fst).reverse) m ys) := by
  intro ys
  induction ys with
  | nil => exact fun _ _ => ⟨0, fun n => by rw [Nat.zero_add]⟩
  | cons y ys ih =>
    intro m hfuel hys
    obtain ⟨hy, hys⟩ := List.forall_mem_cons.1 hys
    have hkept := @DepthFirst.visit_marked _ _ succ (fuel + 1) (x :: frames.map Prod.fst).reverse m y
    -- what one step of the loop does, then the call on `y`
    have hstep : ∀ {marks : α → Option Mark} {above : List (Frame α)},
        (∀ n, search succ (n + 1) m ((x, y :: ys) :: frames) = search succ n marks above) →
        Follows succ marks above ((x, ys) :: frames)
          (visit succ (fuel + 1) (x :: frames.map Prod.fst).reverse m y) →
        Follows succ m ((x, y :: ys) :: frames) ((x, []) :: frames)
          (visitAll (visit succ (fuel + 1) (x :: frames.map Prod.fst).reverse) m (y :: ys)) := by
      intro marks above hfirst hfollows
      rw [visitAll]
      rcases hv : visit succ (fuel + 1) (x :: frames.map Prod.fst).reverse m y with ⟨_ | cycle, m₁⟩ <;>
        rw [hv] at hfollows hkept <;> obtain ⟨k, hk⟩ := hfollows
      · have hrest := @ih m₁ ((DepthFirst.unmarked_le nodes hkept).trans_lt hfuel) hys
        dsimp only
        rcases hall : visitAll (visit succ (fuel + 1) (x :: frames.map Prod.fst).reverse) m₁ ys with
          ⟨_ | cycle, m₂⟩ <;> rw [hall] at hrest <;> obtain ⟨l, hl⟩ := hrest <;> refine ⟨k + l + 1, fun n => ?_⟩ <;>
          rw [show k + l + 1 + n = k + (l + n) + 1 by omega, hfirst, hk, hl]
      · refine ⟨k + 1, fun n => ?_⟩
        rw [show k + 1 + n = k + n + 1 by omega, hfirst, hk]
    rcases hmark : m y with _ | _ | _
    · exact hstep (fun n => by rw [search, hmark]) (hvisit hfuel hy hmark)
    · -- `y` is being visited: both name the stack from it
      rw [visitAll, visit, hmark]
      refine ⟨1, fun n => ?_⟩
      rw [Nat.add_comm 1 n, search, hmark]
      rfl
    · refine @hstep m ((x, ys) :: frames) (fun n => by rw [search, hmark]) ?_
      rw [visit, hmark]
      exact ⟨0, fun n => by rw [Nat.zero_add]⟩

/-- The loop does below a frame what the recursive call does. -/
theorem visit_follows (hclosed : ∀ x ∈ nodes, ∀ y ∈ succ x, y ∈ nodes) : ∀ {fuel : ℕ}
    {m : α → Option Mark} {x : α} {frames : List (Frame α)}, unmarked nodes m < fuel → x ∈ nodes →
    m x = none →
    Follows succ (Function.update m x (some .visiting)) ((x, succ x) :: frames) frames
      (visit succ fuel (frames.map Prod.fst).reverse m x) := by
  intro fuel
  induction fuel with
  | zero => exact fun h => absurd h (Nat.not_lt_zero _)
  | succ fuel ih =>
    intro m x frames _ hx hnone
    have hlt := DepthFirst.unmarked_update_lt hnone hx .visiting
    obtain ⟨fuel, rfl⟩ : ∃ rest, fuel = rest + 1 := Nat.exists_eq_add_one.2 (by omega)
    have hall := @visitAll_follows _ _ succ nodes _ x frames ih _ _ (hlt.trans_le (by omega)) (hclosed x hx)
    rw [visit, hnone]
    dsimp only
    rw [List.reverse_cons] at hall
    rcases hv : visitAll (visit succ (fuel + 1) ((frames.map Prod.fst).reverse ++ [x]))
        (Function.update m x (some .visiting)) (succ x) with ⟨_ | cycle, m'⟩ <;> rw [hv] at hall
    · obtain ⟨k, hk⟩ := hall
      refine ⟨k + 1, fun n => ?_⟩
      rw [show k + 1 + n = k + (n + 1) by omega, hk, search]
    · exact hall

/-- How the search from the roots ends, read off the recursion. -/
def ending : Option (List α) × (α → Option Mark) → Ending α
  | (some cycle, _) => .error cycle
  | (none, marks) => .ok marks

theorem searchAll_follows (hclosed : ∀ x ∈ nodes, ∀ y ∈ succ x, y ∈ nodes) : ∀ {todo : List α}
    {m : α → Option Mark}, (∀ x ∈ todo, x ∈ nodes) → Invariant succ m [] →
    ∃ k, ∀ fuel, k ≤ fuel →
      searchAll succ fuel m todo = some (ending (visitAll (visit succ (nodes.length + 1) []) m todo)) := by
  intro todo
  induction todo with
  | nil => exact fun _ _ => ⟨0, fun _ _ => rfl⟩
  | cons root todo ih =>
    intro m htodo hinv
    obtain ⟨hroot, htodo⟩ := List.forall_mem_cons.1 htodo
    rcases hmark : m root with _ | _ | _
    · have hfirst := @visit_follows _ _ succ nodes hclosed _ m root [] (Nat.lt_succ_of_le List.countP_le_length)
        hroot hmark
      rw [List.map_nil, List.reverse_nil] at hfirst
      rw [visitAll]
      rcases hv : visit succ (nodes.length + 1) [] m root with ⟨_ | cycle, m'⟩ <;> rw [hv] at hfirst <;>
        obtain ⟨k, hk⟩ := hfirst
      · have hends : ∀ fuel, k ≤ fuel → search succ fuel (Function.update m root (some .visiting))
            [(root, succ root)] = some (.ok m') := by
          intro fuel hle
          obtain ⟨n, rfl⟩ := Nat.exists_eq_add_of_le hle
          rw [hk, search]
        obtain ⟨l, hl⟩ := ih htodo (search_ok hinv.start (hends k le_rfl)).1
        refine ⟨max k l, fun fuel hle => ?_⟩
        rw [searchAll, hmark]
        dsimp only
        rw [hends fuel ((le_max_left ..).trans hle)]
        exact hl fuel ((le_max_right ..).trans hle)
      · refine ⟨k, fun fuel hle => ?_⟩
        obtain ⟨n, rfl⟩ := Nat.exists_eq_add_of_le hle
        rw [searchAll, hmark]
        dsimp only
        rw [hk]
        rfl
    · exact absurd (hinv.visiting root hmark) List.not_mem_nil
    · obtain ⟨l, hl⟩ := ih htodo hinv
      refine ⟨l, fun fuel hle => ?_⟩
      rw [searchAll, hmark, visitAll, visit, hmark]
      exact hl fuel hle

/-- **Agreement.**  With enough fuel the loop answers what the recursion answers. -/
theorem findCycle_agrees (hclosed : ∀ x ∈ nodes, ∀ y ∈ succ x, y ∈ nodes) :
    ∃ k, ∀ fuel, k ≤ fuel → findCycle succ fuel nodes = some (DepthFirst.findCycle succ nodes) := by
  obtain ⟨k, hk⟩ := searchAll_follows hclosed (fun _ hx => hx) invariant_none
  refine ⟨k, fun fuel hle => ?_⟩
  rw [findCycle, hk fuel hle, DepthFirst.findCycle]
  rcases visitAll (visit succ (nodes.length + 1) []) (fun _ => none) nodes with ⟨_ | _, _⟩ <;> rfl

/-- **Completeness of the recursion.**  If it finds no cycle, every node is accessible. -/
theorem acc_of_findCycle (hclosed : ∀ x ∈ nodes, ∀ y ∈ succ x, y ∈ nodes)
    (h : DepthFirst.findCycle succ nodes = none) : ∀ x ∈ nodes, Acc (Succ succ) x := by
  obtain ⟨k, hk⟩ := findCycle_agrees hclosed
  exact findCycle_none ((hk k le_rfl).trans (congrArg some h))

end Agreement

end FrameSearch
