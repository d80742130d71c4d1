import Falryn.Orchestration.EditScope
import Falryn.Orchestration.TaskLifecycle

/-!
# The store of edit scopes

The part of `createAgentJoinStore` (`agent-join-store.ts`) that keeps the edit scopes of agents: one row
for each agent, whatever its generation.  A reservation looks at the rows of the other agents of the
workspace; those that stand for nothing any more it releases, and one that does and overlaps refuses it.
Only these operations write rows, so what a row holds can always be parsed.
-/

namespace Falryn.Orchestration

/-- `UNLINKED_RESERVATION_MS`. -/
def unlinkedReservationMs : ℤ := 60000

/-- A row of `agent_edit_scopes`. -/
structure EditScopeRow where
  generation : ℕ
  workspaceId : String
  scope : EditScope
  task : Option ProcessTaskHandle
  reservedAt : ℤ
  released : Bool

structure EditScopeConflict where
  taskId : String
  generation : ℕ
  task : Option ProcessTaskHandle

/-- What `reserveEditScope` is given. -/
structure EditScopeReservation where
  taskId : String
  generation : ℕ
  workspaceId : String
  scope : EditScope
  now : ℤ

/-- The table of edit scopes: the rows under the ids of their agents. -/
abbrev EditScopeRows := OrderedMap String EditScopeRow

/-- A task is not over, or it ended with an uncertain effect. -/
def ProcessTaskSnapshot.KeepsScope (task : ProcessTaskSnapshot) : Prop :=
  task.state ≠ .terminal ∨ ∃ terminal ∈ task.terminal, terminal.effect = .uncertain

instance (task : ProcessTaskSnapshot) : Decidable task.KeepsScope := by
  unfold ProcessTaskSnapshot.KeepsScope
  infer_instance

/-- An unlinked row is the reservation of an admission in flight. -/
def EditScopeRow.Fresh (row : EditScopeRow) (now : ℤ) : Prop :=
  now - row.reservedAt < unlinkedReservationMs

instance (row : EditScopeRow) (now : ℤ) : Decidable (row.Fresh now) := by
  unfold EditScopeRow.Fresh
  infer_instance

/-- `active`: unlinked reservations are admissions in flight; a task that ended with a known effect has
released its writes. -/
def EditScopeRow.active (row : EditScopeRow) (tables : TaskTables) (now : ℤ) : Bool :=
  match row.task with
  | none => decide (row.Fresh now)
  | some held =>
    match tables.loadTask held with
    | .error _ => false
    | .ok task => decide task.KeepsScope

namespace EditScopeRows

/-- A row is marked as released. -/
def release (rows : EditScopeRows) (taskId : String) : EditScopeRows :=
  match rows.get taskId with
  | none => rows
  | some row => rows.set taskId { row with released := true }

/-- The rows a reservation looks at, in the order of the query. -/
def rivals (rows : EditScopeRows) (input : EditScopeReservation) : List (String × EditScopeRow) :=
  (rows.entries.filter fun entry => decide (entry.2.workspaceId = input.workspaceId)
    && !entry.2.released && decide (entry.1 ≠ input.taskId)).mergeSort fun a b =>
      decide (a.2.reservedAt < b.2.reservedAt) || (decide (a.2.reservedAt = b.2.reservedAt)
        && decide (a.1 ≤ b.1))

/-- One row in the loop of `reserveEditScope`. -/
def visit (tables : TaskTables) (input : EditScopeReservation)
    (reached : EditScopeRows × Option EditScopeConflict) (entry : String × EditScopeRow) :
    EditScopeRows × Option EditScopeConflict :=
  if entry.2.active tables input.now = false then (reached.1.release entry.1, reached.2)
  else if reached.2 = none ∧ editScopesOverlap entry.2.scope input.scope = true then
    (reached.1, some ⟨entry.1, entry.2.generation, entry.2.task⟩)
  else reached

/-- The row of an agent is written for its next generation, unless it is one of another workspace. -/
def upsert (rows : EditScopeRows) (input : EditScopeReservation) : EditScopeRows :=
  if ∃ row ∈ rows.get input.taskId, row.workspaceId ≠ input.workspaceId then rows
  else rows.set input.taskId
    ⟨input.generation, input.workspaceId, input.scope, none, input.now, false⟩

/-- The loop of `reserveEditScope`. -/
def visited (rows : EditScopeRows) (tables : TaskTables) (input : EditScopeReservation) :
    EditScopeRows × Option EditScopeConflict :=
  (rows.rivals input).foldl (visit tables input) (rows, none)

def reserveEditScope (rows : EditScopeRows) (tables : TaskTables) (input : EditScopeReservation) :
    EditScopeRows × Option EditScopeConflict :=
  if (rows.visited tables input).2 ≠ none then rows.visited tables input
  else ((rows.visited tables input).1.upsert input, none)

def linkEditScope (rows : EditScopeRows) (taskId : String) (task : ProcessTaskHandle) : EditScopeRows :=
  match rows.get taskId with
  | none => rows
  | some row => if row.released then rows else rows.set taskId { row with task := some task }

def releaseEditScope (rows : EditScopeRows) (taskId : String) : EditScopeRows := rows.release taskId

/-! ## What a reservation finds -/

section
variable {rows rows' : EditScopeRows} {tables : TaskTables} {input : EditScopeReservation}
  {conflict : Option EditScopeConflict} {found : EditScopeConflict} {taskId : String} {row : EditScopeRow}

theorem get_release (rows : EditScopeRows) (taskId taskId' : String) :
    (rows.release taskId).get taskId' =
      if taskId' = taskId then (rows.get taskId').map fun row => { row with released := true }
      else rows.get taskId' := by
  unfold release
  cases hrow : rows.get taskId with
  | none | some row =>
    by_cases hid : taskId' = taskId
    · simp [hid, hrow]
    · simp [hid]

theorem get_linkEditScope (rows : EditScopeRows) (taskId taskId' : String) (task : ProcessTaskHandle) :
    (rows.linkEditScope taskId task).get taskId' =
      if taskId' = taskId then
        (rows.get taskId').map fun row => if row.released then row else { row with task := some task }
      else rows.get taskId' := by
  unfold linkEditScope
  cases hrow : rows.get taskId with
  | none =>
    by_cases hid : taskId' = taskId
    · simp [hid, hrow]
    · simp [hid]
  | some row =>
    by_cases hreleased : row.released = true
    · by_cases hid : taskId' = taskId
      · simp [hid, hrow, hreleased]
      · simp [hid, hreleased]
    · by_cases hid : taskId' = taskId
      · simp [hid, hrow, hreleased]
      · simp [hid, hreleased]

theorem mem_rivals :
    (taskId, row) ∈ rows.rivals input ↔
      rows.get taskId = some row ∧ row.workspaceId = input.workspaceId ∧ row.released = false
        ∧ taskId ≠ input.taskId := by
  rw [rivals, (List.mergeSort_perm _ _).mem_iff, List.mem_filter, OrderedMap.mem_entries]
  simp [and_assoc]

/-- A row is what it was, or it is released because it was visited and stood for nothing. -/
theorem get_foldl_visit : ∀ (entries : List (String × EditScopeRow))
    (reached : EditScopeRows × Option EditScopeConflict),
    (entries.foldl (visit tables input) reached).1.get taskId = reached.1.get taskId
      ∨ (∃ row, (taskId, row) ∈ entries ∧ row.active tables input.now = false)
        ∧ (entries.foldl (visit tables input) reached).1.get taskId
          = (reached.1.get taskId).map fun row => { row with released := true } := by
  intro entries
  induction entries with
  | nil => exact fun _ => .inl rfl
  | cons entry entries ih =>
    intro reached
    have hvisit : (visit tables input reached entry).1.get taskId = reached.1.get taskId
        ∨ (entry.1 = taskId ∧ entry.2.active tables input.now = false)
          ∧ (visit tables input reached entry).1.get taskId
            = (reached.1.get taskId).map fun row => { row with released := true } := by
      unfold visit
      split_ifs with hinactive
      · by_cases hid : taskId = entry.1
        · exact .inr ⟨⟨hid.symm, hinactive⟩, by rw [get_release, if_pos hid]⟩
        · exact .inl (by rw [get_release, if_neg hid])
      · exact .inl rfl
      · exact .inl rfl
    rw [List.foldl_cons]
    rcases hvisit with hsame | ⟨⟨rfl, hinactive⟩, hreleased⟩
    · rcases ih (visit tables input reached entry) with hrest | ⟨⟨row, hrow, hinactive⟩, hrest⟩
      · exact .inl (hrest.trans hsame)
      · exact .inr ⟨⟨row, List.mem_cons_of_mem _ hrow, hinactive⟩, by rw [hrest, hsame]⟩
    · refine .inr ⟨⟨entry.2, List.mem_cons_self, hinactive⟩, ?_⟩
      rcases ih (visit tables input reached entry) with hrest | ⟨-, hrest⟩
      · exact hrest.trans hreleased
      · rw [hrest, hreleased, Option.map_map]
        rfl

/-- Without a conflict no row that stands for something overlaps. -/
theorem foldl_visit_none : ∀ {entries : List (String × EditScopeRow)}
    {reached : EditScopeRows × Option EditScopeConflict},
    (entries.foldl (visit tables input) reached).2 = none →
      reached.2 = none ∧ ∀ entry ∈ entries, entry.2.active tables input.now = true →
        editScopesOverlap entry.2.scope input.scope = false := by
  intro entries
  induction entries with
  | nil => exact fun h => ⟨h, by simp⟩
  | cons entry entries ih =>
    intro reached h
    obtain ⟨hvisit, hrest⟩ := ih h
    unfold visit at hvisit
    split_ifs at hvisit with hinactive hoverlap
    · refine ⟨hvisit, List.forall_mem_cons.2 ⟨fun hactive => ?_, hrest⟩⟩
      simp [hinactive] at hactive
    · refine ⟨hvisit, List.forall_mem_cons.2 ⟨fun _ => ?_, hrest⟩⟩
      simpa [hvisit] using hoverlap

/-- What a reservation leaves of a row of another agent. -/
theorem get_visited_ne (hid : taskId ≠ input.taskId)
    (h : rows.reserveEditScope tables input = (rows', conflict)) :
    rows'.get taskId = rows.get taskId
      ∨ ∃ row, rows.get taskId = some row ∧ row.workspaceId = input.workspaceId ∧ row.released = false
        ∧ row.active tables input.now = false ∧ rows'.get taskId = some { row with released := true } := by
  have hrows' : rows'.get taskId = (rows.visited tables input).1.get taskId := by
    unfold reserveEditScope at h
    split_ifs at h
    · rw [h]
    · obtain ⟨rfl, -⟩ := Prod.mk.inj h
      unfold upsert
      split_ifs
      · rfl
      · rw [OrderedMap.get_set_ne _ _ hid]
  rw [hrows', visited]
  refine (get_foldl_visit (rows.rivals input) (rows, none)).imp_right ?_
  rintro ⟨⟨row, hrow, hinactive⟩, hreleased⟩
  obtain ⟨hget, hworkspace, hfree, -⟩ := mem_rivals.1 hrow
  exact ⟨row, hget, hworkspace, hfree, hinactive, by rw [hreleased, hget]; rfl⟩

/-- The own row is not among those that are visited. -/
theorem get_visited_self :
    (rows.visited tables input).1.get input.taskId = rows.get input.taskId := by
  refine (get_foldl_visit (rows.rivals input) (rows, none)).resolve_right ?_
  rintro ⟨⟨row, hrow, -⟩, -⟩
  exact (mem_rivals.1 hrow).2.2.2 rfl

/-- A reservation that is refused leaves the own row alone. -/
theorem get_refused_self (h : rows.reserveEditScope tables input = (rows', some found)) :
    rows'.get input.taskId = rows.get input.taskId := by
  unfold reserveEditScope at h
  split_ifs at h
  · have hself := @get_visited_self rows tables input
    rwa [h] at hself
  · cases (Prod.mk.inj h).2

/-- **A reservation that is granted** is written as the own row, and overlaps no row of the workspace
that stands for something. -/
theorem reserveEditScope_ok (h : rows.reserveEditScope tables input = (rows', none))
    (hown : ∀ row ∈ rows.get input.taskId, row.workspaceId = input.workspaceId) :
    rows'.get input.taskId
        = some ⟨input.generation, input.workspaceId, input.scope, none, input.now, false⟩
      ∧ ∀ taskId row, rows.get taskId = some row → row.workspaceId = input.workspaceId →
        row.released = false → taskId ≠ input.taskId → row.active tables input.now = true →
        editScopesOverlap row.scope input.scope = false := by
  unfold reserveEditScope at h
  split_ifs at h with hconflict
  · exact absurd (congrArg Prod.snd h) hconflict
  · obtain rfl := (Prod.mk.inj h).1
    constructor
    · unfold upsert
      rw [get_visited_self, if_neg]
      · exact OrderedMap.get_set_self _ _ _
      · rintro ⟨row, hrow, hne⟩
        exact hne (hown row hrow)
    · intro taskId row hrow hworkspace hfree hid hactive
      exact (foldl_visit_none (not_not.1 hconflict)).2 (taskId, row)
        (mem_rivals.2 ⟨hrow, hworkspace, hfree, hid⟩) hactive

end

end EditScopeRows

end Falryn.Orchestration
