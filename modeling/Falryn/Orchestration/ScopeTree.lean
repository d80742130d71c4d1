import Falryn.Foundation.Identity
import Falryn.Foundation.Result
import Falryn.Lib.OrderedMap
import Falryn.Lib.BreadthFirst
import Falryn.Orchestration.Outcome

/-!
# The cancellation scope tree

The tree of scopes that can be stopped (`domain/orchestration/scope.ts`,
`application/orchestration/scope-tree.ts`), operation by operation.  A scope's object and its entry
in the map of scopes are one here: the source takes an object out of the map only after its scope has
settled, and leaves it alone afterwards.  What the clock reads is an argument of each operation.  The
diagnostics mirror is left out.
-/

namespace Falryn.Orchestration

/-! ## Scopes -/

abbrev ScopeId := String

/-- `SCOPE_KINDS`. -/
inductive ScopeKind where
  | application
  | session
  | turn
  | attempt
  | invocation
  | child

/-- An absolute instant, in milliseconds. -/
structure Deadline where
  expiresAt : ℕ
  deriving DecidableEq

/-- `deriveDeadline`: the tighter of the two. -/
def deriveDeadline : Option Deadline → Option Deadline → Option Deadline
  | none, requested => requested
  | some inherited, none => some inherited
  | some inherited, some requested =>
    some (if requested.expiresAt < inherited.expiresAt then requested else inherited)

/-- Why a scope is stopping. -/
inductive CancellationReason where
  | requested
  | parentCancelled (originScopeId : ScopeId)
  | deadlineExceeded (deadline : Deadline) (escalated : Bool)
  | shutdown
  deriving DecidableEq

/-- The lifecycle of a scope. -/
inductive ScopeState where
  | active
  | cancelling (reason : CancellationReason) (requestedAt : ℕ)
  | terminal (outcome : TerminalOutcome) (reason : Option CancellationReason) (settledAt : ℕ)
  deriving DecidableEq

namespace ScopeState

/-- `status === "cancelling"`. -/
def IsCancelling : ScopeState → Prop
  | cancelling _ _ => True
  | _ => False

/-- `status === "terminal"`. -/
def IsTerminal : ScopeState → Prop
  | terminal _ _ _ => True
  | _ => False

instance : DecidablePred IsCancelling
  | active => .isFalse id
  | cancelling _ _ => .isTrue trivial
  | terminal _ _ _ => .isFalse id

instance : DecidablePred IsTerminal
  | active => .isFalse id
  | cancelling _ _ => .isFalse id
  | terminal _ _ _ => .isTrue trivial

/-- The reason a cancelling scope carries. -/
def cancelReason : ScopeState → Option CancellationReason
  | cancelling reason _ => some reason
  | _ => none

end ScopeState

/-- `worstEffect`: the more inspection-demanding of two effects. -/
def worstEffect (left right : EffectCertainty) : EffectCertainty :=
  if left.severity < right.severity then right else left

def cancellationOutcomeFor : EffectCertainty → TerminalOutcome
  | .none => .cancelled .none
  | .completed => .cancelled .completed
  | .partial_ => .uncertain
  | .uncertain => .uncertain

def timeoutOutcomeFor : EffectCertainty → TerminalOutcome
  | .none => .timedOut .none
  | .completed => .timedOut .completed
  | .partial_ => .timedOut .uncertain
  | .uncertain => .timedOut .uncertain

/-- What a lifecycle event announces. -/
inductive ScopeEventKind where
  | opened
  | cancellationRequested
  | effectRecorded
  | terminal

/-- An ordered observation of a scope's lifecycle. -/
structure ScopeEvent where
  order : ℕ
  kind : ScopeEventKind
  scopeId : ScopeId
  scopeKind : ScopeKind
  instant : ℕ
  reason : Option CancellationReason
  outcome : Option TerminalOutcome
  effect : Option EffectCertainty

inductive ScopeError where
  | unknownScope (scopeId : ScopeId)
  | duplicateScope (scopeId : ScopeId)
  | scopeAlreadyTerminal (scopeId : ScopeId)
  | scopeDepthExceeded (maximumDepth : ℕ)
  | scopeCountExceeded (maximumScopes : ℕ)
  /-- The codec of scope identities threw on a generated identifier. -/
  | invalidScopeId

/-! ## The state of a tree -/

/-- `MAX_SCOPE_DEPTH`. -/
def maxScopeDepth : ℕ := 16

/-- `MAX_LIVE_SCOPES`. -/
def maxLiveScopes : ℕ := 10000

/-- `MAX_RETAINED_TERMINAL_SCOPES`. -/
def maxRetainedTerminalScopes : ℕ := 1000

/-- `MAX_EVICTED_TOMBSTONES`. -/
def maxEvictedTombstones : ℕ := maxRetainedTerminalScopes

/-- `MAX_RETAINED_SCOPE_EVENTS`. -/
def maxRetainedScopeEvents : ℕ := 10000

/-- `SCOPE_EVENT_TRIM_CHUNK`. -/
def scopeEventTrimChunk : ℕ := 1024

/-- A scope.  `aborted` is whether the signal of its controller is. -/
structure ScopeNode where
  scopeId : ScopeId
  kind : ScopeKind
  parentId : Option ScopeId
  depth : ℕ
  deadline : Option Deadline
  aborted : Bool
  children : List ScopeId
  state : ScopeState
  effect : EffectCertainty
  settledDescendantEffect : EffectCertainty
  cancellationRequestedAt : Option ℕ
  nextChildOrdinal : ℕ

namespace ScopeNode

/-- `totalEffectOf`. -/
def totalEffect (node : ScopeNode) : EffectCertainty :=
  worstEffect node.effect node.settledDescendantEffect

/-- What `beginCancelling` writes to a scope. -/
def askToStop (node : ScopeNode) (reason : CancellationReason) (instant : ℕ) : ScopeNode :=
  { node with
    state := .cancelling reason instant
    cancellationRequestedAt := some instant
    aborted := true }

/-- What `applyEffect` writes to a scope. -/
def withEffect (node : ScopeNode) (effect : EffectCertainty) : ScopeNode :=
  { node with effect }

/-- What `foldIntoAncestorIds` writes to a scope. -/
def absorb (node : ScopeNode) (effect : EffectCertainty) : ScopeNode :=
  { node with settledDescendantEffect := worstEffect node.settledDescendantEffect effect }

/-- What `settle` writes to a scope. -/
def settled (node : ScopeNode) (outcome : TerminalOutcome) (instant : ℕ) : ScopeNode :=
  { node with state := .terminal outcome node.state.cancelReason instant }

/-- What `derive` writes to the parent. -/
def withChild (node : ScopeNode) (childId : ScopeId) : ScopeNode :=
  { node with
    nextChildOrdinal := node.nextChildOrdinal + 1
    children := node.children ++ [childId] }

/-- What `evict` writes to the parent. -/
def withoutChild (node : ScopeNode) (childId : ScopeId) : ScopeNode :=
  { node with children := node.children.erase childId }

end ScopeNode

/-- What a tree holds between two operations.  The source keeps the tombstones' order in a list of its
own; the map has it.  `delivered` is what a listener that subscribed at the start was handed. -/
structure ScopeTree where
  nodes : OrderedMap ScopeId ScopeNode
  cancellationBoundaries : Finset ScopeId
  retained : List ScopeId
  tombstones : OrderedMap ScopeId (List ScopeId)
  order : ℕ
  liveCount : ℕ
  events : List ScopeEvent
  droppedEvents : ℕ
  delivered : List ScopeEvent

namespace ScopeTree

/-- `emit`: the event goes to the log, which drops its oldest chunk when it is full, and to the
listeners. -/
def emit (t : ScopeTree) (kind : ScopeEventKind) (node : ScopeNode) (instant : ℕ)
    (reason : Option CancellationReason) (outcome : Option TerminalOutcome)
    (effect : Option EffectCertainty) : ScopeTree :=
  let event := ⟨t.order + 1, kind, node.scopeId, node.kind, instant, reason, outcome, effect⟩
  let pushed := t.events ++ [event]
  let full := maxRetainedScopeEvents < pushed.length
  { t with
    order := t.order + 1
    events := if full then pushed.drop scopeEventTrimChunk else pushed
    droppedEvents := if full then t.droppedEvents + scopeEventTrimChunk else t.droppedEvents
    delivered := t.delivered ++ [event] }

/-- The events an operation produced, in order: those the listeners were handed meanwhile. -/
def producedSince (before after : ScopeTree) : List ScopeEvent :=
  after.delivered.drop before.delivered.length

/-- The scope a tree starts with. -/
def rootNode (rootId : ScopeId) (rootDeadline : Option Deadline) : ScopeNode :=
  { scopeId := rootId, kind := .application, parentId := none, depth := 0
    deadline := rootDeadline, aborted := false, children := [], state := .active
    effect := .none, settledDescendantEffect := .none, cancellationRequestedAt := none
    nextChildOrdinal := 1 }

/-- `createScopeTree`. -/
def create (rootId : ScopeId) (rootDeadline : Option Deadline) (instant : ℕ) : ScopeTree :=
  emit
    { nodes := OrderedMap.empty.set rootId (rootNode rootId rootDeadline)
      cancellationBoundaries := ∅
      retained := []
      tombstones := OrderedMap.empty
      order := 0
      liveCount := 1
      events := []
      droppedEvents := 0
      delivered := [] }
    .opened (rootNode rootId rootDeadline) instant none none none

/-! ## Walking the tree -/

/-- What the walk of `descendantsOf` finds under an identifier: nothing if no scope is there, or if
the walk is one of cancellation and stops at a boundary. -/
def childrenAt (t : ScopeTree) (cancellation : Bool) (id : ScopeId) : Option (List ScopeId) :=
  match t.nodes.get id with
  | none => none
  | some node =>
    if cancellation && id ∈ t.cancellationBoundaries then none else some node.children

/-- The identifiers that `descendantsOf` collects, breadth first.  There is no scope twice in its
queue, so there are no more rounds than scopes. -/
def descendantIdsOf (t : ScopeTree) (start : ScopeNode) (cancellation : Bool) : List ScopeId :=
  BreadthFirst.sweep (t.childrenAt cancellation) t.nodes.size start.children

def descendantsOf (t : ScopeTree) (start : ScopeNode) (cancellation : Bool) : List ScopeNode :=
  (t.descendantIdsOf start cancellation).filterMap t.nodes.get

def subtreeEffectOf (t : ScopeTree) (node : ScopeNode) : EffectCertainty :=
  (t.descendantsOf node false).foldl (fun worst descendant =>
    worstEffect worst descendant.totalEffect) node.totalEffect

/-- The loop of `ancestorIdsOf`; it is bounded because `derive` refuses to nest deeper. -/
def climb (t : ScopeTree) : ℕ → Option ScopeId → List ScopeId
  | 0, _ => []
  | _ + 1, none => []
  | fuel + 1, some parentId =>
    match t.nodes.get parentId with
    | none => []
    | some ancestor => parentId :: climb t fuel ancestor.parentId

/-- `ancestorIdsOf`, nearest first. -/
def ancestorIdsOf (t : ScopeTree) (node : ScopeNode) : List ScopeId :=
  t.climb maxScopeDepth node.parentId

/-! ## Changing one scope -/

/-- A write to the scope under an identifier, if there is one. -/
def modify (t : ScopeTree) (id : ScopeId) (f : ScopeNode → ScopeNode) : ScopeTree :=
  match t.nodes.get id with
  | none => t
  | some node => { t with nodes := t.nodes.set id (f node) }

/-- `beginCancelling`: only an active scope can be asked to stop. -/
def beginCancelling (t : ScopeTree) (id : ScopeId) (reason : CancellationReason) (instant : ℕ) :
    ScopeTree :=
  match t.nodes.get id with
  | none => t
  | some node =>
    if node.state = .active then
      (t.modify id (·.askToStop reason instant)).emit .cancellationRequested node instant
        (some reason) none none
    else t

/-- `beginCancelling` for a list of scopes, one after the other. -/
def beginCancellingAll (t : ScopeTree) (ids : List ScopeId) (reason : CancellationReason)
    (instant : ℕ) : ScopeTree :=
  ids.foldl (fun t id => t.beginCancelling id reason instant) t

/-- A scope is asked to stop, and after it every descendant no boundary hides. -/
def cancelSubtree (t : ScopeTree) (target : ScopeNode) (reason : CancellationReason)
    (instant : ℕ) : ScopeTree :=
  let t := t.beginCancelling target.scopeId reason instant
  t.beginCancellingAll (t.descendantIdsOf target true) (.parentCancelled target.scopeId) instant

/-- `applyEffect`: a live scope's own effect only rises. -/
def applyEffect (t : ScopeTree) (id : ScopeId) (effect : EffectCertainty) (instant : ℕ) :
    ScopeTree :=
  match t.nodes.get id with
  | none => t
  | some node =>
    let updated := worstEffect node.effect effect
    if updated ≠ node.effect then
      (t.modify id (·.withEffect updated)).emit .effectRecorded node instant none none
        (some updated)
    else t

/-- `foldIntoAncestorIds`: an effect goes to each of the scopes that is still there. -/
def foldIntoAncestorIds (t : ScopeTree) (ancestorIds : List ScopeId) (effect : EffectCertainty) :
    ScopeTree :=
  ancestorIds.foldl (fun t id => t.modify id (·.absorb effect)) t

/-- What `foldIntoAncestorIds` returns. -/
def reached (t : ScopeTree) (ancestorIds : List ScopeId) : List ScopeId :=
  ancestorIds.filter fun id => (t.nodes.get id).isSome

/-! ## Eviction -/

def forgetTombstone (t : ScopeTree) (id : ScopeId) : ScopeTree :=
  { t with tombstones := t.tombstones.delete id }

/-- The tombstones with the oldest dropped until there are no more than the limit. -/
def dropOldest (tombstones : OrderedMap ScopeId (List ScopeId)) :
    OrderedMap ScopeId (List ScopeId) :=
  (tombstones.keys.take (tombstones.size - maxEvictedTombstones)).foldl OrderedMap.delete tombstones

def rememberTombstone (t : ScopeTree) (id : ScopeId) (ancestorIds : List ScopeId) : ScopeTree :=
  { t with tombstones := dropOldest ((t.tombstones.delete id).set id ancestorIds) }

/-- The scope leaves its parent's list, the map of scopes and the boundaries. -/
def detach (t : ScopeTree) (node : ScopeNode) : ScopeTree :=
  let t :=
    match node.parentId with
    | none => t
    | some parentId => t.modify parentId (·.withoutChild node.scopeId)
  { t with
    nodes := t.nodes.delete node.scopeId
    cancellationBoundaries := t.cancellationBoundaries.erase node.scopeId }

/-- `evict`: `none` while something under the scope is still retained. -/
def evict (t : ScopeTree) (node : ScopeNode) : Option ScopeTree :=
  if node.children.any fun child => (t.nodes.get child).isSome then none
  else some ((t.detach node).rememberTombstone node.scopeId (t.ancestorIdsOf node))

/-- The loop of `trimRetained`: `kept` is what it has left alone, the list is what is to be looked at,
and `retained.length - index` is the length of the list. -/
def trimFrom (t : ScopeTree) (kept : List ScopeId) : List ScopeId → ScopeTree
  | [] => t
  | candidateId :: rest =>
    if maxRetainedTerminalScopes < rest.length + 1 then
      match t.nodes.get candidateId with
      | none => trimFrom { t with retained := kept ++ rest } kept rest
      | some candidate =>
        match t.evict candidate with
        | some t => trimFrom { t with retained := kept ++ rest } kept rest
        | none => trimFrom t (kept ++ [candidateId]) rest
    else t

def trimRetained (t : ScopeTree) : ScopeTree := t.trimFrom [] t.retained

/-! ## Settling -/

/-- `settle` up to the trim: the scope is terminal, and what it and its settled descendants did is
known to every scope above it. -/
def settleUntrimmed (t : ScopeTree) (node : ScopeNode) (outcome : TerminalOutcome)
    (instant : ℕ) : ScopeTree :=
  let reason := node.state.cancelReason
  let t := t.modify node.scopeId (·.settled outcome instant)
  let t := t.foldIntoAncestorIds (t.ancestorIdsOf node) node.totalEffect
  let t := t.emit .terminal node instant reason (some outcome) (some node.effect)
  { t with liveCount := t.liveCount - 1, retained := t.retained ++ [node.scopeId] }

def settle (t : ScopeTree) (node : ScopeNode) (outcome : TerminalOutcome) (instant : ℕ) :
    ScopeTree :=
  (t.settleUntrimmed node outcome instant).trimRetained

def requireNode (t : ScopeTree) (id : ScopeId) : Except ScopeError ScopeNode :=
  match t.nodes.get id with
  | none => .error (.unknownScope id)
  | some node => .ok node

def settleSelf (t : ScopeTree) (id : ScopeId) (outcome : TerminalOutcome) (instant : ℕ) :
    Except ScopeError (TerminalOutcome × ScopeTree) := do
  let node ← t.requireNode id
  refuseIf node.state.IsTerminal (.scopeAlreadyTerminal id)
  return (outcome, t.settle node outcome instant)

/-! ## The operations -/

/-- `cancellationBoundary`: whether the boundary was moved, and the tree after it. -/
def cancellationBoundary (t : ScopeTree) (id : ScopeId) (enabled : Bool) : Bool × ScopeTree :=
  match t.nodes.get id with
  | none => (false, t)
  | some node =>
    match node.parentId with
    | none => (false, t)
    | some parentId =>
      if node.state ≠ .active then (false, t)
      else if enabled then
        (true, { t with cancellationBoundaries := insert id t.cancellationBoundaries })
      else
        match t.nodes.get parentId with
        | none => (false, t)
        | some parent =>
          if parent.state ≠ .active then (false, t)
          else (true, { t with cancellationBoundaries := t.cancellationBoundaries.erase id })

structure ScopeHandle where
  scopeId : ScopeId
  kind : ScopeKind
  parentId : Option ScopeId
  deadline : Option Deadline
  aborted : Bool
  depth : ℕ

def handleOf (node : ScopeNode) : ScopeHandle :=
  ⟨node.scopeId, node.kind, node.parentId, node.deadline, node.aborted, node.depth⟩

structure DeriveScopeOptions where
  kind : ScopeKind
  deadline : Option Deadline
  scopeId : Option ScopeId

/-- The identifier of a new scope: the caller's, or one generated from the parent's. -/
def childIdFor (parent : ScopeNode) (options : DeriveScopeOptions) : Except ScopeError ScopeId :=
  match options.scopeId with
  | some id => .ok id
  | none =>
    match identifier? (parent.scopeId ++ "." ++ toString parent.nextChildOrdinal) with
    | none => .error .invalidScopeId
    | some id => .ok id

/-- The scope that `derive` makes. -/
def newNode (parent : ScopeNode) (options : DeriveScopeOptions) (childId : ScopeId) : ScopeNode :=
  { scopeId := childId, kind := options.kind, parentId := some parent.scopeId
    depth := parent.depth + 1, deadline := deriveDeadline parent.deadline options.deadline
    aborted := false, children := [], state := .active, effect := .none
    settledDescendantEffect := .none, cancellationRequestedAt := none, nextChildOrdinal := 1 }

/-- The tree with a new scope put under a parent. -/
def attach (t : ScopeTree) (parent node : ScopeNode) (instant : ℕ) : ScopeTree :=
  let t := t.forgetTombstone node.scopeId
  let t := { t with nodes := t.nodes.set node.scopeId node, liveCount := t.liveCount + 1 }
  (t.modify parent.scopeId (·.withChild node.scopeId)).emit .opened node instant none none none

/-- `derive`.  The clock is read once when the scope opens and once more if it is asked to stop at
once. -/
def derive (t : ScopeTree) (parentId : ScopeId) (options : DeriveScopeOptions)
    (openedAt requestedAt : ℕ) : Except ScopeError (ScopeHandle × ScopeTree) := do
  let parent ← t.requireNode parentId
  refuseIf parent.state.IsTerminal (.scopeAlreadyTerminal parentId)
  refuseIf (maxScopeDepth ≤ parent.depth + 1) (.scopeDepthExceeded maxScopeDepth)
  refuseIf (maxLiveScopes ≤ t.liveCount) (.scopeCountExceeded maxLiveScopes)
  let childId ← childIdFor parent options
  refuseIf ((t.nodes.get childId).isSome) (.duplicateScope childId)
  let node := newNode parent options childId
  let opened := t.attach parent node openedAt
  if parent.state.IsCancelling then
    let stopped := opened.beginCancelling childId (.parentCancelled parentId) requestedAt
    return ({ handleOf node with aborted := true }, stopped)
  else
    return (handleOf node, opened)

def cancel (t : ScopeTree) (targetId : ScopeId) (reason : CancellationReason) (instant : ℕ) :
    Except ScopeError (List ScopeEvent × ScopeTree) := do
  let target ← t.requireNode targetId
  let after := t.cancelSubtree target reason instant
  return (producedSince t after, after)

def recordEffect (t : ScopeTree) (id : ScopeId) (effect : EffectCertainty) (instant : ℕ) :
    Except ScopeError ScopeTree := do
  let node ← t.requireNode id
  refuseIf node.state.IsTerminal (.scopeAlreadyTerminal id)
  return t.applyEffect id effect instant

structure LateEffectRecord where
  scopeId : ScopeId
  effect : EffectCertainty
  late : Bool
  foldedInto : List ScopeId

def recordLateEffect (t : ScopeTree) (id : ScopeId) (effect : EffectCertainty) (instant : ℕ) :
    Except ScopeError (LateEffectRecord × ScopeTree) :=
  match t.nodes.get id with
  | some node =>
    if node.state.IsTerminal then
      let ancestorIds := t.ancestorIdsOf node
      .ok (⟨id, effect, true, t.reached ancestorIds⟩, t.foldIntoAncestorIds ancestorIds effect)
    else .ok (⟨id, effect, false, []⟩, t.applyEffect id effect instant)
  | none =>
    match t.tombstones.get id with
    | none => .error (.unknownScope id)
    | some ancestorIds =>
      .ok (⟨id, effect, true, t.reached ancestorIds⟩, t.foldIntoAncestorIds ancestorIds effect)

def complete (t : ScopeTree) (id : ScopeId) (instant : ℕ) :
    Except ScopeError (TerminalOutcome × ScopeTree) :=
  t.settleSelf id .completed instant

def fail (t : ScopeTree) (id : ScopeId) (instant : ℕ) :
    Except ScopeError (TerminalOutcome × ScopeTree) := do
  let node ← t.requireNode id
  t.settleSelf id (.failed node.effect) instant

/-- The outcome of a scope that acknowledges. -/
def acknowledgedOutcome (node : ScopeNode) : TerminalOutcome :=
  match node.state.cancelReason with
  | some (.deadlineExceeded _ _) => timeoutOutcomeFor node.effect
  | _ => cancellationOutcomeFor node.effect

def acknowledge (t : ScopeTree) (id : ScopeId) (instant : ℕ) :
    Except ScopeError (TerminalOutcome × ScopeTree) := do
  let node ← t.requireNode id
  refuseIf node.state.IsTerminal (.scopeAlreadyTerminal id)
  return (acknowledgedOutcome node, t.settle node (acknowledgedOutcome node) instant)

/-- One round of `expireDeadlines`.  `clock` is what the clock reads when the scope is looked at. -/
def expireDeadline (escalated : Bool) (instant : ℕ) (clock : ScopeId → ℕ) (t : ScopeTree)
    (id : ScopeId) : ScopeTree :=
  match t.nodes.get id with
  | none => t
  | some node =>
    match node.deadline with
    | none => t
    | some deadline =>
      if node.state = .active ∧ deadline.expiresAt ≤ clock id then
        t.cancelSubtree node (.deadlineExceeded deadline escalated) instant
      else t

def expireDeadlines (t : ScopeTree) (escalated : Bool) (instant : ℕ) (clock : ScopeId → ℕ) :
    List ScopeEvent × ScopeTree :=
  let after := t.nodes.keys.foldl (expireDeadline escalated instant clock) t
  (producedSince t after, after)

/-- One round of `forceSettleUnacknowledged`.  A scope that an earlier round evicted had settled. -/
def forceSettleOne (instant : ℕ) (t : ScopeTree) (id : ScopeId) : ScopeTree :=
  match t.nodes.get id with
  | none => t
  | some node => if node.state.IsTerminal then t else t.settle node .uncertain instant

def forceSettleUnacknowledged (t : ScopeTree) (instant : ℕ) : List ScopeEvent × ScopeTree :=
  let after := t.nodes.keys.foldl (forceSettleOne instant) t
  (producedSince t after, after)

/-! ## What a tree answers -/

structure ScopeReport where
  scopeId : ScopeId
  kind : ScopeKind
  parentId : Option ScopeId
  state : ScopeState
  deadline : Option Deadline
  recordedEffect : EffectCertainty
  subtreeEffect : EffectCertainty
  requiresInspection : Bool
  cancellationLatency : Option ℕ

def report (t : ScopeTree) (id : ScopeId) : Option ScopeReport :=
  (t.nodes.get id).map fun node =>
    let subtreeEffect := t.subtreeEffectOf node
    { scopeId := node.scopeId
      kind := node.kind
      parentId := node.parentId
      state := node.state
      deadline := node.deadline
      recordedEffect := node.effect
      subtreeEffect
      requiresInspection := subtreeEffect = .partial_ || subtreeEffect = .uncertain
      cancellationLatency :=
        match node.cancellationRequestedAt, node.state with
        | some requestedAt, .terminal _ _ settledAt => some (settledAt - requestedAt)
        | _, _ => none }

/-- What a caller can ask of a tree. -/
inductive Operation where
  | cancellationBoundary (id : ScopeId) (enabled : Bool)
  | derive (parentId : ScopeId) (options : DeriveScopeOptions) (openedAt requestedAt : ℕ)
  | cancel (id : ScopeId) (reason : CancellationReason) (instant : ℕ)
  | recordEffect (id : ScopeId) (effect : EffectCertainty) (instant : ℕ)
  | recordLateEffect (id : ScopeId) (effect : EffectCertainty) (instant : ℕ)
  | complete (id : ScopeId) (instant : ℕ)
  | fail (id : ScopeId) (instant : ℕ)
  | acknowledge (id : ScopeId) (instant : ℕ)
  | expireDeadlines (escalated : Bool) (instant : ℕ) (clock : ScopeId → ℕ)
  | forceSettleUnacknowledged (instant : ℕ)

/-- The tree after an operation; one that is refused leaves it as it was. -/
def apply (t : ScopeTree) : Operation → ScopeTree
  | .cancellationBoundary id enabled => (t.cancellationBoundary id enabled).2
  | .derive parentId options openedAt requestedAt =>
    match t.derive parentId options openedAt requestedAt with
    | .ok (_, after) => after
    | .error _ => t
  | .cancel id reason instant =>
    match t.cancel id reason instant with
    | .ok (_, after) => after
    | .error _ => t
  | .recordEffect id effect instant =>
    match t.recordEffect id effect instant with
    | .ok after => after
    | .error _ => t
  | .recordLateEffect id effect instant =>
    match t.recordLateEffect id effect instant with
    | .ok (_, after) => after
    | .error _ => t
  | .complete id instant =>
    match t.complete id instant with
    | .ok (_, after) => after
    | .error _ => t
  | .fail id instant =>
    match t.fail id instant with
    | .ok (_, after) => after
    | .error _ => t
  | .acknowledge id instant =>
    match t.acknowledge id instant with
    | .ok (_, after) => after
    | .error _ => t
  | .expireDeadlines escalated instant clock => (t.expireDeadlines escalated instant clock).2
  | .forceSettleUnacknowledged instant => (t.forceSettleUnacknowledged instant).2

end ScopeTree
end Falryn.Orchestration
