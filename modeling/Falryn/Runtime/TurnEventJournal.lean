import Falryn.Foundation.Identity
import Falryn.Orchestration.Outcome

/-!
# The journal of a turn

The facts of a turn and of its attempts, and how the journal stores them
(`domain/sessions/turn-events.ts`, `application/runtime/turn-event-journal.ts`).  A fact has an
identity, which is the id and the idempotency key of its event; a store that holds an event of that
identity answers with a receipt and stores nothing.  Of a correlation only the turn takes part in an
identity, and the binding of an attempt and its receipts take part in nothing here.
-/

namespace Falryn.Runtime

open Orchestration

/-- `TurnLifecycleFact`, of the kinds an attempt policy records. -/
inductive TurnLifecycleFact where
  | turnStarted (turnId : String)
  | turnCompleted (turnId : String) (outcome : TerminalOutcome)
  | modelAttemptStarted (modelAttemptId : String)
  | modelAttemptCompleted (modelAttemptId : String) (outcome : TerminalOutcome)
  deriving DecidableEq

def factIdentity : TurnLifecycleFact → String
  | .turnStarted turnId => "turn:" ++ turnId ++ ":started"
  | .turnCompleted turnId _ => "turn:" ++ turnId ++ ":completed"
  | .modelAttemptStarted modelAttemptId => "attempt:" ++ modelAttemptId ++ ":started"
  | .modelAttemptCompleted modelAttemptId _ => "attempt:" ++ modelAttemptId ++ ":completed"

/-- What the store answers to an append. -/
inductive StoreAnswer where
  | accepts
  | refuses (code : String)
  deriving DecidableEq

/-- What becomes of persisting one fact. -/
inductive PersistResult where
  /-- There is no journal. -/
  | skipped
  | persisted
  | cancelled
  | storeError (code : String)
  /-- The identity of the fact is no identifier. -/
  | threw
  deriving DecidableEq

/-- `persistFacts` of the journal for one fact, at the moment of the append: an aborted signal stops
it, and a fact the stream already holds is not stored again. -/
def persistFact (journal aborted : Bool) (answer : StoreAnswer) (stream : List TurnLifecycleFact)
    (fact : TurnLifecycleFact) : PersistResult × List TurnLifecycleFact :=
  if journal = false then (.skipped, stream)
  else if aborted then (.cancelled, stream)
  else if isIdentifier (factIdentity fact) = false then (.threw, stream)
  else
    match answer with
    | .refuses code => (.storeError code, stream)
    | .accepts =>
      if factIdentity fact ∈ stream.map factIdentity then (.persisted, stream)
      else (.persisted, stream ++ [fact])

end Falryn.Runtime
