import Emitlane.Outbox.Writer
import Emitlane.Store.Ordered
import Emitlane.Store.Ownership
import Emitlane.Relay.Config
import Emitlane.Relay.Message

/-!
# Relay.Handle — the store calls of `relay.handle`

A handler works on the copy of the event its claim returned, and picks the ordered or the unordered store call by the
ordering key of this copy.
-/

namespace Emitlane.Relay

/-- An error of Publish, or of its context before the call. -/
structure PublishError where
  text : Bytes
  /-- `broker.IsPermanent`. -/
  permanent : Bool
  /-- `errors.Is(err, context.DeadlineExceeded)`. -/
  deadlineExceeded : Bool
  deriving DecidableEq

/-- The copy is of an ordered event. -/
def isOrdered (ev : RelayEvent) : Bool := ev.orderingKey ≠ ""

def beginAttempt (c : Config) (db : Db) (now : Int) (ev : RelayEvent) : Except StoreError (Db × Int) :=
  if isOrdered ev then db.beginOrderedAttempt now ev.id c.instanceID ev.orderingEpoch c.maxAttempts c.window
  else db.beginAttempt now ev.id c.instanceID c.maxAttempts

def markDelivered (c : Config) (db : Db) (now : Int) (ev : RelayEvent) : Except StoreError Db :=
  if isOrdered ev then db.markOrderedDelivered now ev c.instanceID
  else db.markDelivered now ev.id c.instanceID

def markRetry (c : Config) (db : Db) (now : Int) (ev : RelayEvent) (delay : Int) (lastError : Bytes) :
    Except StoreError Db :=
  if isOrdered ev then db.markOrderedRetry now ev c.instanceID delay lastError
  else db.markRetry now ev.id c.instanceID delay lastError

def markDead (c : Config) (db : Db) (now : Int) (ev : RelayEvent) (reason : Bytes) : Except StoreError Db :=
  if isOrdered ev then db.markOrderedDead now ev c.instanceID reason
  else db.markDead now ev.id c.instanceID reason

/-- The three transitions that end a handler. -/
inductive Mark
  | delivered
  | retried
  | killed
  deriving DecidableEq, Repr

/-- `onPublishFailure`: which transition is tried, and with what result; `none` leaves the event inflight. -/
def onPublishFailure (c : Config) (db : Db) (now : Int) (ctxDone : Bool) (ev : RelayEvent) (err : PublishError)
    (delay : Int) : Option (Mark × Except StoreError Db) :=
  if ctxDone && !err.deadlineExceeded then none
  else if err.permanent ∨ c.maxAttempts ≤ ev.attempts then some (.killed, markDead c db now ev err.text)
  else some (.retried, markRetry c db now ev delay err.text)

def budgetExhausted : Bytes := bytes "publish attempt budget exhausted during lease recovery"

/-- The message handle publishes: the trace headers come from the publish span. -/
def publishMessage (ev : RelayEvent) (traceparent tracestate : String) : Message :=
  let msg := toMessage ev
  { msg with headers := setHeader (setHeader msg.headers headerTraceparent traceparent) headerTracestate tracestate }

theorem publishMessage_attempt (ev : RelayEvent) (traceparent tracestate : String) :
    getEntry (publishMessage ev traceparent tracestate).headers headerAttempt = some (toString ev.attempts) := by
  unfold publishMessage
  rw [getEntry_setHeader (by decide), getEntry_setHeader (by decide), toMessage_attempt]

end Emitlane.Relay
