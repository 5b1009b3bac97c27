import Emitlane.Store.Outbox

/-!
# Store.OrderingAdmin — the state of the ordered streams (`ordering_admin.go`)

`orderingStateSelect` joins every stream with the event at its cursor and with the first event behind it, of whatever
status.
-/

namespace Emitlane

/-- The values of the column `state`. -/
inductive OrderingState
  | ready
  | inflight
  | retryWait
  | gap
  | deadBlocked
  deriving DecidableEq, Repr

def OrderingState.text : OrderingState → String
  | ready => "ready"
  | inflight => "inflight"
  | retryWait => "retry_wait"
  | gap => "gap"
  | deadBlocked => "dead_blocked"

/-- `adminapi.OrderingStream`.  The age of a gap is in microseconds. -/
structure OrderingStream where
  destination : String
  orderingKey : String
  partition : Int
  startSequence : Int
  nextSequence : Int
  state : OrderingState
  nextEventID : Option Uuid
  nextEventStatus : Option Status
  nextEventAttempts : Int
  lowestFutureSequence : Option Int
  gapSize : Int
  gapAge : Int
  updatedAt : Int
  deriving DecidableEq

/-- The events of a stream. -/
def Db.streamEvents (db : Db) (st : StreamRow) : List EventRow :=
  db.events.rows.filter fun r => r.destination = st.destination && r.orderingKey = some st.orderingKey

/-- The lateral join `next_event`; the unique index allows one row. -/
def Db.nextEvent (db : Db) (st : StreamRow) : Option EventRow :=
  (db.streamEvents st).find? fun r => r.orderingSequence = some st.nextSequence

/-- The lateral join `future`. -/
def Db.futureEvent (db : Db) (st : StreamRow) : Option EventRow :=
  (((db.streamEvents st).filter fun r => r.orderingSequence.any (st.nextSequence < ·)).insertionSort fun a b =>
    a.orderingSequence.getD 0 ≤ b.orderingSequence.getD 0).head?

/-- The CASE of the column `state`. -/
def orderingState (now : Int) (next future : Option EventRow) : OrderingState :=
  if next.any (·.status = .dead) then .deadBlocked
  else if next.any (·.status = .inflight) then .inflight
  else if next.any (fun r => r.status = .pending ∧ now < r.availableAt) then .retryWait
  else if next.isSome then .ready
  else if future.isSome then .gap
  else .ready

/-- One row of `orderingStateSelect`. -/
def Db.orderingStream (db : Db) (now : Int) (st : StreamRow) : OrderingStream :=
  let next := db.nextEvent st
  let future := db.futureEvent st
  let sequence := future.bind (·.orderingSequence)
  { destination := st.destination
    orderingKey := st.orderingKey
    partition := st.partitionID
    startSequence := st.startSequence
    nextSequence := st.nextSequence
    state := orderingState now next future
    nextEventID := next.map (·.id)
    nextEventStatus := next.map (·.status)
    nextEventAttempts := (next.map (·.attempts)).getD 0
    lowestFutureSequence := sequence
    gapSize := (sequence.map (· - st.nextSequence)).getD 0
    gapAge := if next.isNone then (future.map fun r => max 0 (now - r.createdAt)).getD 0 else 0
    updatedAt := st.updatedAt }

end Emitlane
