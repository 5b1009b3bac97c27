import Mathlib.Logic.Function.Basic
import Emitlane.Lib.Runs
import Emitlane.Relay.Handle

/-!
# System.Model — producers, relays and operators on one database

The state is the database, the database clock, and one handler for each claimed event that a relay still works on.
Every store call is one atomic step at the current instant; arbitrary steps of others may come between two steps of a
handler, and a handler may vanish at any point (`crash`: the process died, a store call failed, or a failure hook
returned).  Claims are numbered over the whole run, and the number of its claim names a handler.

`hist` records what happened, newest first.  No step reads it except `effect`, by which a publish takes effect on the
broker: it happens at most once for a publish, and within the publish window of its attempt.
-/

namespace Emitlane

open Relay

/-- Where `relay.handle` is. -/
inductive Pc
  /-- The claim is committed. -/
  | start
  /-- The attempt is recorded. -/
  | began
  /-- Publish is called. -/
  | publishing
  /-- Publish returned nil. -/
  | acked
  /-- Publish, or its context before the call, returned an error. -/
  | failed (err : PublishError)
  deriving DecidableEq

structure Handler (ι : Type) where
  relay : ι
  event : RelayEvent
  pc : Pc

/-- What happened.  `row` is the event's row as the statement found it. -/
inductive Obs (ι : Type)
  | enqueued (row : EventRow)
  | claimed (k : Nat) (i : ι) (ev : RelayEvent)
  | began (k : Nat) (i : ι) (ev : RelayEvent) (row : EventRow) (instant : Int)
  | published (k : Nat) (msg : Message)
  | acked (k : Nat) (id : Uuid)
  | marked (k : Nat) (i : ι) (m : Mark) (ordered : Bool) (row : EventRow)
  | revived (row : EventRow)
  | deleted (row : EventRow)
  | effect (k : Nat) (instant : Int)

structure State (ι : Type) where
  clock : Int
  db : Db
  handlers : Nat → Option (Handler ι)
  /-- The number of the next claim. -/
  next : Nat
  hist : List (Obs ι)

inductive Action (ι : Type)
  | tick (d : Nat)
  /-- A producer transaction that began at `started`. -/
  | produce (started : Int) (calls : List Outbox.Call) (commit : Bool)
  | claim (i : ι) (limit : Int) (locked : Uuid → Bool)
  | claimOrdered (i : ι) (limit : Int) (locked : Uuid → Bool)
  | begin (k : Nat)
  | interrupt (k : Nat) (err : PublishError)
  | publish (k : Nat) (traceparent tracestate : String)
  | ack (k : Nat)
  | fail (k : Nat) (err : PublishError)
  | settle (k : Nat) (ctxDone : Bool) (delay : Int)
  | crash (k : Nat)
  | effect (k : Nat)
  | retryDead (id : Uuid)
  | retryDeadAudited (id : Uuid) (m : Mutation) (auditID : Uuid)
  | replayEvent (sourceID : Uuid) (m : Mutation) (eventID batchID auditID : Uuid)
  | replayBatch (filter : EventFilter) (m : Mutation) (limit : Int) (batchID auditID : Uuid) (newID : Nat → Uuid)
  | cleanup (retention limit : Int) (locked : Uuid → Bool)
  | setPaused (paused : Bool) (m : Mutation) (auditID : Uuid)
  | reconcile (i : ι)
  | release (i : ι)
  | register (presence : RelayPresence)
  | heartbeat (i : ι)
  | markStopped (i : ι)

/-- The migrated empty schema, and no relay at work. -/
def State.init (ι : Type) (clock : Int) : State ι :=
  { clock := clock, db := Db.empty, handlers := fun _ => none, next := 0, hist := [] }

/-- The rows of `db` whose id is not in `other`. -/
def Db.rowsNotIn (db other : Db) : List EventRow := db.events.rows.filter fun r => (other.row r.id).isNone

section Step

variable {ι : Type} (cfg : ι → Config)

def State.setHandler (s : State ι) (k : Nat) (h : Option (Handler ι)) : State ι :=
  { s with handlers := Function.update s.handlers k h }

/-- New rows, oldest first. -/
def State.insert (s : State ι) (db : Db) (rows : List EventRow) : State ι :=
  { s with db := db, hist := rows.reverse.map .enqueued ++ s.hist }

/-- `dispatch`: one handler for each claimed event. -/
def State.dispatch (s : State ι) (i : ι) (db : Db) (evs : List RelayEvent) : State ι :=
  { s with
    db := db
    handlers := fun k => if k < s.next then s.handlers k else evs[k - s.next]?.map fun ev => ⟨i, ev, .start⟩
    next := s.next + evs.length
    hist := (evs.zipIdx s.next).reverse.map (fun x => .claimed x.2 i x.1) ++ s.hist }

@[simp] theorem State.insert_db (s : State ι) (db : Db) (rows : List EventRow) : (s.insert db rows).db = db := rfl

@[simp] theorem State.dispatch_db (s : State ι) (i : ι) (db : Db) (evs : List RelayEvent) :
    (s.dispatch i db evs).db = db := rfl

/-- The end of a handler: its last store call, if it succeeded, changes the row it found. -/
def State.finish (s : State ι) (k : Nat) (h : Handler ι) (m : Mark) (result : Except StoreError Db) : State ι :=
  match result with
  | .error _ => s.setHandler k none
  | .ok db =>
    { s.setHandler k none with
      db := db
      hist := (s.db.row h.event.id).toList.map (.marked k h.relay m (isOrdered h.event)) ++ s.hist }

/-- The first part of handle: give up on an exhausted budget, or record the attempt. -/
def State.begin (s : State ι) (k : Nat) (h : Handler ι) : State ι :=
  let c := cfg h.relay
  if c.maxAttempts ≤ h.event.attempts then
    s.finish k h .killed (markDead c s.db s.clock h.event budgetExhausted)
  else
    match beginAttempt c s.db s.clock h.event with
    | .error _ => s.setHandler k none
    | .ok (db, n) =>
      let ev := { h.event with attempts := n }
      { s.setHandler k (some { h with event := ev, pc := .began }) with
        db := db
        hist := (s.db.row ev.id).toList.map (fun r => .began k h.relay ev r s.clock) ++ s.hist }

/-- The last part of handle. -/
def State.settle (s : State ι) (k : Nat) (h : Handler ι) (ctxDone : Bool) (delay : Int) : Option (State ι) :=
  match h.pc with
  | .acked => some (s.finish k h .delivered (markDelivered (cfg h.relay) s.db s.clock h.event))
  | .failed err =>
    match onPublishFailure (cfg h.relay) s.db s.clock ctxDone h.event err delay with
    | none => some (s.setHandler k none)
    | some (m, result) => some (s.finish k h m result)
  | _ => none

/-- The arguments the relay's ordering loop passes to ReconcileOrderingPartitions. -/
def Relay.Config.reconcileArgs (c : Config) : ReconcileArgs where
  owner := c.instanceID
  leaseDuration := c.orderingLeaseDuration
  publishTimeout := c.publishTimeout
  presenceStaleAfter := c.presenceStaleAfter
  safetyMargin := c.orderingSafetyMargin

/-- The end of the publish window of an attempt: `PublishTimeout + OrderingSafetyMargin` after its begin. -/
def deadline (i : ι) (instant : Int) : Int :=
  addDuration instant ((cfg i).publishTimeout + (cfg i).orderingSafetyMargin)

/-- Publish number `k` is issued, has had no effect yet, and its window is open at `now`. -/
def canTakeEffect (hist : List (Obs ι)) (k : Nat) (now : Int) : Bool :=
  (hist.any fun | .published k' _ => k' = k | _ => false) &&
    !(hist.any fun | .effect k' _ => k' = k | _ => false) &&
    hist.any fun | .began k' i _ _ t => k' = k && t ≤ now && now ≤ deadline cfg i t | _ => false

/-- The new database of an operator or ownership call. -/
def State.withDb (s : State ι) (result : Except StoreError Db) : Option (State ι) :=
  match result with
  | .error _ => none
  | .ok db => some { s with db := db }

/-- What a claim returns: the relay, the new database and the claimed events. -/
def claimResult (s : State ι) : Action ι → Option (ι × Db × List RelayEvent)
  | .claim i limit locked =>
    match s.db.claim s.clock locked (cfg i).instanceID limit (cfg i).leaseDuration with
    | .error _ => none
    | .ok (db, evs) => some (i, db, evs)
  | .claimOrdered i limit locked =>
    match s.db.claimOrdered s.clock locked (cfg i).instanceID limit (cfg i).leaseDuration (cfg i).window with
    | .error _ => none
    | .ok (db, evs) => some (i, db, evs)
  | _ => none

def step (s : State ι) : Action ι → Option (State ι)
  | .tick d => some { s with clock := s.clock + d }
  | .produce started calls commit =>
    if s.clock < started then none
    else if commit then (Outbox.enqueueAll started s.db calls).map fun x => s.insert x.1 x.2
    else some s
  | .claim i limit locked =>
    (claimResult cfg s (.claim i limit locked)).map fun x => s.dispatch x.1 x.2.1 x.2.2
  | .claimOrdered i limit locked =>
    (claimResult cfg s (.claimOrdered i limit locked)).map fun x => s.dispatch x.1 x.2.1 x.2.2
  | .begin k =>
    match s.handlers k with
    | some h => if h.pc = .start then some (s.begin cfg k h) else none
    | none => none
  | .interrupt k err =>
    match s.handlers k with
    | some h => if h.pc = .began then some (s.setHandler k (some { h with pc := .failed err })) else none
    | none => none
  | .publish k traceparent tracestate =>
    match s.handlers k with
    | some h =>
      if h.pc = .began then
        some { s.setHandler k (some { h with pc := .publishing }) with
          hist := .published k (publishMessage h.event traceparent tracestate) :: s.hist }
      else none
    | none => none
  | .ack k =>
    match s.handlers k with
    | some h =>
      if h.pc = .publishing then
        some { s.setHandler k (some { h with pc := .acked }) with hist := .acked k h.event.id :: s.hist }
      else none
    | none => none
  | .fail k err =>
    match s.handlers k with
    | some h => if h.pc = .publishing then some (s.setHandler k (some { h with pc := .failed err })) else none
    | none => none
  | .settle k ctxDone delay =>
    match s.handlers k with
    | some h => s.settle cfg k h ctxDone delay
    | none => none
  | .crash k => some (s.setHandler k none)
  | .effect k =>
    if canTakeEffect cfg s.hist k s.clock then some { s with hist := .effect k s.clock :: s.hist } else none
  | .retryDead id =>
    (s.withDb (s.db.retryDead s.clock id)).map fun s' =>
      { s' with hist := (s.db.row id).toList.map .revived ++ s.hist }
  | .retryDeadAudited id m auditID =>
    (s.withDb (s.db.retryDeadAudited s.clock id m auditID)).map fun s' =>
      { s' with hist := (s.db.row id).toList.map .revived ++ s.hist }
  | .replayEvent sourceID m eventID batchID auditID =>
    match s.db.replayEvent s.clock sourceID m eventID batchID auditID with
    | .error _ => none
    | .ok (db, _) => some (s.insert db (db.rowsNotIn s.db))
  | .replayBatch filter m limit batchID auditID newID =>
    match s.db.replayBatch s.clock filter m limit batchID auditID newID with
    | .error _ => none
    | .ok (db, _) => some (s.insert db (db.rowsNotIn s.db))
  | .cleanup retention limit locked =>
    match s.db.cleanupDelivered s.clock locked retention limit with
    | .error _ => none
    | .ok (db, _) =>
      some { s with db := db, hist := (s.db.rowsNotIn db).map .deleted ++ s.hist }
  | .setPaused paused m auditID => s.withDb (s.db.setPaused s.clock paused m auditID)
  | .reconcile i => s.withDb ((s.db.reconcileOrderingPartitions s.clock (cfg i).reconcileArgs).map (·.1))
  | .release i => s.withDb (s.db.releaseOrderingPartitions s.clock (cfg i).instanceID (cfg i).orderingSafetyMargin)
  | .register presence => s.withDb (s.db.registerRelay s.clock presence)
  | .heartbeat i => s.withDb (s.db.heartbeatRelay s.clock (cfg i).instanceID)
  | .markStopped i => s.withDb (s.db.markRelayStopped s.clock (cfg i).instanceID)

/-- The states the system reaches from the migrated empty schema. -/
def Reachable (s : State ι) : Prop := ∃ clock, Runs.Reach (step cfg) Runs.Free (State.init ι clock) s

/-- A computed run from the empty schema at instant 0. -/
theorem exists_reachable (as : List (Action ι)) (p : State ι → Bool)
    (h : (Runs.exec (step cfg) (State.init ι 0) as).any p = true) : ∃ s, Reachable cfg s ∧ p s = true := by
  obtain ⟨s, hrun, hp⟩ := Runs.exists_of_exec _ _ as p h
  exact ⟨s, ⟨0, hrun⟩, hp⟩

end Step

end Emitlane
