import Emitlane.Consumer.Config
import Emitlane.Inbox.System

/-!
# Consumer.Worker — `worker.run` and `worker.process` of `consumer/runtime.go`

The world is the Inbox of `Inbox.System` and Kafka: an append-only log for each partition, and the offset the group has
committed.  A worker has the state of its Kafka client (the position of each assigned partition, the paused ones), its
map of blocked partitions, and its place in the loop.

`workerStep` is one atomic step of a worker: a call of the store, of the client or of the transaction, with the
computation up to the next call.  Every call may fail, and may fail after it took effect (`Reply`).  The world may
change between any two steps, and the partition may be lost at any point.

What the adapter of `broker/kafka/consumer.go` makes of a fetch is part of the step `pollRecords`.
-/

namespace Emitlane.Consumer

open Inbox (Key)

/-! ## Records -/

structure TopicPartition where
  topic : String
  partition : Int
  deriving DecidableEq

structure Header where
  key : String
  value : Bytes
  deriving DecidableEq

/-- A record as the log keeps it. -/
structure Entry where
  timestamp : Option Int
  key : Bytes
  payload : Bytes
  headers : List Header
  deriving DecidableEq

/-- `consumer.SourceRecord`; the adapter's token is the record itself. -/
structure SourceRecord extends Entry where
  source : TopicPartition
  offset : Nat
  deriving DecidableEq

/-- `consumer.Message`. -/
structure Message extends SourceRecord where
  eventID : Uuid
  attempt : Int

/-- The message `process` builds before the identity is resolved. -/
def SourceRecord.message (r : SourceRecord) : Message := { r with eventID := 0, attempt := 0 }

/-! ## The world -/

structure Kafka where
  logs : TopicPartition → List Entry
  /-- The committed offset of the consumer group. -/
  committed : TopicPartition → Nat

def Kafka.record (k : Kafka) (tp : TopicPartition) (o : Nat) : Option SourceRecord :=
  (k.logs tp)[o]?.map fun e => { e with source := tp, offset := o }

/-- What happened at the client and the worker. -/
inductive Event (ω : Type)
  /-- The client handed out a record, and its position is past it. -/
  | handed (w : ω) (tp : TopicPartition) (o : Nat)
  /-- The record was passed to `process`. -/
  | passed (w : ω) (tp : TopicPartition) (o : Nat)
  /-- The handler was started for the pair. -/
  | started (w : ω) (k : Key) (attempt : Int)
  /-- The position was moved back to the record. -/
  | rewound (w : ω) (tp : TopicPartition) (o : Nat)
  /-- The offset `o` was committed. -/
  | committed (w : ω) (tp : TopicPartition) (o : Nat)
  deriving DecidableEq

/-- The stores all workers share. -/
structure Shared where
  inbox : Inbox.State
  kafka : Kafka

structure World (ω : Type) extends Shared where
  /-- Newest first. -/
  events : List (Event ω)

/-- The workers of one consumer: each with the configuration of its runtime, all with one name and one resolver. -/
structure Deployment (ω : Type) where
  consumer : String
  member : ω → Member
  resolveIdentity : Message → Except String Uuid
  one : ∀ w, (member w).config.consumer = consumer

/-! ## The worker -/

/-- Why a partition is blocked. -/
inductive Reason
  | retry
  | dead
  | protocol
  | database
  | offsetCommit
  deriving DecidableEq, Repr

structure BlockedPartition where
  record : SourceRecord
  eventID : Uuid
  /-- The zero time is `none`. -/
  resumeAt : Option Int
  permanent : Bool
  reason : Reason

/-- What renewLease returns when a renewal fails. -/
inductive RenewError
  | leaseLost
  | database (deadlineExceeded : Bool)

/-- The error transitionFailure is called with. -/
inductive Failure
  /-- `pool.Begin` failed. -/
  | begin (deadlineExceeded : Bool)
  /-- A renewal failed, not because the lease is lost. -/
  | renew (deadlineExceeded : Bool)
  /-- The handler returned an error. -/
  | handler (permanent deadlineExceeded : Bool)
  /-- The handler returned nil under an ended context. -/
  | context (deadlineExceeded : Bool)
  deriving DecidableEq

/-- `inbox.IsPermanent`. -/
def Failure.isPermanent : Failure → Bool
  | .handler permanent _ => permanent
  | _ => false

def Failure.deadlineExceeded : Failure → Bool
  | .begin d | .renew d | .handler _ d | .context d => d

def safeErrorSummary (f : Failure) : String :=
  if f.deadlineExceeded then "handler timeout"
  else if f.isPermanent then "permanent handler failure"
  else "retryable handler failure"

/-- Where `run` and `process` are. -/
inductive Pc
  /-- At the top of the loop. -/
  | top
  /-- In Source.Poll. -/
  | polling
  /-- In `process`, before Claim. -/
  | claiming (record : SourceRecord) (eventID : Uuid)
  /-- The pair is claimed; before `pool.Begin`. -/
  | beginning (record : SourceRecord) (event : Inbox.Event)
  /-- The handler runs in the transaction `t`. -/
  | handling (record : SourceRecord) (event : Inbox.Event) (t : Nat) (renewed : Option RenewError)
  /-- The handler has returned; before MarkProcessed. -/
  | marking (record : SourceRecord) (event : Inbox.Event) (t : Nat)
  /-- Before `tx.Commit`. -/
  | committing (record : SourceRecord) (event : Inbox.Event) (t : Nat)
  /-- Before Source.Commit. -/
  | offset (record : SourceRecord) (eventID : Uuid)
  /-- In transitionFailure. -/
  | failing (record : SourceRecord) (event : Inbox.Event) (failure : Failure)
  /-- `process` has returned false. -/
  | unresolved (blocked : BlockedPartition)

structure Worker where
  pc : Pc
  /-- The next offset of each assigned partition. -/
  position : TopicPartition → Option Nat
  paused : TopicPartition → Bool
  blocked : TopicPartition → Option BlockedPartition
  /-- The adapter has reached the brokers once. -/
  connected : Bool

def newWorker : Worker :=
  { pc := .top, position := fun _ => none, paused := fun _ => false, blocked := fun _ => none, connected := false }

/-- How a call ends: it returns nil, it took effect and returns an error, or it fails without effect. -/
inductive Reply
  | ok
  | lost
  | failed
  deriving DecidableEq

/-- What PollRecords returns: at most one record, and the errors of other partitions. -/
structure Fetch where
  record : Option TopicPartition
  errors : List String

inductive WorkerAction
  | assigned (tp : TopicPartition)
  /-- Revoked and Lost. -/
  | released (tps : List TopicPartition)
  | resumeDue (now : Int) (getFails : TopicPartition → Bool)
  /-- The context of the poll is over, or Ping returns its result. -/
  | ping (ok : Bool)
  | pollRecords (fetch : Fetch) (ctxDone : Bool)
  | claim (token : Uuid) (reply : Reply) (now : Int)
  /-- `pool.Begin` returns nil, or an error. -/
  | beginTx (err : Option Bool)
  | renew (reply : Reply) (deadlineExceeded : Bool)
  /-- The handler returns; `err` is its error, permanent or not and a timeout or not, and `ctxErr` that of its
  context. -/
  | handlerReturned (err : Option (Bool × Bool)) (ctxErr : Option Bool) (now : Int)
  | markProcessed (fails : Bool)
  | commitTx (reply : Reply) (now : Int)
  | commitOffset (reply : Reply) (now : Int)
  | transitionFailure (delay : Int) (reply : Reply) (now : Int)
  | rewind
  | crash

section Step

variable {ω : Type} (d : Deployment ω) (w : ω)

def Deployment.config : Config := (d.member w).config

/-- The pair of an event. -/
def Deployment.key (eventID : Uuid) : Key := (d.consumer, eventID)

def Worker.goto (x : Worker) (pc : Pc) : Worker := { x with pc := pc }

/-- `process` returns false. -/
def Worker.fail (x : Worker) (record : SourceRecord) (eventID : Uuid) (resumeAt : Option Int) (permanent : Bool)
    (reason : Reason) : Worker := x.goto (.unresolved ⟨record, eventID, resumeAt, permanent, reason⟩)

def World.withInbox (v : World ω) (i : Inbox.State) : World ω := { v with inbox := i }

def World.emit (v : World ω) (es : List (Event ω)) : World ω := { v with events := es ++ v.events }

/-- `time.Now().Add(d)`. -/
def after (now d : Int) : Option Int := some (addDuration now d)

/-- The blocked partition is due. -/
def BlockedPartition.due (b : BlockedPartition) (db : Inbox.Db) (now : Int) (getFails : Bool) : Bool :=
  if b.permanent then
    b.eventID ≠ 0 && !getFails && (db.row (d.key b.eventID)).any fun r => r.status ≠ .dead
  else b.resumeAt.all (· ≤ now)

def resumeDue (v : World ω) (x : Worker) (now : Int) (getFails : TopicPartition → Bool) : Worker :=
  let due := fun tp => (x.blocked tp).any fun b => b.due d v.inbox.db now (getFails tp)
  { x with
    paused := fun tp => x.paused tp && !due tp
    blocked := fun tp => if due tp then none else x.blocked tp }

def releasePartitions (x : Worker) (tps : List TopicPartition) : Worker :=
  { x with
    position := fun tp => if tp ∈ tps then none else x.position tp
    paused := fun tp => x.paused tp && !decide (tp ∈ tps)
    blocked := fun tp => if tp ∈ tps then none else x.blocked tp }

/-- The record reaches `process`: its identity is resolved. -/
def startProcess (x : Worker) (record : SourceRecord) : Worker :=
  match d.resolveIdentity record.message with
  | .error _ => x.fail record 0 none true .protocol
  | .ok eventID => x.goto (.claiming record eventID)

/-- PollRecords and what `consumerSource.Poll` makes of it: the first error wins over the record. -/
def pollRecords (v : World ω) (x : Worker) (fetch : Fetch) (ctxDone : Bool) : Option (World ω × Worker) :=
  match fetch.record with
  | none => some (v, if fetch.errors.isEmpty && !ctxDone then x else x.goto .top)
  | some tp =>
    if x.paused tp then none else
    match x.position tp with
    | none => none
    | some o =>
    match v.kafka.record tp o with
    | none => none
    | some record =>
      let x := { x with position := Function.update x.position tp (some (o + 1)) }
      if fetch.errors.isEmpty then some (v.emit [.passed w tp o, .handed w tp o], startProcess d x record)
      else some (v.emit [.handed w tp o], x.goto .top)

def claimRequest (record : SourceRecord) (eventID : Uuid) : Inbox.ClaimRequest where
  consumer := (d.config w).consumer
  eventID := eventID
  source := ⟨record.source.topic, record.source.partition, record.offset, record.timestamp⟩
  leaseOwner := (d.member w).workerID
  leaseDuration := (d.config w).leaseDuration

/-- The switch on the disposition of a claim. -/
def dispatch (x : Worker) (record : SourceRecord) (eventID : Uuid) (result : Inbox.ClaimResult) : Worker :=
  match result.disposition with
  | .alreadyProcessed => x.goto (.offset record eventID)
  | .claimDead => x.fail record eventID none true .dead
  | .claimWaiting =>
    let event := result.event
    let resumeAt := match event.leaseUntil with
      | some leaseUntil => if event.availableAt < leaseUntil then leaseUntil else event.availableAt
      | none => event.availableAt
    x.fail record eventID (some resumeAt) false .retry
  | .claimed => x.goto (.beginning record result.event)

def claim (v : World ω) (x : Worker) (record : SourceRecord) (eventID token : Uuid) (reply : Reply) (now : Int) :
    Option (World ω × Worker) :=
  let failed := x.fail record eventID (after now (d.config w).maintenancePoll) false .database
  let req := claimRequest d w record eventID
  if reply = .failed then some (v, failed) else
  match Inbox.step v.inbox (.claim req token) with
  | none => none
  | some inbox =>
    some (v.withInbox inbox,
      match reply, v.inbox.db.claim v.inbox.clock req token with
      | .ok, .ok (_, result) => dispatch x record eventID result
      | _, _ => failed)

def beginTx (v : World ω) (x : Worker) (record : SourceRecord) (event : Inbox.Event) (err : Option Bool) :
    Option (World ω × Worker) :=
  match err with
  | some deadlineExceeded => some (v, x.goto (.failing record event (.begin deadlineExceeded)))
  | none =>
    let k := d.key event.eventID
    (Inbox.step v.inbox (.begin (some (k, event.leaseToken)))).map fun inbox =>
      ((v.withInbox inbox).emit [.started w k event.attempts], x.goto (.handling record event v.inbox.next none))

def renew (v : World ω) (x : Worker) (record : SourceRecord) (event : Inbox.Event) (t : Nat) (reply : Reply)
    (deadlineExceeded : Bool) : Option (World ω × Worker) :=
  let failed := x.goto (.handling record event t (some (.database deadlineExceeded)))
  let k := d.key event.eventID
  let lease := (d.config w).leaseDuration
  if reply = .failed then some (v, failed) else
  match Inbox.step v.inbox (.renew k event.leaseToken lease) with
  | none => none
  | some inbox =>
    some (v.withInbox inbox,
      match reply, v.inbox.db.renew v.inbox.clock k event.leaseToken lease with
      | .ok, .ok _ => x
      | .ok, .error e =>
        if e.sentinel = some .errLeaseLost then x.goto (.handling record event t (some .leaseLost)) else failed
      | _, _ => failed)

/-- `tx.Rollback`. -/
def World.rollback (v : World ω) (t : Nat) : World ω := v.withInbox (v.inbox.setTx t none)

def handlerReturned (v : World ω) (x : Worker) (record : SourceRecord) (event : Inbox.Event) (t : Nat)
    (renewed : Option RenewError) (err : Option (Bool × Bool)) (ctxErr : Option Bool) (now : Int) :
    World ω × Worker :=
  match renewed, err, ctxErr with
  | some .leaseLost, _, _ =>
    (v.rollback t, x.fail record event.eventID (after now (d.config w).leaseDuration) false .database)
  | some (.database deadline), _, _ => (v.rollback t, x.goto (.failing record event (.renew deadline)))
  | none, some (permanent, deadline), _ => (v.rollback t, x.goto (.failing record event (.handler permanent deadline)))
  | none, none, some deadline => (v.rollback t, x.goto (.failing record event (.context deadline)))
  | none, none, none => (v, x.goto (.marking record event t))

def markProcessed (v : World ω) (x : Worker) (record : SourceRecord) (event : Inbox.Event) (t : Nat) (fails : Bool) :
    Option (World ω × Worker) :=
  let failed := (v.rollback t, x.fail record event.eventID event.leaseUntil false .database)
  if fails then some failed else
  match v.inbox.txs t, Inbox.step v.inbox (.markProcessed t) with
  | some tx, some inbox =>
    match Inbox.markProcessed tx.startedAt event.leaseToken (tx.view v.inbox.db (d.key event.eventID)) with
    | .ok _ => some (v.withInbox inbox, x.goto (.committing record event t))
    | .error _ => some failed
  | _, _ => none

def commitTx (v : World ω) (x : Worker) (record : SourceRecord) (event : Inbox.Event) (t : Nat) (reply : Reply)
    (now : Int) : Option (World ω × Worker) :=
  let failed := x.fail record event.eventID (after now (d.config w).maintenancePoll) false .database
  if reply = .failed then some (v.rollback t, failed) else
  (Inbox.step v.inbox (.commit t)).map fun inbox =>
    (v.withInbox inbox, if reply = .ok then x.goto (.offset record event.eventID) else failed)

def commitOffset (v : World ω) (x : Worker) (record : SourceRecord) (eventID : Uuid) (reply : Reply) (now : Int) :
    World ω × Worker :=
  let failed := x.fail record eventID (after now (d.config w).maintenancePoll) false .offsetCommit
  if reply = .failed then (v, failed) else
  let committed := Function.update v.kafka.committed record.source (record.offset + 1)
  (({ v with kafka := { v.kafka with committed := committed } }).emit [.committed w record.source (record.offset + 1)],
    if reply = .ok then x.goto .top else failed)

/-- The store call of transitionFailure, and where it leaves the worker when it succeeds. -/
def transition (v : World ω) (event : Inbox.Event) (failure : Failure) (delay : Int) :
    Inbox.Action × Except Inbox.Error Inbox.Db × Bool :=
  let k := d.key event.eventID
  let lastError := bytes (safeErrorSummary failure)
  let i := v.inbox
  if failure.isPermanent ∨ (d.config w).maxAttempts ≤ event.attempts then
    (.markDead k event.leaseToken lastError, i.db.markDead i.clock k event.leaseToken lastError, true)
  else
    (.markRetry k event.leaseToken delay lastError, i.db.markRetry i.clock k event.leaseToken delay lastError, false)

def transitionFailure (v : World ω) (x : Worker) (record : SourceRecord) (event : Inbox.Event) (failure : Failure)
    (delay : Int) (reply : Reply) (now : Int) : Option (World ω × Worker) :=
  let failed := x.fail record event.eventID (after now (d.config w).leaseDuration) false .database
  if reply = .failed then some (v, failed) else
  let (action, result, dead) := transition d w v event failure delay
  (Inbox.step v.inbox action).map fun inbox =>
    (v.withInbox inbox,
      match reply, result with
      | .ok, .ok _ =>
        if dead then x.fail record event.eventID none true .dead
        else x.fail record event.eventID (after now delay) false .retry
      | _, _ => failed)

/-- The end of the loop for an unresolved record: Rewind, Pause, block. -/
def rewind (v : World ω) (x : Worker) (b : BlockedPartition) : World ω × Worker :=
  let tp := b.record.source
  (v.emit [.rewound w tp b.record.offset],
    { x with
      pc := .top
      position := Function.update x.position tp ((x.position tp).map fun _ => b.record.offset)
      paused := Function.update x.paused tp true
      blocked := Function.update x.blocked tp (some b) })

def workerStep (v : World ω) (x : Worker) (a : WorkerAction) : Option (World ω × Worker) :=
  match a, x.pc with
  | .assigned tp, _ =>
    if (x.position tp).isSome then none
    else some (v, { x with position := Function.update x.position tp (some (v.kafka.committed tp)) })
  | .released tps, _ => some (v, releasePartitions x tps)
  | .crash, _ => some (v, newWorker)
  | .resumeDue now getFails, .top => some (v, (resumeDue d v x now getFails).goto .polling)
  | .ping ok, .polling =>
    if x.connected then none else some (v, if ok then { x with connected := true } else x.goto .top)
  | .pollRecords fetch ctxDone, .polling => if x.connected then pollRecords d w v x fetch ctxDone else none
  | .claim token reply now, .claiming record eventID => claim d w v x record eventID token reply now
  | .beginTx err, .beginning record event => beginTx d w v x record event err
  | .renew reply deadline, .handling record event t none => renew d w v x record event t reply deadline
  | .handlerReturned err ctxErr now, .handling record event t renewed =>
    some (handlerReturned d w v x record event t renewed err ctxErr now)
  | .markProcessed fails, .marking record event t => markProcessed d v x record event t fails
  | .commitTx reply now, .committing record event t => commitTx d w v x record event t reply now
  | .commitOffset reply now, .offset record eventID => some (commitOffset d w v x record eventID reply now)
  | .transitionFailure delay reply now, .failing record event failure =>
    transitionFailure d w v x record event failure delay reply now
  | .rewind, .unresolved b => some (rewind w v x b)
  | _, _ => none

end Step

end Emitlane.Consumer
