import Mathlib.Data.List.Pairwise
import Emitlane.Lib.Table
import Emitlane.Ordering
import Emitlane.Text

/-!
# Schema — the tables of migrations 1 to 3

Each row type has the columns the modelled statements read or write, and `check` is its CHECK constraints together
with the ranges of its integer columns.  The tables carry these, the primary keys and the unique index on
`(destination, ordering_key, ordering_sequence)`.

The columns of `outbox_events` come in two groups: the `Envelope`, which no statement changes after the insert, and
the `Progress`, which is all the delivery statements write.
-/

namespace Emitlane

open Rel

/-- A TEXT column holds no NUL. -/
def textOk (s : String) : Bool := !s.toList.contains '\x00'

/-- The Go strings PostgreSQL takes as arguments of type text: UTF-8, without a NUL. -/
def argOk (s : Bytes) : Bool := Utf8.valid s && !s.contains 0

theorem argOk_bytes (s : String) : argOk (bytes s) = textOk s := by
  have hvalid : Utf8.valid (bytes s) = true := Utf8.valid_encode s.toList
  have hzero : 0 ∈ bytes s ↔ '\x00' ∈ s.toList := Utf8.zero_mem_encode
  simp only [argOk, textOk, hvalid, Bool.true_and, List.contains_eq_mem, hzero]

/-! ## outbox_events -/

inductive Status
  | pending
  | inflight
  | delivered
  | dead
  deriving DecidableEq, Repr

/-- The columns fixed at insert. -/
structure Envelope where
  id : Uuid
  destination : String
  eventType : String
  messageKey : Option Bytes
  payload : Bytes
  contentType : String
  headers : List (String × String)
  schemaVersion : Int
  correlationID : Option String
  causationID : Option String
  traceparent : Option String
  tracestate : Option String
  createdAt : Int
  replayedFromEventID : Option Uuid
  replayBatchID : Option Uuid
  orderingKey : Option String
  orderingSequence : Option Int
  orderingPartition : Option Int
  deriving DecidableEq

/-- The columns the delivery statements write. -/
structure Progress where
  status : Status
  attempts : Int
  availableAt : Int
  leaseOwner : Option String
  leaseUntil : Option Int
  lastError : Option Bytes
  deliveredAt : Option Int
  deriving DecidableEq

structure EventRow extends Envelope, Progress
  deriving DecidableEq

/-- `outbox_lease_state_check`. -/
def EventRow.leaseStateCheck (r : EventRow) : Bool :=
  (r.status = .inflight && r.leaseOwner.isSome && r.leaseUntil.isSome) ||
    (r.status ≠ .inflight && r.leaseOwner.isNone && r.leaseUntil.isNone)

/-- `outbox_ordering_state_check`, with the range of the BIGINT column. -/
def EventRow.orderingStateCheck (r : EventRow) : Bool :=
  match r.orderingKey, r.orderingSequence, r.orderingPartition with
  | none, none, none => true
  | some k, some n, some p => btrim k ≠ "" && 0 < n && n ≤ maxInt64 && 0 ≤ p && p ≤ 63
  | _, _, _ => false

/-- The TEXT columns, and the names and values of the headers. -/
def EventRow.texts (r : EventRow) : List String :=
  [r.destination, r.eventType, r.contentType] ++
    [r.correlationID, r.causationID, r.traceparent, r.tracestate, r.orderingKey, r.leaseOwner].reduceOption ++
    r.headers.map (·.1) ++ r.headers.map (·.2)

def EventRow.check (r : EventRow) : Bool :=
  r.texts.all textOk && btrim r.destination ≠ "" && btrim r.eventType ≠ "" && btrim r.contentType ≠ "" &&
    0 < r.schemaVersion && r.schemaVersion ≤ maxInt32 && 0 ≤ r.attempts && r.attempts ≤ maxInt32 &&
    r.leaseStateCheck && decide (r.status = .delivered) == r.deliveredAt.isSome && r.orderingStateCheck

/-- The rows `outbox_ordering_sequence_unique_idx` does not allow together. -/
def EventRow.sameSequence (a b : EventRow) : Bool :=
  a.orderingKey.isSome && a.destination = b.destination && a.orderingKey = b.orderingKey &&
    a.orderingSequence = b.orderingSequence

def eventsSchema : Schema EventRow where
  Ok rows := (rows.map (·.id)).Nodup ∧ (∀ r ∈ rows, r.check = true) ∧
    rows.Pairwise (fun a b => a.sameSequence b = false)
  dec _ := inferInstance

/-- An unordered event of the examples. -/
def exampleEventRow (id : Uuid) : EventRow where
  id := id
  destination := "orders"
  eventType := "created"
  messageKey := none
  payload := []
  contentType := "application/json"
  headers := []
  schemaVersion := 1
  correlationID := none
  causationID := none
  traceparent := none
  tracestate := none
  createdAt := 0
  replayedFromEventID := none
  replayBatchID := none
  orderingKey := none
  orderingSequence := none
  orderingPartition := none
  status := .pending
  attempts := 0
  availableAt := 0
  leaseOwner := none
  leaseUntil := none
  lastError := none
  deliveredAt := none

/-! ## ordering_streams -/

structure StreamRow where
  destination : String
  orderingKey : String
  partitionID : Int
  startSequence : Int
  nextSequence : Int
  createdAt : Int
  updatedAt : Int
  deriving DecidableEq

def StreamRow.check (r : StreamRow) : Bool :=
  textOk r.destination && textOk r.orderingKey && btrim r.destination ≠ "" && btrim r.orderingKey ≠ "" &&
    0 ≤ r.partitionID && r.partitionID ≤ 63 &&
    0 < r.startSequence && r.startSequence ≤ r.nextSequence && r.nextSequence ≤ maxInt64

/-- The primary key. -/
def StreamRow.key (r : StreamRow) : String × String := (r.destination, r.orderingKey)

def streamsSchema : Schema StreamRow where
  Ok rows := (rows.map StreamRow.key).Nodup ∧ ∀ r ∈ rows, r.check = true
  dec _ := inferInstance

/-! ## ordering_partitions -/

structure PartitionRow where
  id : Int
  leaseOwner : Option String
  leaseUntil : Option Int
  epoch : Int
  handoffNotBefore : Option Int
  publishTimeoutMS : Option Int
  updatedAt : Int
  deriving DecidableEq

/-- `ordering_partition_lease_check`. -/
def PartitionRow.leaseCheck (r : PartitionRow) : Bool :=
  match r.leaseOwner, r.leaseUntil with
  | none, none => true
  | some o, some _ => btrim o ≠ ""
  | _, _ => false

def PartitionRow.check (r : PartitionRow) : Bool :=
  0 ≤ r.id && r.id ≤ 63 && 0 ≤ r.epoch && r.epoch ≤ maxInt64 && r.leaseOwner.all textOk &&
    r.publishTimeoutMS.all (fun ms => 0 < ms && ms ≤ maxInt32) && r.leaseCheck

def partitionsSchema : Schema PartitionRow where
  Ok rows := (rows.map (·.id)).Nodup ∧ ∀ r ∈ rows, r.check = true
  dec _ := inferInstance

/-! ## relay_instances, admin_audit_log -/

structure RelayRow where
  instanceID : String
  hostname : String
  version : String
  startedAt : Int
  lastHeartbeatAt : Int
  stoppedAt : Option Int
  orderingCapable : Bool
  deriving DecidableEq

def RelayRow.check (r : RelayRow) : Bool :=
  textOk r.instanceID && textOk r.hostname && textOk r.version && btrim r.instanceID ≠ "" &&
    btrim r.hostname ≠ "" && btrim r.version ≠ ""

def relaysSchema : Schema RelayRow where
  Ok rows := (rows.map (·.instanceID)).Nodup ∧ ∀ r ∈ rows, r.check = true
  dec _ := inferInstance

structure AuditRow where
  id : Uuid
  action : String
  actor : String
  reason : Option String
  requestID : Option String
  targetEventID : Option Uuid
  replayBatchID : Option Uuid
  createdAt : Int
  deriving DecidableEq

def AuditRow.check (r : AuditRow) : Bool :=
  textOk r.actor && r.reason.all textOk && r.requestID.all textOk && btrim r.action ≠ "" && btrim r.actor ≠ ""

def auditSchema : Schema AuditRow where
  Ok rows := (rows.map (·.id)).Nodup ∧ ∀ r ∈ rows, r.check = true
  dec _ := inferInstance

theorem auditSchema_nil : auditSchema.Ok [] := by decide

/-! ## runtime_control -/

structure ControlRow where
  singleton : Bool
  paused : Bool
  reason : Option String
  updatedAt : Int
  updatedBy : String
  deriving DecidableEq

def ControlRow.check (r : ControlRow) : Bool :=
  r.singleton && r.reason.all textOk && textOk r.updatedBy && btrim r.updatedBy ≠ ""

def controlSchema : Schema ControlRow where
  Ok rows := (rows.map (·.singleton)).Nodup ∧ ∀ r ∈ rows, r.check = true
  dec _ := inferInstance

/-! ## The database -/

structure Db where
  events : Table eventsSchema
  streams : Table streamsSchema
  partitions : Table partitionsSchema
  relays : Table relaysSchema
  audit : Table auditSchema
  control : Table controlSchema

/-- `NOT EXISTS (SELECT 1 FROM runtime_control WHERE singleton = TRUE AND paused = FALSE)`. -/
def Db.paused (db : Db) : Bool := !db.control.rows.any fun r => r.singleton && !r.paused

/-- The 64 seeded partition rows of migration 3. -/
def seedPartitions : List PartitionRow :=
  (List.range Ordering.partitionCount).map fun i =>
    { id := i, leaseOwner := none, leaseUntil := none, epoch := 0, handoffNotBefore := none,
      publishTimeoutMS := none, updatedAt := 0 }

/-- The row migration 2 inserts. -/
def seedControl : ControlRow :=
  { singleton := true, paused := false, reason := none, updatedAt := 0, updatedBy := "migration" }

/-- The migrated empty schema. -/
def Db.empty : Db where
  events := ⟨[], by decide⟩
  streams := ⟨[], by decide⟩
  partitions := ⟨seedPartitions, by decide⟩
  relays := ⟨[], by decide⟩
  audit := ⟨[], auditSchema_nil⟩
  control := ⟨[seedControl], by decide⟩

/-! ## What the constraints say -/

theorem EventRow.ordering_of_key {r : EventRow} (h : r.orderingStateCheck = true) {k : String}
    (hk : r.orderingKey = some k) :
    ∃ n p, r.orderingSequence = some n ∧ r.orderingPartition = some p ∧ btrim k ≠ "" ∧ 0 < n ∧
    n ≤ maxInt64 := by
  unfold EventRow.orderingStateCheck at h
  rw [hk] at h
  cases hn : r.orderingSequence with
  | none => simp [hn] at h
  | some n =>
    cases hp : r.orderingPartition with
    | none => simp [hn, hp] at h
    | some p =>
      simp [hn, hp] at h
      exact ⟨n, p, rfl, rfl, h.1.1.1.1, h.1.1.1.2, h.1.1.2⟩

theorem EventRow.lease_of_not_inflight {r : EventRow} (h : r.leaseStateCheck = true) (hs : r.status ≠ .inflight) :
    r.leaseOwner = none ∧ r.leaseUntil = none := by
  simpa [EventRow.leaseStateCheck, hs] using h

namespace Db

/-- The event with an id. -/
def row (db : Db) (id : Uuid) : Option EventRow := lookup (fun r : EventRow => r.id) db.events.rows id

def stream (db : Db) (destination key : String) : Option StreamRow :=
  lookup StreamRow.key db.streams.rows (destination, key)

def partition (db : Db) (p : Int) : Option PartitionRow := lookup PartitionRow.id db.partitions.rows p

def relay (db : Db) (instanceID : String) : Option RelayRow := lookup RelayRow.instanceID db.relays.rows instanceID

variable (db : Db)

theorem event_check {r : EventRow} (h : r ∈ db.events.rows) : r.check = true := db.events.ok.2.1 r h

theorem event_lease {r : EventRow} (h : r ∈ db.events.rows) : r.leaseStateCheck = true := by
  have := db.event_check h
  simp only [EventRow.check, Bool.and_eq_true] at this
  exact this.1.1.2

theorem event_ordering {r : EventRow} (h : r ∈ db.events.rows) : r.orderingStateCheck = true := by
  have := db.event_check h
  simp only [EventRow.check, Bool.and_eq_true] at this
  exact this.2

theorem row_eq_some {id : Uuid} {r : EventRow} : db.row id = some r ↔ r ∈ db.events.rows ∧ r.id = id :=
  lookup_eq_some db.events.ok.1

theorem row_mem {r : EventRow} (h : r ∈ db.events.rows) : db.row r.id = some r := db.row_eq_some.mpr ⟨h, rfl⟩

/-- The unique index on the sequence of a stream. -/
theorem event_sequence_ext {a b : EventRow} (ha : a ∈ db.events.rows) (hb : b ∈ db.events.rows)
    (h : a.sameSequence b = true) : a = b := by
  by_contra hne
  have hsym : Std.Symm fun x y : EventRow => x.sameSequence y = false := by
    refine ⟨fun x y hxy => ?_⟩
    rw [← hxy, Bool.eq_iff_iff]
    simp only [EventRow.sameSequence, Bool.and_eq_true, decide_eq_true_eq]
    constructor <;> rintro ⟨⟨⟨h1, h2⟩, h3⟩, h4⟩ <;>
      exact ⟨⟨⟨h3 ▸ h1, h2.symm⟩, h3.symm⟩, h4.symm⟩
  have := db.events.ok.2.2.forall ha hb hne
  rw [h] at this
  exact absurd this (by decide)

theorem stream_eq_some {d k : String} {r : StreamRow} :
    db.stream d k = some r ↔ r ∈ db.streams.rows ∧ r.destination = d ∧ r.orderingKey = k := by
  rw [stream, lookup_eq_some db.streams.ok.1, StreamRow.key, Prod.mk.injEq]

theorem partition_eq_some {p : Int} {r : PartitionRow} :
    db.partition p = some r ↔ r ∈ db.partitions.rows ∧ r.id = p := lookup_eq_some db.partitions.ok.1

theorem stream_cursor {r : StreamRow} (h : r ∈ db.streams.rows) :
    0 < r.startSequence ∧ r.startSequence ≤ r.nextSequence := by
  have := db.streams.ok.2 r h
  simp only [StreamRow.check, Bool.and_eq_true, decide_eq_true_eq] at this
  exact ⟨this.1.1.2, this.1.2⟩

end Db

end Emitlane
