import Emitlane.Store.Admin

/-!
# Integrity.Tables — the rows a verifier reads

The verifier looks for rows that the CHECK constraints and the unique index should not have let in, so it is modelled on
tables of which only the column types and the primary keys are known: the status of an event is a text, its ordering
columns are NULL one by one, and the numbers of a cursor row are any.

* `Tables`: the tables of the outbox with their primary keys.
* `Db.tables`: a database with all its constraints, as the verifier reads it.
-/

namespace Emitlane

open Rel

/-! ## Events -/

/-- The columns of `outbox_events` that the verifier reads. -/
structure RetainedEvent where
  id : Uuid
  destination : String
  status : String
  attempts : Int
  availableAt : Int
  leaseOwner : Option String
  leaseUntil : Option Int
  createdAt : Int
  orderingKey : Option String
  orderingSequence : Option Int
  orderingPartition : Option Int
  deriving DecidableEq

/-- The row of a table with its constraints. -/
def EventRow.retained (r : EventRow) : RetainedEvent where
  id := r.id
  destination := r.destination
  status := r.status.text
  attempts := r.attempts
  availableAt := r.availableAt
  leaseOwner := r.leaseOwner
  leaseUntil := r.leaseUntil
  createdAt := r.createdAt
  orderingKey := r.orderingKey
  orderingSequence := r.orderingSequence
  orderingPartition := r.orderingPartition

namespace RetainedEvent

/-- `status IN ('pending','inflight','dead')`. -/
def active (r : RetainedEvent) : Bool := r.status = "pending" || r.status = "inflight" || r.status = "dead"

def leaseExpired (r : RetainedEvent) (now : Int) : Bool := r.status = "inflight" && r.leaseUntil.any (· ≤ now)

def orderedFields (r : RetainedEvent) : Nat :=
  r.orderingKey.toList.length + r.orderingSequence.toList.length + r.orderingPartition.toList.length

def fieldsInvalid (r : RetainedEvent) : Bool :=
  (r.orderedFields ≠ 0 && r.orderedFields ≠ 3) || r.orderingKey.any (trimSpace · = "") ||
    r.orderingSequence.any (· ≤ 0)

theorem fieldsInvalid_eq_false {r : RetainedEvent} {k : String} (hk : r.orderingKey = some k) :
    r.fieldsInvalid = false ↔ trimSpace k ≠ "" ∧ r.orderingPartition ≠ none ∧
      ∃ n, r.orderingSequence = some n ∧ 0 < n := by
  unfold fieldsInvalid orderedFields
  rw [hk]
  cases r.orderingSequence <;> cases r.orderingPartition <;> simp

end RetainedEvent

namespace EventRow

variable {r r' : EventRow}

theorem retained_status {x : Status} : r.retained.status = x.text ↔ r.status = x := by
  show r.status.text = x.text ↔ _
  cases r.status <;> cases x <;> decide

theorem retained_active : r.retained.active = true ↔ r.status ≠ .delivered := by
  show (decide (r.status.text = "pending") || decide (r.status.text = "inflight") ||
    decide (r.status.text = "dead")) = true ↔ _
  cases r.status <;> decide

end EventRow

/-! ## Tables -/

/-- A table of which only the primary key is known. -/
def keyed {ρ κ : Type} [DecidableEq κ] (key : ρ → κ) : Schema ρ where
  Ok rows := (rows.map key).Nodup
  dec _ := inferInstance

structure Tables where
  control : List ControlRow
  partitions : Table (keyed PartitionRow.id)
  relays : Table (keyed RelayRow.instanceID)
  events : Table (keyed RetainedEvent.id)
  streams : Table (keyed StreamRow.key)

namespace Tables

def stream (db : Tables) (destination key : String) : Option StreamRow :=
  lookup StreamRow.key db.streams.rows (destination, key)

def partition (db : Tables) (p : Int) : Option PartitionRow := lookup PartitionRow.id db.partitions.rows p

def relay (db : Tables) (instanceID : String) : Option RelayRow :=
  lookup RelayRow.instanceID db.relays.rows instanceID

theorem stream_eq_some (db : Tables) {d k : String} {r : StreamRow} :
    db.stream d k = some r ↔ r ∈ db.streams.rows ∧ r.destination = d ∧ r.orderingKey = k := by
  rw [stream, lookup_eq_some db.streams.ok, StreamRow.key, Prod.mk.injEq]

end Tables

/-- The tables of a database with its constraints. -/
def Db.tables (db : Db) : Tables where
  control := db.control.rows
  partitions := ⟨db.partitions.rows, db.partitions.ok.1⟩
  relays := ⟨db.relays.rows, db.relays.ok.1⟩
  events := ⟨db.events.rows.map EventRow.retained, by
    show ((db.events.rows.map EventRow.retained).map RetainedEvent.id).Nodup
    rw [List.map_map]
    exact db.events.ok.1⟩
  streams := ⟨db.streams.rows, db.streams.ok.1⟩

instance Db.coeTables : Coe Db Tables := ⟨Db.tables⟩

namespace Db

variable {db : Db}

theorem mem_retained {x : RetainedEvent} :
    x ∈ db.tables.events.rows ↔ ∃ r ∈ db.events.rows, r.retained = x := List.mem_map

end Db

end Emitlane
