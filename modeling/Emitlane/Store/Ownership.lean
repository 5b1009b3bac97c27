import Mathlib.Data.List.Sort
import Emitlane.Store.Outbox

/-!
# Store.Ownership — partition leases and relay presence (`ordering.go`, `presence.go`)

`decideRow` is the switch of ReconcileOrderingPartitions for one locked row.  Its outcome is applied twice, as the
source does: `written` is the row after the UPDATE with its own WHERE clause, `mirrored` is the row in memory from
which the returned slice is built.  `reconcileWith` takes the instant and the member list the transaction read at its
start; `reconcileOrderingPartitions` is the call as one atomic step.
-/

namespace Emitlane

open Rel

/-! ## Reconciliation -/

/-- The arguments of ReconcileOrderingPartitions. -/
structure ReconcileArgs where
  owner : String
  leaseDuration : Int
  publishTimeout : Int
  presenceStaleAfter : Int
  safetyMargin : Int

def releaseBarrier (now : Int) (existing publishTimeoutMS : Option Int) (safetyMargin : Int) : Int :=
  let publishWindow := (publishTimeoutMS.getD 0) * millisecond
  let barrier := addDuration now (addInt64 publishWindow safetyMargin)
  match existing with
  | some e => if barrier < e then e else barrier
  | none => barrier

inductive Decision
  | release (barrier : Int)
  | renew
  | acquire (barrier : Option Int)
  | keep
  deriving DecidableEq

def decideRow (a : ReconcileArgs) (now : Int) (members : List String) (row : PartitionRow) : Decision :=
  let desired := Ordering.desiredOwner row.id members
  let actual := deref row.leaseOwner
  let valid := actual ≠ "" ∧ row.leaseUntil.any (now < ·) = true
  if actual = a.owner ∧ desired ≠ a.owner then
    .release (releaseBarrier now row.handoffNotBefore row.publishTimeoutMS a.safetyMargin)
  else if desired = a.owner ∧ actual = a.owner ∧ valid then .renew
  else if desired = a.owner ∧ (actual = "" ∨ ¬ valid) then
    .acquire (if actual ≠ "" then
      some (releaseBarrier now row.handoffNotBefore row.publishTimeoutMS a.safetyMargin) else row.handoffNotBefore)
  else .keep

/-- The row in memory after the switch. -/
def Decision.mirrored (a : ReconcileArgs) (now : Int) (row : PartitionRow) : Decision → PartitionRow
  | .release barrier =>
    { row with leaseOwner := none, leaseUntil := none, epoch := row.epoch + 1, handoffNotBefore := some barrier }
  | .renew =>
    { row with leaseUntil := some (addDuration now a.leaseDuration),
               publishTimeoutMS := some (intervalMS a.publishTimeout) }
  | .acquire barrier =>
    { row with leaseOwner := some a.owner, leaseUntil := some (addDuration now a.leaseDuration),
               epoch := row.epoch + 1, handoffNotBefore := barrier,
               publishTimeoutMS := some (intervalMS a.publishTimeout) }
  | .keep => row

/-- The WHERE clause of the UPDATE. -/
def Decision.matches (a : ReconcileArgs) (now : Int) (row : PartitionRow) : Decision → Bool
  | .release _ => row.leaseOwner = some a.owner
  | .renew => row.leaseOwner = some a.owner
  | .acquire _ => row.leaseOwner.isNone || row.leaseUntil.any (· ≤ now)
  | .keep => false

/-- The row an UPDATE writes if its WHERE clause holds. -/
def Decision.applied (a : ReconcileArgs) (now : Int) (row : PartitionRow) (d : Decision) : PartitionRow :=
  { d.mirrored a now row with updatedAt := now }

/-- The row after the UPDATE. -/
def Decision.written (a : ReconcileArgs) (now : Int) (row : PartitionRow) (d : Decision) : PartitionRow :=
  if d.matches a now row then d.applied a now row else row

/-- The text in front of the error of the UPDATE. -/
def Decision.what (id : Int) : Decision → String
  | .release _ => s!"release ordering partition {id}"
  | .renew => s!"renew ordering partition {id}"
  | .acquire _ => s!"acquire ordering partition {id}"
  | .keep => ""

def reconcileRow (a : ReconcileArgs) (now : Int) (members : List String) (row : PartitionRow) : PartitionRow :=
  (decideRow a now members row).written a now row

/-- `relay.OrderingPartition`. -/
structure OrderingPartition where
  partitionID : Int
  desiredOwner : String
  leaseOwner : String
  leaseUntil : Option Int
  epoch : Int
  handoffNotBefore : Option Int
  deriving DecidableEq

def reconcileResult (a : ReconcileArgs) (now : Int) (members : List String) (row : PartitionRow) :
    OrderingPartition :=
  let row' := (decideRow a now members row).mirrored a now row
  { partitionID := row.id, desiredOwner := Ordering.desiredOwner row.id members, leaseOwner := deref row'.leaseOwner,
    leaseUntil := row'.leaseUntil, epoch := row'.epoch, handoffNotBefore := row'.handoffNotBefore }

/-- The rest of the transaction once the instant and the members are read.  The first UPDATE that writes a value out of
the range of its column ends the call. -/
def Db.reconcileWith (db : Db) (a : ReconcileArgs) (now : Int) (members : List String) :
    Except StoreError (Db × List OrderingPartition) :=
  let locked := db.partitions.rows.insertionSort (fun p q => p.id ≤ q.id)
  if locked.length ≠ Ordering.partitionCount then
    .error ⟨none, s!"ordering partition seed has {locked.length} rows, want {Ordering.partitionCount}"⟩
  else
    match db.partitions.update (fun _ => true) (reconcileRow a now members) with
    | none =>
      let failed := locked.find? fun row => !(reconcileRow a now members row).check
      .error (.sql (failed.elim "" fun row => (decideRow a now members row).what row.id))
    | some t => .ok ({ db with partitions := t }, locked.map (reconcileResult a now members))

def Db.activeOrderingMembers (db : Db) (now staleAfter : Int) : List String :=
  ((db.relays.rows.filter fun r => r.orderingCapable && r.stoppedAt.isNone &&
    addMS now (- intervalMS staleAfter) ≤ r.lastHeartbeatAt).map (·.instanceID)).insertionSort (· ≤ ·)

def Db.reconcileOrderingPartitions (db : Db) (now : Int) (a : ReconcileArgs) :
    Except StoreError (Db × List OrderingPartition) :=
  db.reconcileWith a now (db.activeOrderingMembers now a.presenceStaleAfter)

/-! ## Release -/

/-- The barrier of the release statement. -/
def releaseAt (now marginMS : Int) (row : PartitionRow) : Int :=
  let barrier := addMS now (row.publishTimeoutMS.getD 0 + marginMS)
  match row.handoffNotBefore with
  | some e => max e barrier
  | none => barrier

def releaseRow (now marginMS : Int) (row : PartitionRow) : PartitionRow :=
  { row with leaseOwner := none, leaseUntil := none, epoch := row.epoch + 1,
             handoffNotBefore := some (releaseAt now marginMS row), updatedAt := now }

/-- The window is added in INTEGER arithmetic, so the statement fails where the sum is out of range. -/
def Db.releaseOrderingPartitions (db : Db) (now : Int) (owner : String) (safetyMargin : Int) : Except StoreError Db :=
  let marginMS := intervalMS safetyMargin
  let what := s!"release ordering partitions for {owner}"
  if maxInt32 < marginMS ∨ (db.partitions.rows.any fun p =>
      p.leaseOwner = some owner && maxInt32 < p.publishTimeoutMS.getD 0 + marginMS) = true then .error (.sql what)
  else
    match db.partitions.update (·.leaseOwner = some owner) (releaseRow now marginMS) with
    | none => .error (.sql what)
    | some t => .ok { db with partitions := t }

/-! ## Presence -/

/-- `relay.RelayPresence`. -/
structure RelayPresence where
  instanceID : String
  hostname : String
  version : String
  startedAt : Int
  orderingCapable : Bool

def Db.registerRelay (db : Db) (now : Int) (presence : RelayPresence) : Except StoreError Db :=
  let row : RelayRow :=
    { instanceID := presence.instanceID, hostname := presence.hostname, version := presence.version,
      startedAt := presence.startedAt, lastHeartbeatAt := now, stoppedAt := none,
      orderingCapable := presence.orderingCapable }
  let t := if (db.relay presence.instanceID).isSome then
      db.relays.update (·.instanceID = presence.instanceID) (fun _ => row)
    else db.relays.insert row
  match t with
  | none => .error (.sql "register relay presence")
  | some t => .ok { db with relays := t }

/-- HeartbeatRelay and MarkRelayStopped. -/
def Db.touchRelay (db : Db) (what instanceID : String) (f : RelayRow → RelayRow) : Except StoreError Db :=
  if (db.relay instanceID).isSome then
    match db.relays.update (·.instanceID = instanceID) f with
    | none => .error (.sql what)
    | some t => .ok { db with relays := t }
  else .error ⟨none, s!"{what}: instance {quote (bytes instanceID)} is not registered"⟩

def Db.heartbeatRelay (db : Db) (now : Int) (instanceID : String) : Except StoreError Db :=
  db.touchRelay "heartbeat relay" instanceID fun r => { r with lastHeartbeatAt := now, stoppedAt := none }

def Db.markRelayStopped (db : Db) (now : Int) (instanceID : String) : Except StoreError Db :=
  db.touchRelay "mark relay stopped" instanceID fun r => { r with lastHeartbeatAt := now, stoppedAt := some now }

/-! ## What the calls do -/

section Spec

variable {db db' : Db} {now : Int} {a : ReconcileArgs} {members : List String}

@[simp] theorem reconcileRow_id (row : PartitionRow) : (reconcileRow a now members row).id = row.id := by
  unfold reconcileRow Decision.written
  split_ifs
  · cases decideRow a now members row <;> rfl
  · rfl

theorem Db.reconcileWith_ok {result : List OrderingPartition}
    (h : db.reconcileWith a now members = .ok (db', result)) :
    (∀ p, db'.partition p = (db.partition p).map (reconcileRow a now members)) ∧
      db' = { db with partitions := db'.partitions } := by
  unfold Db.reconcileWith at h
  simp only at h
  split_ifs at h
  split at h
  · cases h
  · rename_i t ht
    obtain ⟨rfl, -⟩ := Prod.mk.inj (Except.ok.inj h)
    refine ⟨fun p => ?_, rfl⟩
    show lookup PartitionRow.id t.rows p = (lookup PartitionRow.id db.partitions.rows p).map _
    rw [Table.lookup_update (fun r _ => reconcileRow_id r) ht p]
    simp only [if_true]

theorem Db.releaseOrderingPartitions_ok {owner : String} {safetyMargin : Int}
    (h : db.releaseOrderingPartitions now owner safetyMargin = .ok db') :
    (∀ p, db'.partition p = (db.partition p).map fun row =>
      if row.leaseOwner = some owner then releaseRow now (intervalMS safetyMargin) row else row) ∧
      db' = { db with partitions := db'.partitions } := by
  unfold Db.releaseOrderingPartitions at h
  simp only at h
  split_ifs at h
  split at h
  · cases h
  · rename_i t ht
    obtain rfl := Except.ok.inj h
    refine ⟨fun p => ?_, rfl⟩
    show lookup PartitionRow.id t.rows p = (lookup PartitionRow.id db.partitions.rows p).map _
    rw [Table.lookup_update (fun r _ => by rfl) ht p]
    simp only [decide_eq_true_eq]

theorem Db.registerRelay_ok {presence : RelayPresence} (h : db.registerRelay now presence = .ok db') :
    db' = { db with relays := db'.relays } := by
  unfold Db.registerRelay at h
  simp only at h
  split at h
  · cases h
  · obtain rfl := Except.ok.inj h
    rfl

theorem Db.touchRelay_ok {what instanceID : String} {f : RelayRow → RelayRow}
    (h : db.touchRelay what instanceID f = .ok db') : db' = { db with relays := db'.relays } := by
  unfold Db.touchRelay at h
  split_ifs at h
  split at h
  · cases h
  · obtain rfl := Except.ok.inj h
    rfl

end Spec

end Emitlane
