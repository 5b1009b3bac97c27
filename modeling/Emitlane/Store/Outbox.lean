import Mathlib.Data.List.Sort
import Emitlane.Schema

/-!
# Store.Outbox — claims and transitions of `storage/postgres/store.go`

Each function is one call of the store, run as one atomic step at the database instant `now`.  A call that returns an
error leaves the database as it was.  Every UPDATE of `outbox_events` passes the trigger `guardOrderedEventClaim`,
which silently skips rows.

`locked` are the rows other transactions hold when a `FOR UPDATE SKIP LOCKED` runs.
-/

namespace Emitlane

open Rel

/-! ## Errors -/

/-- The errors callers test for with `errors.Is`. -/
inductive Sentinel
  | errNoRows
  | errFenced
  | errNotFound
  | errConflict
  | errInvalid
  deriving DecidableEq, Repr

/-- An error of a store call.  Where the statement itself fails, `text` is the text in front of the driver's. -/
structure StoreError where
  sentinel : Option Sentinel
  text : String
  deriving DecidableEq, Repr

/-- `fmt.Errorf("%s: %w", what, err)` for an error of the driver. -/
def StoreError.sql (what : String) : StoreError := ⟨none, what⟩

def StoreError.noRows (what : String) : StoreError := ⟨some .errNoRows, s!"{what}: no rows in result set"⟩

def StoreError.fenced (what : String) : StoreError :=
  ⟨some .errFenced, s!"{what}: relay: ordered transition fenced"⟩

/-! ## The claimed event -/

/-- `relay.Event`. -/
structure RelayEvent where
  id : Uuid
  destination : String
  type : String
  key : Option Bytes
  payload : Bytes
  contentType : String
  headers : List (String × String)
  schemaVersion : Int
  correlationID : String
  causationID : String
  traceparent : String
  tracestate : String
  status : Status
  attempts : Int
  availableAt : Int
  leaseOwner : String
  leaseUntil : Option Int
  lastError : Bytes
  createdAt : Int
  deliveredAt : Option Int
  replayedFromEventID : Option Uuid
  replayBatchID : Option Uuid
  orderingKey : String
  orderingSequence : Int
  orderingPartition : Option Int
  orderingEpoch : Int
  deriving DecidableEq

def scanEvent (r : EventRow) (epoch : Option Int) : RelayEvent where
  id := r.id
  destination := r.destination
  type := r.eventType
  key := r.messageKey
  payload := r.payload
  contentType := r.contentType
  headers := r.headers
  schemaVersion := r.schemaVersion
  correlationID := deref r.correlationID
  causationID := deref r.causationID
  traceparent := deref r.traceparent
  tracestate := deref r.tracestate
  status := r.status
  attempts := r.attempts
  availableAt := r.availableAt
  leaseOwner := deref r.leaseOwner
  leaseUntil := r.leaseUntil
  lastError := r.lastError.getD []
  createdAt := r.createdAt
  deliveredAt := r.deliveredAt
  replayedFromEventID := r.replayedFromEventID
  replayBatchID := r.replayBatchID
  orderingKey := deref r.orderingKey
  orderingSequence := r.orderingSequence.getD 0
  orderingPartition := r.orderingPartition
  orderingEpoch := epoch.getD 0

/-! ## UPDATE of outbox_events -/

/-- The row with its progress columns rewritten. -/
def EventRow.progress (r : EventRow) (f : Progress → Progress) : EventRow := { r with toProgress := f r.toProgress }

@[simp] theorem EventRow.progress_toProgress (r : EventRow) (f : Progress → Progress) :
    (r.progress f).toProgress = f r.toProgress := rfl

/-- `COALESCE(handoff_not_before, '-infinity') <= NOW()`. -/
def PartitionRow.handoffPassed (p : PartitionRow) (now : Int) : Bool := p.handoffNotBefore.all (· ≤ now)

/-- The partition row an event joins. -/
def Db.partitionOf (db : Db) (r : EventRow) : Option PartitionRow := r.orderingPartition.bind db.partition

/-- The trigger function `guard_ordered_event_claim`; `false` is `RETURN NULL`. -/
def Db.guardOrderedEventClaim (db : Db) (now : Int) (old new : EventRow) : Bool :=
  old.orderingKey.isNone ||
    !(new.status = .inflight && (old.status ≠ .inflight || new.leaseOwner ≠ old.leaseOwner) &&
      !(new.leaseOwner.any fun owner =>
        ((db.relay owner).any fun relay => relay.orderingCapable && relay.stoppedAt.isNone) &&
        ((db.partitionOf old).any fun p =>
          p.leaseOwner = some owner && p.leaseUntil.any (now < ·) && p.handoffPassed now)))

/-- The rows an UPDATE with condition `p` and assignments `f` rewrites. -/
def Db.hits (db : Db) (now : Int) (p : EventRow → Bool) (f : Progress → Progress) (r : EventRow) : Bool :=
  p r && db.guardOrderedEventClaim now r (r.progress f)

/-- UPDATE with RETURNING: the new database and the rewritten rows. -/
def Db.updateEvents (db : Db) (now : Int) (p : EventRow → Bool) (f : Progress → Progress) :
    Option (Db × List EventRow) :=
  (db.events.update (db.hits now p f) (·.progress f)).map fun t =>
    ({ db with events := t }, (db.events.rows.filter (db.hits now p f)).map (·.progress f))

/-- An UPDATE whose call checks the number of rewritten rows. -/
def Db.exec (db : Db) (now : Int) (what : String) (affected : Nat → Bool) (missing : StoreError)
    (p : EventRow → Bool) (f : Progress → Progress) : Except StoreError Db :=
  match db.updateEvents now p f with
  | none => .error (.sql what)
  | some (db', out) => if affected out.length then .ok db' else .error missing

/-! ## Claim -/

/-- `ORDER BY available_at, created_at, id`. -/
def EventRow.dueBefore (a b : EventRow) : Prop :=
  a.availableAt < b.availableAt ∨
    (a.availableAt = b.availableAt ∧ (a.createdAt < b.createdAt ∨ (a.createdAt = b.createdAt ∧ a.id ≤ b.id)))

instance : DecidableRel EventRow.dueBefore := fun a b => by unfold EventRow.dueBefore; infer_instance

/-- `ORDER BY … LIMIT limit`. -/
def topDue (limit : Int) (rows : List EventRow) : List EventRow :=
  (rows.insertionSort EventRow.dueBefore).take limit.toNat

/-- The lease columns a claim writes. -/
def leaseTo (owner : String) (leaseUntil : Int) (g : Progress) : Progress :=
  { g with status := .inflight, leaseOwner := some owner, leaseUntil := some leaseUntil }

/-- `status = 'inflight' AND lease_until IS NOT NULL AND lease_until <= NOW()`. -/
def EventRow.leaseExpired (r : EventRow) (now : Int) : Bool := r.status = .inflight && r.leaseUntil.any (· ≤ now)

def Db.claimPending (db : Db) (now : Int) (locked : Uuid → Bool) (limit : Int) : List EventRow :=
  topDue limit (db.events.rows.filter fun r =>
    r.availableAt ≤ now && r.orderingKey.isNone && r.status = .pending && !db.paused && !locked r.id)

def Db.claimExpired (db : Db) (now : Int) (locked : Uuid → Bool) (limit : Int) : List EventRow :=
  topDue limit (db.events.rows.filter fun r =>
    r.availableAt ≤ now && r.orderingKey.isNone && r.leaseExpired now && !db.paused && !locked r.id)

def Db.claimPicked (db : Db) (now : Int) (locked : Uuid → Bool) (limit : Int) : List EventRow :=
  topDue limit (db.claimPending now locked limit ++ db.claimExpired now locked limit)

def Db.claim (db : Db) (now : Int) (locked : Uuid → Bool) (owner : String) (limit lease : Int) :
    Except StoreError (Db × List RelayEvent) :=
  if limit ≤ 0 then .ok (db, []) else
  let picked := (db.claimPicked now locked limit).map (·.id)
  match db.updateEvents now (fun r => r.id ∈ picked) (leaseTo owner (addMS now (intervalMS lease))) with
  | none => .error (.sql "claim query")
  | some (db', out) => .ok (db', out.map (scanEvent · none))

/-! ## Transitions -/

/-- The condition of every unordered transition: the event is inflight for the caller. -/
def EventRow.heldBy (id : Uuid) (owner : String) (r : EventRow) : Bool :=
  r.id = id && r.leaseOwner = some owner && r.status = .inflight

def countAttempt (g : Progress) : Progress := { g with attempts := g.attempts + 1 }

def deliver (now : Int) (g : Progress) : Progress :=
  { g with status := .delivered, deliveredAt := some now, leaseOwner := none, leaseUntil := none, lastError := none }

def reschedule (now delay : Int) (lastError : Bytes) (g : Progress) : Progress :=
  { g with status := .pending, availableAt := addMS now (intervalMS delay), leaseOwner := none, leaseUntil := none,
           lastError := some (sanitizeError lastError) }

def kill (lastError : Bytes) (g : Progress) : Progress :=
  { g with status := .dead, leaseOwner := none, leaseUntil := none, lastError := some (sanitizeError lastError) }

def Db.beginAttempt (db : Db) (now : Int) (id : Uuid) (owner : String) (maxAttempts : Int) :
    Except StoreError (Db × Int) :=
  match db.updateEvents now (fun r => r.heldBy id owner && r.attempts < maxAttempts) countAttempt with
  | none => .error (.sql s!"begin publish attempt {id.text}")
  | some (_, []) => .error (.noRows s!"begin publish attempt {id.text}")
  | some (db', r :: _) => .ok (db', r.attempts)

/-- MarkDelivered, MarkRetry and MarkDead: rewrite the row the caller holds. -/
def Db.markHeld (db : Db) (now : Int) (what : String) (id : Uuid) (owner : String) (f : Progress → Progress) :
    Except StoreError Db :=
  db.exec now s!"{what} {id.text}" (0 < ·)
    ⟨none, s!"{what} {id.text}: no matching inflight row for owner {owner}"⟩ (EventRow.heldBy id owner) f

def Db.markDelivered (db : Db) (now : Int) (id : Uuid) (owner : String) : Except StoreError Db :=
  db.markHeld now "mark delivered" id owner (deliver now)

def Db.markRetry (db : Db) (now : Int) (id : Uuid) (owner : String) (delay : Int) (lastError : Bytes) :
    Except StoreError Db :=
  db.markHeld now "mark retry" id owner (reschedule now delay lastError)

def Db.markDead (db : Db) (now : Int) (id : Uuid) (owner : String) (lastError : Bytes) : Except StoreError Db :=
  db.markHeld now "mark dead" id owner (kill lastError)

def Db.retryDead (db : Db) (now : Int) (id : Uuid) : Except StoreError Db :=
  db.exec now s!"retry dead {id.text}" (0 < ·) ⟨none, s!"retry dead {id.text}: not found or not dead"⟩
    (fun r => r.id = id && r.status = .dead)
    (fun g => { g with status := .pending, availableAt := now, attempts := 0, leaseOwner := none, leaseUntil := none })

/-! ## CleanupDelivered -/

/-- `ORDER BY delivered_at`; the order of equal instants is the database's. -/
def EventRow.deliveredBefore (a b : EventRow) : Prop := a.deliveredAt.getD 0 ≤ b.deliveredAt.getD 0

instance : DecidableRel EventRow.deliveredBefore := fun a b => by unfold EventRow.deliveredBefore; infer_instance

/-- The delivered rows older than the retention. -/
def EventRow.expired (now retention : Int) (r : EventRow) : Bool :=
  r.status = .delivered && r.deliveredAt.any (· < addMS now (- intervalMS retention))

def Db.cleanupDelivered (db : Db) (now : Int) (locked : Uuid → Bool) (retention limit : Int) :
    Except StoreError (Db × Int) :=
  if retention ≤ 0 || limit ≤ 0 then .ok (db, 0) else
  let doomed := ((db.events.rows.filter fun r => r.expired now retention && !locked r.id).insertionSort
    EventRow.deliveredBefore).take limit.toNat
  match db.events.delete (fun r => r.id ∈ doomed.map (·.id)) with
  | none => .error (.sql "cleanup delivered")
  | some t => .ok ({ db with events := t }, doomed.length)

/-! ## What the statements do -/

/-- The ordering tables, the presence table and the runtime control are as they were. -/
structure Db.KeepsOrdering (db db' : Db) : Prop where
  streams : db'.streams = db.streams
  partitions : db'.partitions = db.partitions
  relays : db'.relays = db.relays
  control : db'.control = db.control

theorem Db.KeepsOrdering.refl (db : Db) : db.KeepsOrdering db := ⟨rfl, rfl, rfl, rfl⟩

theorem Db.KeepsOrdering.trans {a b c : Db} (h : a.KeepsOrdering b) (h' : b.KeepsOrdering c) : a.KeepsOrdering c :=
  ⟨h'.streams.trans h.streams, h'.partitions.trans h.partitions, h'.relays.trans h.relays,
    h'.control.trans h.control⟩

/-- The events of `db'` are those of `db` with the progress of `r` rewritten by `f`. -/
structure Db.Rewrites (db db' : Db) (r : EventRow) (f : Progress → Progress) : Prop where
  old : db.row r.id = some r
  row : ∀ id, db'.row id = if id = r.id then some (r.progress f) else db.row id

/-- `db'` is `db` with the progress of the event `r` rewritten by `f`. -/
structure Db.Touches (db db' : Db) (r : EventRow) (f : Progress → Progress) : Prop
    extends db.Rewrites db' r f where
  frame : db.KeepsOrdering db'

/-- `db'` is `db` with the events `evs` leased to `owner`, each of which was a row with `E`. -/
structure Db.Leases (db db' : Db) (owner : String) (leaseUntil : Int) (E : EventRow → Option Int → Prop)
    (evs : List RelayEvent) : Prop where
  old : ∀ ev ∈ evs, ∃ r epoch, db.row ev.id = some r ∧ E r epoch ∧
    ev = scanEvent (r.progress (leaseTo owner leaseUntil)) epoch
  nodup : (evs.map (·.id)).Nodup
  row : ∀ id, db'.row id = (db.row id).map fun r =>
    if id ∈ evs.map (·.id) then r.progress (leaseTo owner leaseUntil) else r
  frame : db.KeepsOrdering db'

section Spec

variable {db db' : Db} {now : Int} {p : EventRow → Bool} {f : Progress → Progress} {out : List EventRow}

theorem Db.updateEvents_some (h : db.updateEvents now p f = some (db', out)) :
    (∀ id, db'.row id = (db.row id).map fun r => if db.hits now p f r then r.progress f else r) ∧
      out = (db.events.rows.filter (db.hits now p f)).map (·.progress f) ∧ db.KeepsOrdering db' := by
  obtain ⟨t, ht, h⟩ := Option.map_eq_some_iff.mp h
  obtain ⟨rfl, rfl⟩ := Prod.mk.inj h
  refine ⟨fun id => ?_, rfl, rfl, rfl, rfl, rfl⟩
  refine Table.lookup_update (fun r _ => ?_) ht id
  rfl

/-- An UPDATE by id that rewrites something rewrites the row with this id, and nothing else. -/
theorem Db.updateEvents_one {i : Uuid} (hp : ∀ r, p r = true → r.id = i) {r' : EventRow} {rest : List EventRow}
    (h : db.updateEvents now p f = some (db', r' :: rest)) :
    ∃ r, r.id = i ∧ p r = true ∧ db.guardOrderedEventClaim now r (r.progress f) = true ∧ r' = r.progress f ∧
      db.Touches db' r f := by
  obtain ⟨hrow, hout, hframe⟩ := Db.updateEvents_some h
  have hhit : ∀ x, db.hits now p f x = true → x.id = i := by
    intro x hx
    exact hp x (Bool.and_eq_true_iff.mp hx).1
  obtain ⟨r, hr, rfl⟩ : ∃ r ∈ db.events.rows.filter (db.hits now p f), r.progress f = r' :=
    List.mem_map.mp (hout ▸ List.mem_cons_self)
  obtain ⟨hmem, hr⟩ := List.mem_filter.mp hr
  obtain ⟨hpr, hg⟩ := Bool.and_eq_true_iff.mp hr
  refine ⟨r, hp r hpr, hpr, hg, rfl, ⟨db.row_mem hmem, fun x => ?_⟩, hframe⟩
  rw [hrow x]
  by_cases hx : x = r.id
  · rw [if_pos hx, hx, db.row_mem hmem, Option.map_some, if_pos hr]
  · rw [if_neg hx]
    cases hrx : db.row x with
    | none => rfl
    | some y =>
      have hyx : y.id = x := (db.row_eq_some.mp hrx).2
      have hy : ¬ db.hits now p f y = true := by
        intro hy
        exact hx (by rw [← hyx, hhit y hy, hp r hpr])
      rw [Option.map_some, if_neg hy]

theorem Db.exec_ok {what : String} {affected : Nat → Bool} {missing : StoreError} {i : Uuid}
    (ha : affected 0 = false) (hp : ∀ r, p r = true → r.id = i)
    (h : db.exec now what affected missing p f = .ok db') :
    ∃ r, r.id = i ∧ p r = true ∧ db.Touches db' r f := by
  unfold Db.exec at h
  cases hu : db.updateEvents now p f with
  | none => rw [hu] at h; cases h
  | some x =>
    obtain ⟨db₁, out⟩ := x
    rw [hu] at h
    simp only at h
    split_ifs at h with hout
    obtain rfl : db₁ = db' := Except.ok.inj h
    cases out with
    | nil => rw [List.length_nil, ha] at hout; cases hout
    | cons r' rest =>
      obtain ⟨r, hid, hpr, -, -, ht⟩ := Db.updateEvents_one hp hu
      exact ⟨r, hid, hpr, ht⟩

theorem EventRow.heldBy_iff {id : Uuid} {owner : String} {r : EventRow} :
    r.heldBy id owner = true ↔ r.id = id ∧ r.leaseOwner = some owner ∧ r.status = .inflight := by
  simp [EventRow.heldBy, and_assoc]

theorem Db.beginAttempt_ok {id : Uuid} {owner : String} {maxAttempts n : Int}
    (h : db.beginAttempt now id owner maxAttempts = .ok (db', n)) :
    ∃ r, r.heldBy id owner = true ∧ r.attempts < maxAttempts ∧ n = r.attempts + 1 ∧
      db.Touches db' r countAttempt := by
  unfold Db.beginAttempt at h
  split at h
  · cases h
  · cases h
  · rename_i db₁ r' rest hu
    obtain ⟨rfl, rfl⟩ := Prod.mk.inj (Except.ok.inj h)
    obtain ⟨r, -, hp, -, rfl, ht⟩ := Db.updateEvents_one (i := id) (fun x hx => by
      exact (EventRow.heldBy_iff.mp (Bool.and_eq_true_iff.mp hx).1).1) hu
    obtain ⟨hheld, hlt⟩ := Bool.and_eq_true_iff.mp hp
    exact ⟨r, hheld, of_decide_eq_true hlt, rfl, ht⟩

theorem Db.markHeld_ok {what : String} {id : Uuid} {owner : String}
    (h : db.markHeld now what id owner f = .ok db') : ∃ r, r.heldBy id owner = true ∧ db.Touches db' r f := by
  obtain ⟨r, -, hp, ht⟩ := Db.exec_ok (i := id) rfl (fun x hx => (EventRow.heldBy_iff.mp hx).1) h
  exact ⟨r, hp, ht⟩

theorem Db.retryDead_ok {id : Uuid} (h : db.retryDead now id = .ok db') :
    ∃ r, r.id = id ∧ r.status = .dead ∧ db.Touches db' r
      (fun g => { g with status := .pending, availableAt := now, attempts := 0, leaseOwner := none,
                         leaseUntil := none }) := by
  obtain ⟨r, hid, hp, ht⟩ := Db.exec_ok (i := id) rfl (fun x hx => by
    exact of_decide_eq_true (Bool.and_eq_true_iff.mp hx).1) h
  exact ⟨r, hid, of_decide_eq_true (Bool.and_eq_true_iff.mp hp).2, ht⟩

/-! ### Claims -/

/-- A claim may take a row that waits or whose lease is over. -/
def EventRow.Claimable (r : EventRow) (now : Int) : Prop := r.status = .pending ∨ r.leaseExpired now = true

theorem mem_topDue {limit : Int} {rows : List EventRow} {r : EventRow} (h : r ∈ topDue limit rows) : r ∈ rows :=
  (List.perm_insertionSort _ _).mem_iff.mp (List.mem_of_mem_take h)

/-- The UPDATE of a claim leases rows that were picked. -/
theorem Db.updateEvents_leases {owner : String} {leaseUntil : Int} {picked : List EventRow}
    {e : EventRow → Option Int} (hpick : ∀ r ∈ picked, r ∈ db.events.rows)
    (h : db.updateEvents now (fun r => r.id ∈ picked.map (·.id)) (leaseTo owner leaseUntil) = some (db', out)) :
    db.Leases db' owner leaseUntil (fun r x => r ∈ picked ∧ x = e (r.progress (leaseTo owner leaseUntil)))
      (out.map fun r => scanEvent r (e r)) := by
  obtain ⟨hrow, hout, hframe⟩ := Db.updateEvents_some h
  have hids : (out.map fun r => scanEvent r (e r)).map (·.id) =
      (db.events.rows.filter (db.hits now (fun r => r.id ∈ picked.map (·.id)) (leaseTo owner leaseUntil))).map
        (·.id) := by
    rw [hout, List.map_map, List.map_map]
    rfl
  refine ⟨?_, ?_, ?_, hframe⟩
  · intro ev hev
    obtain ⟨r', hr', rfl⟩ := List.mem_map.mp hev
    rw [hout] at hr'
    obtain ⟨r, hr, rfl⟩ := List.mem_map.mp hr'
    obtain ⟨hmem, hr⟩ := List.mem_filter.mp hr
    obtain ⟨q, hq, hqr⟩ := List.mem_map.mp (of_decide_eq_true (Bool.and_eq_true_iff.mp hr).1)
    have hqr : q = r := eq_of_key db.events.ok.1 (hpick q hq) hmem hqr
    exact ⟨r, _, db.row_mem hmem, ⟨hqr ▸ hq, rfl⟩, rfl⟩
  · rw [hids]
    exact db.events.ok.1.sublist (List.filter_sublist.map _)
  · intro id
    rw [hrow id, hids]
    cases hr : db.row id with
    | none => rfl
    | some r =>
      obtain ⟨hmem, hid⟩ := db.row_eq_some.mp hr
      rw [Option.map_some, Option.map_some]
      by_cases hh : db.hits now (fun r => r.id ∈ picked.map (·.id)) (leaseTo owner leaseUntil) r = true
      · rw [if_pos hh, if_pos (List.mem_map.mpr ⟨r, List.mem_filter.mpr ⟨hmem, hh⟩, hid⟩)]
      · rw [if_neg hh, if_neg]
        intro hin
        obtain ⟨x, hx, hxid⟩ := List.mem_map.mp hin
        obtain ⟨hxmem, hx⟩ := List.mem_filter.mp hx
        have : x = r := eq_of_key db.events.ok.1 hxmem hmem (hxid.trans hid.symm)
        exact hh (this ▸ hx)

theorem Db.mem_claimPicked {locked : Uuid → Bool} {limit : Int} {r : EventRow}
    (h : r ∈ db.claimPicked now locked limit) :
    r ∈ db.events.rows ∧ r.orderingKey = none ∧ r.Claimable now := by
  rcases List.mem_append.mp (mem_topDue h) with h | h
  · obtain ⟨hmem, hr⟩ := List.mem_filter.mp (mem_topDue h)
    simp only [Bool.and_eq_true, decide_eq_true_eq, Option.isNone_iff_eq_none] at hr
    exact ⟨hmem, hr.1.1.1.2, .inl hr.1.1.2⟩
  · obtain ⟨hmem, hr⟩ := List.mem_filter.mp (mem_topDue h)
    simp only [Bool.and_eq_true, decide_eq_true_eq, Option.isNone_iff_eq_none] at hr
    exact ⟨hmem, hr.1.1.1.2, .inr hr.1.1.2⟩

theorem Db.Leases.nil (db : Db) (owner : String) (leaseUntil : Int) (E : EventRow → Option Int → Prop) :
    db.Leases db owner leaseUntil E [] := by
  refine ⟨by simp, by simp, fun id => ?_, .refl db⟩
  cases db.row id <;> simp

theorem Db.Leases.imp {owner : String} {leaseUntil : Int} {E E' : EventRow → Option Int → Prop}
    {evs : List RelayEvent} (hE : ∀ r e, E r e → E' r e) (h : db.Leases db' owner leaseUntil E evs) :
    db.Leases db' owner leaseUntil E' evs := by
  refine ⟨fun ev hev => ?_, h.nodup, h.row, h.frame⟩
  obtain ⟨r, e, hr, he, heq⟩ := h.old ev hev
  exact ⟨r, e, hr, hE r e he, heq⟩

theorem Db.claim_ok {locked : Uuid → Bool} {owner : String} {limit lease : Int} {evs : List RelayEvent}
    (h : db.claim now locked owner limit lease = .ok (db', evs)) :
    db.Leases db' owner (addMS now (intervalMS lease))
      (fun r e => e = none ∧ r.orderingKey = none ∧ r.Claimable now) evs := by
  unfold Db.claim at h
  split_ifs at h with hlimit
  · obtain ⟨rfl, rfl⟩ := Prod.mk.inj (Except.ok.inj h)
    exact Db.Leases.nil db owner _ _
  · simp only at h
    split at h
    · cases h
    · rename_i db₁ out hu
      obtain ⟨rfl, rfl⟩ := Prod.mk.inj (Except.ok.inj h)
      refine (Db.updateEvents_leases (e := fun _ => none) (fun r hr => (Db.mem_claimPicked hr).1) hu).imp ?_
      rintro r e ⟨hr, rfl⟩
      exact ⟨rfl, (Db.mem_claimPicked hr).2⟩

/-! ### Cleanup -/

/-- A cleanup deletes expired delivered rows only, and all it does is delete. -/
theorem Db.cleanupDelivered_ok {locked : Uuid → Bool} {retention limit n : Int}
    (h : db.cleanupDelivered now locked retention limit = .ok (db', n)) :
    (∀ id, db'.row id = db.row id ∨
      (db'.row id = none ∧ 0 < retention ∧ ∃ r, db.row id = some r ∧ r.expired now retention = true)) ∧
      db.KeepsOrdering db' := by
  unfold Db.cleanupDelivered at h
  split_ifs at h with hret
  · obtain ⟨rfl, -⟩ := Prod.mk.inj (Except.ok.inj h)
    exact ⟨fun id => .inl rfl, .refl db⟩
  · simp only at h
    split at h
    · cases h
    · rename_i t ht
      obtain ⟨rfl, -⟩ := Prod.mk.inj (Except.ok.inj h)
      refine ⟨fun id => ?_, rfl, rfl, rfl, rfl⟩
      have hrow : Db.row { db with events := t } id = (db.row id).filter _ :=
        Table.lookup_delete db.events.ok.1 ht id
      rw [hrow]
      cases hr : db.row id with
      | none => exact .inl rfl
      | some r =>
        rw [Option.filter_some]
        split_ifs with hkeep
        · exact .inl rfl
        · refine .inr ⟨rfl, ?_, r, rfl, ?_⟩
          · simp at hret; exact hret.1
          · obtain ⟨hmem, -⟩ := db.row_eq_some.mp hr
            rw [Bool.not_eq_true', decide_eq_false_iff_not, not_not] at hkeep
            obtain ⟨q, hq, hqr⟩ := List.mem_map.mp hkeep
            have hq := List.mem_filter.mp ((List.perm_insertionSort _ _).mem_iff.mp (List.mem_of_mem_take hq))
            have : q = r := eq_of_key db.events.ok.1 hq.1 hmem hqr
            exact this ▸ (Bool.and_eq_true_iff.mp hq.2).1

end Spec

end Emitlane
