import Emitlane.Store.Outbox

/-!
# Store.Ordered — `storage/postgres/ordered_delivery.go`

The ordered transitions join the event with its partition and require the caller to be the partition's owner under
the epoch of its claim.  They differ in what else they ask for:

* `claimOrdered` joins the stream on its cursor, and wants the partition lease to outlive the publish window;
* `beginOrderedAttempt` wants the same lease and an unexpired event lease, and does not look at the cursor;
* `markOrderedDelivered` wants both leases unexpired, and moves the cursor in the same statement;
* `markOrderedRetry` and `markOrderedDead` want the partition lease only.
-/

namespace Emitlane

open Rel

/-- The partition is leased to `owner`, the lease passes `alive`, and its barrier is over. -/
def PartitionRow.authority (owner : String) (now : Int) (alive : Int → Bool) (p : PartitionRow) : Bool :=
  p.leaseOwner = some owner && p.leaseUntil.any alive && p.handoffPassed now

/-! ## ClaimOrdered -/

/-- The join with `ordering_streams` on `next_sequence = ordering_sequence`. -/
def Db.atCursor (db : Db) (r : EventRow) : Bool :=
  r.orderingKey.any fun k => (db.stream r.destination k).any fun st => r.orderingSequence = some st.nextSequence

def Db.claimOrderedPicked (db : Db) (now : Int) (locked : Uuid → Bool) (owner : String) (limit : Int)
    (minimumPartitionLease : Int) : List EventRow :=
  topDue limit (db.events.rows.filter fun r =>
    db.atCursor r && r.availableAt ≤ now && (r.status = .pending || r.leaseExpired now) &&
      (db.partitionOf r).any (·.authority owner now (addMS now (intervalMS minimumPartitionLease) ≤ ·)) &&
      !db.paused && !locked r.id)

def Db.claimOrdered (db : Db) (now : Int) (locked : Uuid → Bool) (owner : String) (limit eventLease : Int)
    (minimumPartitionLease : Int) : Except StoreError (Db × List RelayEvent) :=
  if limit ≤ 0 then .ok (db, []) else
  let picked := db.claimOrderedPicked now locked owner limit minimumPartitionLease
  match db.updateEvents now (fun r => r.id ∈ picked.map (·.id))
    (leaseTo owner (addMS now (intervalMS eventLease))) with
  | none => .error (.sql "claim ordered query")
  | some (db', out) => .ok (db', out.map fun r => scanEvent r ((db.partitionOf r).map (·.epoch)))

/-! ## BeginOrderedAttempt -/

def Db.beginOrderedAttempt (db : Db) (now : Int) (id : Uuid) (owner : String) (epoch maxAttempts : Int)
    (minimumPartitionLease : Int) : Except StoreError (Db × Int) :=
  match db.updateEvents now
      (fun r => r.heldBy id owner && r.leaseUntil.any (now < ·) && r.attempts < maxAttempts &&
        (db.partitionOf r).any fun p =>
          p.authority owner now (addMS now (intervalMS minimumPartitionLease) ≤ ·) && p.epoch = epoch)
      countAttempt with
  | none => .error (.sql s!"begin ordered publish attempt {id.text}")
  | some (_, []) => .error (.fenced s!"begin ordered publish attempt {id.text}")
  | some (db', r :: _) => .ok (db', r.attempts)

/-! ## The ordered marks -/

/-- The fence of the ordered marks: the caller holds the event and its partition under the claimed epoch. -/
def Db.orderedFence (db : Db) (now : Int) (event : RelayEvent) (owner : String) (r : EventRow) : Bool :=
  r.heldBy event.id owner && r.orderingSequence = some event.orderingSequence &&
    (db.partitionOf r).any fun p => p.authority owner now (now < ·) && p.epoch = event.orderingEpoch

/-- The `authority` row of MarkOrderedDelivered. -/
def Db.deliveryAuthority (db : Db) (now : Int) (event : RelayEvent) (owner : String) : Option EventRow :=
  (db.row event.id).filter fun r => db.orderedFence now event owner r && r.leaseUntil.any (now < ·)

/-- The stream row of an event that stands at its sequence. -/
def EventRow.advances (r : EventRow) (st : StreamRow) : Bool :=
  st.destination = r.destination && some st.orderingKey = r.orderingKey &&
    some st.partitionID = r.orderingPartition && some st.nextSequence = r.orderingSequence

def StreamRow.advance (now : Int) (st : StreamRow) : StreamRow :=
  { st with nextSequence := st.nextSequence + 1, updatedAt := now }

/-- One statement: the `authority` row, the stream it advances, and the event marked under the same snapshot. -/
def Db.markOrderedDelivered (db : Db) (now : Int) (event : RelayEvent) (owner : String) : Except StoreError Db :=
  let what := s!"mark ordered delivered {event.id.text}"
  match db.deliveryAuthority now event owner with
  | none => .error (.fenced what)
  | some r =>
    if db.streams.rows.any r.advances then
      match db.streams.update r.advances (StreamRow.advance now), db.updateEvents now (·.id = r.id) (deliver now) with
      | some streams, some (db', out) =>
        if out.length = 1 then .ok { db' with streams := streams } else .error (.fenced what)
      | _, _ => .error (.sql what)
    else .error (.fenced what)

def Db.markOrderedRetry (db : Db) (now : Int) (event : RelayEvent) (owner : String) (delay : Int) (lastError : Bytes) :
    Except StoreError Db :=
  db.exec now s!"mark ordered retry {event.id.text}" (· = 1) (.fenced s!"mark ordered retry {event.id.text}")
    (db.orderedFence now event owner) (reschedule now delay lastError)

def Db.markOrderedDead (db : Db) (now : Int) (event : RelayEvent) (owner : String) (lastError : Bytes) :
    Except StoreError Db :=
  db.exec now s!"mark ordered dead {event.id.text}" (· = 1) (.fenced s!"mark ordered dead {event.id.text}")
    (db.orderedFence now event owner) (kill lastError)

/-! ## What the calls do -/

section Spec

variable {db db' : Db} {now : Int} {owner : String}

theorem PartitionRow.authority_iff {alive : Int → Bool} {p : PartitionRow} :
    p.authority owner now alive = true ↔
      p.leaseOwner = some owner ∧ (∃ u, p.leaseUntil = some u ∧ alive u = true) ∧
        ∀ b, p.handoffNotBefore = some b → b ≤ now := by
  simp only [PartitionRow.authority, PartitionRow.handoffPassed, Bool.and_eq_true, decide_eq_true_eq,
    Option.any_eq_true, Option.all_eq_true, and_assoc]

theorem Db.atCursor_iff {r : EventRow} :
    db.atCursor r = true ↔ ∃ k st, r.orderingKey = some k ∧ db.stream r.destination k = some st ∧
      r.orderingSequence = some st.nextSequence := by
  simp only [Db.atCursor, Option.any_eq_true, decide_eq_true_eq]
  constructor
  · rintro ⟨k, hk, st, hst, hn⟩
    exact ⟨k, st, hk, hst, hn⟩
  · rintro ⟨k, st, hk, hst, hn⟩
    exact ⟨k, hk, st, hst, hn⟩

/-- What ClaimOrdered asks of a row, and the epoch it returns with it. -/
def Db.OrderedClaim (db : Db) (now : Int) (owner : String) (minimumPartitionLease : Int) (r : EventRow)
    (epoch : Option Int) : Prop :=
  db.atCursor r = true ∧ r.Claimable now ∧ ∃ p, db.partitionOf r = some p ∧ epoch = some p.epoch ∧
    p.authority owner now (addMS now (intervalMS minimumPartitionLease) ≤ ·) = true

theorem Db.mem_claimOrderedPicked {locked : Uuid → Bool} {limit minimumPartitionLease : Int} {r : EventRow}
    (h : r ∈ db.claimOrderedPicked now locked owner limit minimumPartitionLease) :
    r ∈ db.events.rows ∧
      db.OrderedClaim now owner minimumPartitionLease r ((db.partitionOf r).map (·.epoch)) := by
  obtain ⟨hmem, hr⟩ := List.mem_filter.mp (mem_topDue h)
  simp only [Bool.and_eq_true, Bool.or_eq_true, decide_eq_true_eq, Option.any_eq_true] at hr
  obtain ⟨⟨⟨⟨⟨hcur, -⟩, hst⟩, p, hp, hauth⟩, -⟩, -⟩ := hr
  exact ⟨hmem, hcur, hst, p, hp, by rw [hp, Option.map_some], hauth⟩

theorem Db.claimOrdered_ok {locked : Uuid → Bool} {limit eventLease minimumPartitionLease : Int}
    {evs : List RelayEvent}
    (h : db.claimOrdered now locked owner limit eventLease minimumPartitionLease = .ok (db', evs)) :
    db.Leases db' owner (addMS now (intervalMS eventLease)) (db.OrderedClaim now owner minimumPartitionLease) evs := by
  unfold Db.claimOrdered at h
  split_ifs at h with hlimit
  · obtain ⟨rfl, rfl⟩ := Prod.mk.inj (Except.ok.inj h)
    exact Db.Leases.nil db owner _ _
  · simp only at h
    split at h
    · cases h
    · rename_i db₁ out hu
      obtain ⟨rfl, rfl⟩ := Prod.mk.inj (Except.ok.inj h)
      refine (Db.updateEvents_leases (e := fun r => (db.partitionOf r).map (·.epoch))
        (fun r hr => (Db.mem_claimOrderedPicked hr).1) hu).imp ?_
      rintro r e ⟨hr, rfl⟩
      exact (Db.mem_claimOrderedPicked hr).2

theorem Db.beginOrderedAttempt_ok {id : Uuid} {epoch maxAttempts minimumPartitionLease n : Int}
    (h : db.beginOrderedAttempt now id owner epoch maxAttempts minimumPartitionLease = .ok (db', n)) :
    ∃ r p, r.heldBy id owner = true ∧ r.attempts < maxAttempts ∧ n = r.attempts + 1 ∧
      db.partitionOf r = some p ∧ p.epoch = epoch ∧
      p.authority owner now (addMS now (intervalMS minimumPartitionLease) ≤ ·) = true ∧
      db.Touches db' r countAttempt := by
  unfold Db.beginOrderedAttempt at h
  split at h
  · cases h
  · cases h
  · rename_i db₁ r' rest hu
    obtain ⟨rfl, rfl⟩ := Prod.mk.inj (Except.ok.inj h)
    obtain ⟨r, -, hp, -, rfl, ht⟩ := Db.updateEvents_one (i := id) (fun x hx => by
      simp only [Bool.and_eq_true] at hx
      exact (EventRow.heldBy_iff.mp hx.1.1.1).1) hu
    simp only [Bool.and_eq_true, decide_eq_true_eq, Option.any_eq_true] at hp
    obtain ⟨⟨⟨hheld, -⟩, hlt⟩, p, hpart, hauth, hepoch⟩ := hp
    exact ⟨r, p, hheld, hlt, rfl, hpart, hepoch, hauth, ht⟩

/-- What the fence of the ordered marks says of the row. -/
structure Db.Fenced (db : Db) (now : Int) (event : RelayEvent) (owner : String) (r : EventRow) : Prop where
  held : r.heldBy event.id owner = true
  sequence : r.orderingSequence = some event.orderingSequence
  partition : ∃ p, db.partitionOf r = some p ∧ p.epoch = event.orderingEpoch ∧
    p.authority owner now (now < ·) = true

theorem Db.fenced_of_orderedFence {event : RelayEvent} {r : EventRow} (h : db.orderedFence now event owner r = true) :
    db.Fenced now event owner r := by
  simp only [Db.orderedFence, Bool.and_eq_true, decide_eq_true_eq, Option.any_eq_true] at h
  obtain ⟨⟨hheld, hseq⟩, p, hp, hauth, hepoch⟩ := h
  exact ⟨hheld, hseq, p, hp, hepoch, hauth⟩

theorem Db.exec_fenced {what : String} {missing : StoreError} {event : RelayEvent} {f : Progress → Progress}
    (h : db.exec now what (· = 1) missing (db.orderedFence now event owner) f = .ok db') :
    ∃ r, db.Fenced now event owner r ∧ db.Touches db' r f := by
  obtain ⟨r, -, hp, ht⟩ := Db.exec_ok (i := event.id) rfl (fun x hx =>
    (EventRow.heldBy_iff.mp (Db.fenced_of_orderedFence hx).held).1) h
  exact ⟨r, Db.fenced_of_orderedFence hp, ht⟩

/-- `db'` is `db` with the cursor of the stream of `r` moved from the sequence of `r` to the next one; ordering tables
besides are as they were. -/
structure Db.Advances (db db' : Db) (now : Int) (event : RelayEvent) (owner : String) (r : EventRow) : Prop where
  fenced : db.Fenced now event owner r
  lease : r.leaseUntil.any (now < ·) = true
  stream : ∃ st ∈ db.streams.rows, r.advances st = true
  streams : db.streams.update r.advances (StreamRow.advance now) = some db'.streams
  partitions : db'.partitions = db.partitions
  relays : db'.relays = db.relays
  control : db'.control = db.control

/-- A successful MarkOrderedDelivered moves the cursor and marks the event. -/
theorem Db.markOrderedDelivered_ok {event : RelayEvent} (h : db.markOrderedDelivered now event owner = .ok db') :
    ∃ r, db.Advances db' now event owner r ∧ db.Rewrites db' r (deliver now) := by
  unfold Db.markOrderedDelivered at h
  simp only at h
  cases ha : db.deliveryAuthority now event owner with
  | none => rw [ha] at h; cases h
  | some r =>
    rw [ha] at h
    simp only at h
    obtain ⟨hr, hfence⟩ := Option.filter_eq_some_iff.mp ha
    obtain ⟨hfence, hlease⟩ := Bool.and_eq_true_iff.mp hfence
    split_ifs at h with hany
    obtain ⟨st, hst, hadv⟩ := List.any_eq_true.mp hany
    split at h
    · rename_i streams db₁ out hs hu
      split_ifs at h with hout
      obtain rfl := Except.ok.inj h
      cases out with
      | nil => cases hout
      | cons r' rest =>
        obtain ⟨r₁, -, hr₁, -, -, ht⟩ := Db.updateEvents_one (i := r.id) (fun x hx => of_decide_eq_true hx) hu
        have hrr : r₁ = r := by
          have h1 := ht.old
          rw [of_decide_eq_true hr₁, (db.row_eq_some.mp hr).2, hr] at h1
          exact (Option.some.inj h1).symm
        subst hrr
        exact ⟨r₁, ⟨Db.fenced_of_orderedFence hfence, hlease, ⟨st, hst, hadv⟩, hs, ht.frame.partitions,
          ht.frame.relays, ht.frame.control⟩, ⟨ht.old, ht.row⟩⟩
    · cases h

end Spec

end Emitlane
