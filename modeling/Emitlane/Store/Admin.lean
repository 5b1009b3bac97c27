import Emitlane.Store.Outbox

/-!
# Store.Admin — the audited operator calls of `admin.go`

RetryDeadAudited, ReplayEvent, ReplayBatch and SetPaused.  Each runs in one transaction with its audit record, so it
is one atomic step that either does all of it or nothing.  The ids the calls draw (`newV7`) are arguments.
-/

namespace Emitlane

open Rel

def Status.text : Status → String
  | .pending => "pending"
  | .inflight => "inflight"
  | .delivered => "delivered"
  | .dead => "dead"

/-- `adminapi.Mutation`. -/
structure Mutation where
  actor : String
  reason : String
  requestID : String
  traceparent : String
  tracestate : String
  orderingMode : String
  deriving DecidableEq

/-- `adminapi.EventFilter`; the cursor is `(created_at, id)`.  The destination and the type come from a request and may
be any Go strings. -/
structure EventFilter where
  statuses : List String
  destination : Bytes
  eventType : Bytes
  createdFrom : Option Int
  createdTo : Option Int
  replayBatchID : Option Uuid
  cursor : Option (Int × Uuid)
  limit : Int

/-- `eventWhere`. -/
def EventFilter.selects (f : EventFilter) (r : EventRow) : Bool :=
  (f.statuses.isEmpty || f.statuses.contains r.status.text) &&
    (f.destination = [] || bytes r.destination = f.destination) &&
    (f.eventType = [] || bytes r.eventType = f.eventType) &&
    f.createdFrom.all (· ≤ r.createdAt) &&
    f.createdTo.all (r.createdAt < ·) &&
    f.replayBatchID.all (fun b => r.replayBatchID = some b) &&
    f.cursor.all (fun c => r.createdAt < c.1 || (r.createdAt = c.1 && r.id < c.2))

/-- The text arguments of the query. -/
def EventFilter.argsOk (f : EventFilter) : Bool := f.statuses.all textOk && argOk f.destination && argOk f.eventType

def StoreError.notFound (detail : String) : StoreError := ⟨some .errNotFound, s!"admin: not found: {detail}"⟩

def StoreError.conflict (detail : String) : StoreError := ⟨some .errConflict, s!"admin: conflict: {detail}"⟩

def Db.insertAudit (db : Db) (now : Int) (id : Uuid) (action : String) (m : Mutation) (target batch : Option Uuid) :
    Except StoreError Db :=
  match db.audit.insert
    { id := id, action := action, actor := m.actor, reason := nullString m.reason,
      requestID := nullString m.requestID, targetEventID := target, replayBatchID := batch, createdAt := now } with
  | none => .error (.sql "insert admin audit")
  | some t => .ok { db with audit := t }

/-! ## Pause -/

def Db.setPaused (db : Db) (now : Int) (paused : Bool) (m : Mutation) (auditID : Uuid) : Except StoreError Db :=
  match db.control.update (·.singleton) fun r =>
      { r with paused := paused, reason := nullString m.reason, updatedAt := now, updatedBy := m.actor } with
  | none => .error (.sql "set pause")
  | some t =>
    -- RETURNING finds no row
    if (db.control.rows.any (·.singleton)) = false then .error (.noRows "set pause")
    else { db with control := t }.insertAudit now auditID (if paused then "relay.pause" else "relay.resume") m none none

/-! ## Retry of a dead event -/

/-- The columns RetryDeadAudited resets; unlike RetryDead it also clears the error. -/
def revive (now : Int) (g : Progress) : Progress :=
  { g with status := .pending, availableAt := now, attempts := 0, leaseOwner := none, leaseUntil := none,
           lastError := none, deliveredAt := none }

def Db.retryDeadAudited (db : Db) (now : Int) (id : Uuid) (m : Mutation) (auditID : Uuid) : Except StoreError Db :=
  match db.row id with
  | none => .error (.notFound s!"event {id.text}")
  | some r =>
    if r.status ≠ .dead then .error (.conflict s!"event {id.text} is {r.status.text}, not dead") else
    match db.updateEvents now (·.id = id) (revive now) with
    | none => .error (.sql "retry dead update")
    | some (db', _) => db'.insertAudit now auditID "event.retry" m (some id) none

/-! ## Replay -/

/-- `m[k] = v` on a map kept as a list with one entry a key. -/
def setEntry (m : List (String × String)) (k v : String) : List (String × String) :=
  m.filter (·.1 ≠ k) ++ [(k, v)]

/-- The row `cloneReplay` inserts: a new unordered event that names its source. -/
def replayRow (now : Int) (source : EventRow) (eventID batchID : Uuid) (m : Mutation)
    (headers : List (String × String)) : EventRow where
  id := eventID
  destination := source.destination
  eventType := source.eventType
  messageKey := source.messageKey
  payload := source.payload
  contentType := source.contentType
  headers := headers
  schemaVersion := source.schemaVersion
  correlationID := source.correlationID
  causationID := source.causationID
  traceparent := nullString m.traceparent
  tracestate := nullString m.tracestate
  createdAt := now
  replayedFromEventID := some source.id
  replayBatchID := some batchID
  orderingKey := none
  orderingSequence := none
  orderingPartition := none
  status := .pending
  attempts := 0
  availableAt := now
  leaseOwner := none
  leaseUntil := none
  lastError := none
  deliveredAt := none

/-- The headers of the clone: an ordered source leaves its key and sequence there. -/
def replayHeaders (source : EventRow) : List (String × String) :=
  match source.orderingKey with
  | none => source.headers
  | some key =>
    let values := setEntry source.headers "emitlane-original-ordering-key" key
    match source.orderingSequence with
    | none => values
    | some n => setEntry values "emitlane-original-sequence" (toString n)

def Db.cloneReplay (db : Db) (now : Int) (source : EventRow) (eventID batchID : Uuid) (m : Mutation) :
    Except StoreError Db :=
  if source.orderingKey.isSome ∧ m.orderingMode ≠ "unordered" then
    .error (.conflict s!"ordered event {source.id.text} requires ordering_mode=unordered")
  else
    match db.events.insert (replayRow now source eventID batchID m (replayHeaders source)) with
    | none => .error (.sql s!"clone replay event {source.id.text}")
    | some t => .ok { db with events := t }

/-- `adminapi.ReplayResult`. -/
structure ReplayResult where
  replayBatchID : Uuid
  created : Nat
  eventIDs : List Uuid
  deriving DecidableEq

def Db.replayEvent (db : Db) (now : Int) (sourceID : Uuid) (m : Mutation) (eventID batchID auditID : Uuid) :
    Except StoreError (Db × ReplayResult) :=
  match db.row sourceID with
  | none => .error (.notFound s!"event {sourceID.text}")
  | some source =>
    if source.status ≠ .delivered ∧ source.status ≠ .dead then
      .error (.conflict s!"event {sourceID.text} is {source.status.text}")
    else
      ((db.cloneReplay now source eventID batchID m).bind fun db' =>
        db'.insertAudit now auditID "event.replay" m (some sourceID) (some batchID)).map fun db' =>
          (db', ⟨batchID, 1, [eventID]⟩)

/-- `ORDER BY created_at DESC, id DESC`. -/
def EventRow.newerThan (a b : EventRow) : Prop :=
  b.createdAt < a.createdAt ∨ (a.createdAt = b.createdAt ∧ b.id ≤ a.id)

instance : DecidableRel EventRow.newerThan := fun a b => by unfold EventRow.newerThan; infer_instance

/-- Clone the sources one after another, with the ids drawn for them. -/
def Db.cloneAll (db : Db) (now : Int) (batchID : Uuid) (m : Mutation) : List (EventRow × Uuid) → Except StoreError Db
  | [] => .ok db
  | (source, eventID) :: rest =>
    (db.cloneReplay now source eventID batchID m).bind fun db' => db'.cloneAll now batchID m rest

/-- The rows ReplayBatch reads: one more than the limit. -/
def Db.replaySources (db : Db) (filter : EventFilter) (limit : Int) : List EventRow :=
  ((db.events.rows.filter filter.selects).insertionSort EventRow.newerThan).take (limit + 1).toNat

def Db.replayBatch (db : Db) (now : Int) (filter : EventFilter) (m : Mutation) (limit : Int) (batchID auditID : Uuid)
    (newID : Nat → Uuid) : Except StoreError (Db × ReplayResult) :=
  if filter.argsOk = false then .error (.sql "") else
  let sources := db.replaySources filter limit
  if sources = [] then .error (.notFound "replay selector matched no eligible events")
  else if limit < sources.length then .error (.conflict s!"replay selector exceeds {limit} events")
  else
    let eventIDs := (List.range sources.length).map newID
    ((db.cloneAll now batchID m (sources.zip eventIDs)).bind fun db' =>
      db'.insertAudit now auditID "replay.batch" m none (some batchID)).map fun db' =>
        (db', ⟨batchID, sources.length, eventIDs⟩)

/-! ## Inspection and preview -/

/-- `adminapi.Event`.  The sensitive columns (key, payload, headers) are there only on request; the source encodes the
first two in base64. -/
structure AdminEvent where
  id : Uuid
  destination : String
  type : String
  contentType : String
  schemaVersion : Int
  correlationID : String
  causationID : String
  status : Status
  attempts : Int
  availableAt : Int
  leaseOwner : String
  leaseUntil : Option Int
  lastError : Bytes
  createdAt : Int
  deliveredAt : Option Int
  payloadSize : Nat
  replayedFromEventID : Option Uuid
  replayBatchID : Option Uuid
  orderingKey : String
  orderingSequence : Int
  orderingPartition : Option Int
  sensitive : Option (Bytes × Bytes × List (String × String))
  deriving DecidableEq

def scanAdminEvent (r : EventRow) (includeSensitive : Bool) : AdminEvent where
  id := r.id
  destination := r.destination
  type := r.eventType
  contentType := r.contentType
  schemaVersion := r.schemaVersion
  correlationID := deref r.correlationID
  causationID := deref r.causationID
  status := r.status
  attempts := r.attempts
  availableAt := r.availableAt
  leaseOwner := deref r.leaseOwner
  leaseUntil := r.leaseUntil
  lastError := r.lastError.getD []
  createdAt := r.createdAt
  deliveredAt := r.deliveredAt
  payloadSize := r.payload.length
  replayedFromEventID := r.replayedFromEventID
  replayBatchID := r.replayBatchID
  orderingKey := deref r.orderingKey
  orderingSequence := r.orderingSequence.getD 0
  orderingPartition := r.orderingPartition
  sensitive := if includeSensitive then some (r.messageKey.getD [], r.payload, r.headers) else none

def Db.inspectEvent (db : Db) (id : Uuid) (includeSensitive : Bool) : Except StoreError AdminEvent :=
  match db.row id with
  | none => .error (.notFound s!"event {id.text}")
  | some r => .ok (scanAdminEvent r includeSensitive)

/-- `adminapi.ReplayPreview`. -/
structure ReplayPreview where
  count : Nat
  sample : List AdminEvent
  limit : Int

/-- The count and the sample are two queries with one WHERE. -/
def Db.previewReplay (db : Db) (filter : EventFilter) (sampleLimit executionLimit : Int) :
    Except StoreError ReplayPreview :=
  if filter.argsOk = false then .error (.sql "preview replay count") else
  .ok
    { count := (db.events.rows.filter filter.selects).length
      sample := (((db.events.rows.filter filter.selects).insertionSort EventRow.newerThan).take sampleLimit.toNat).map
        (scanAdminEvent · false)
      limit := executionLimit }

/-! ## What the calls do -/

/-- `db'` is `db` with the events `rows` added. -/
structure Db.Adds (db db' : Db) (rows : List EventRow) : Prop where
  fresh : ∀ r ∈ rows, db.row r.id = none
  nodup : (rows.map (·.id)).Nodup
  row : ∀ id r, db'.row id = some r ↔ db.row id = some r ∨ (r ∈ rows ∧ r.id = id)

/-- A row nobody has tried to deliver yet. -/
def EventRow.New (r : EventRow) : Prop := r.status = .pending ∧ r.attempts = 0

section Spec

variable {db db' : Db} {now : Int}

theorem Db.row_congr (h : db'.events = db.events) (id : Uuid) : db'.row id = db.row id := by
  unfold Db.row
  rw [h]

theorem Db.Adds.nil (h : db'.events = db.events) : db.Adds db' [] :=
  ⟨by simp, by simp, fun id r => by simp [Db.row_congr h]⟩

theorem Db.Adds.append {db'' : Db} {rows rows' : List EventRow} (h : db.Adds db' rows) (h' : db'.Adds db'' rows') :
    db.Adds db'' (rows ++ rows') := by
  have hold : ∀ r ∈ rows', db.row r.id = none ∧ ∀ q ∈ rows, q.id ≠ r.id := by
    intro r hr
    have hnone := h'.fresh r hr
    constructor
    · cases hd : db.row r.id with
      | none => rfl
      | some x => rw [(h.row r.id x).mpr (.inl hd)] at hnone; cases hnone
    · intro q hq heq
      rw [(h.row r.id q).mpr (.inr ⟨hq, heq⟩)] at hnone
      cases hnone
  refine ⟨?_, ?_, ?_⟩
  · intro r hr
    rcases List.mem_append.mp hr with hr | hr
    · exact h.fresh r hr
    · exact (hold r hr).1
  · rw [List.map_append]
    refine List.Nodup.append h.nodup h'.nodup ?_
    intro x hx hx'
    obtain ⟨q, hq, rfl⟩ := List.mem_map.mp hx
    obtain ⟨r, hr, hrq⟩ := List.mem_map.mp hx'
    exact (hold r hr).2 q hq hrq.symm
  · intro id r
    rw [h'.row, h.row, List.mem_append]
    tauto

theorem Db.adds_insert {t : Table eventsSchema} {r : EventRow} (h : db.events.insert r = some t)
    (ht : db'.events = t) : db.Adds db' [r] := by
  have hn : (t.rows.map (·.id)).Nodup := t.ok.1
  rw [Table.write_rows h, List.map_append] at hn
  have hfresh : ∀ x ∈ db.events.rows, x.id ≠ r.id := by
    intro x hx heq
    exact (List.nodup_append.mp hn).2.2 x.id (List.mem_map_of_mem hx) r.id (by simp) heq
  refine ⟨?_, by simp, ?_⟩
  · intro x hx
    obtain rfl := List.mem_singleton.mp hx
    exact lookup_eq_none.mpr hfresh
  · intro id x
    rw [db'.row_eq_some, db.row_eq_some, ht, Table.mem_insert h, List.mem_singleton]
    tauto

/-- A rewrite that leaves the row not inflight passes the trigger. -/
theorem Db.guardOrderedEventClaim_of_not_inflight {old new : EventRow} (h : new.status ≠ .inflight) :
    db.guardOrderedEventClaim now old new = true := by
  simp [Db.guardOrderedEventClaim, h]

theorem Db.insertAudit_ok {id : Uuid} {action : String} {m : Mutation} {target batch : Option Uuid}
    (h : db.insertAudit now id action m target batch = .ok db') :
    db'.events = db.events ∧ db.KeepsOrdering db' := by
  unfold Db.insertAudit at h
  split at h
  · cases h
  · obtain rfl := Except.ok.inj h
    exact ⟨rfl, rfl, rfl, rfl, rfl⟩

theorem Db.setPaused_ok {paused : Bool} {m : Mutation} {auditID : Uuid}
    (h : db.setPaused now paused m auditID = .ok db') :
    db'.events = db.events ∧ db'.streams = db.streams ∧ db'.partitions = db.partitions ∧
    db'.relays = db.relays ∧
      db'.control.rows.length = db.control.rows.length := by
  unfold Db.setPaused at h
  split at h
  · cases h
  rename_i t ht
  split_ifs at h
  all_goals
    obtain ⟨he, hk⟩ := Db.insertAudit_ok h
    refine ⟨he, hk.streams, hk.partitions, hk.relays, ?_⟩
    rw [hk.control]
    exact Table.length_update ht

theorem Db.retryDeadAudited_ok {id : Uuid} {m : Mutation} {auditID : Uuid}
    (h : db.retryDeadAudited now id m auditID = .ok db') :
    ∃ r, r.id = id ∧ r.status = .dead ∧ db.Touches db' r (revive now) := by
  unfold Db.retryDeadAudited at h
  cases hr : db.row id with
  | none => rw [hr] at h; cases h
  | some r =>
    rw [hr] at h
    simp only at h
    split_ifs at h with hdead
    split at h
    · cases h
    · rename_i db₁ out hu
      obtain ⟨hevents, hkeep⟩ := Db.insertAudit_ok h
      obtain ⟨hmem, hid⟩ := db.row_eq_some.mp hr
      have hhit : db.hits now (·.id = id) (revive now) r = true := by
        refine Bool.and_eq_true_iff.mpr ⟨decide_eq_true hid, ?_⟩
        exact Db.guardOrderedEventClaim_of_not_inflight (by simp [revive])
      cases out with
      | nil =>
        have hout := (Db.updateEvents_some hu).2.1
        have : r.progress (revive now) ∈ ([] : List EventRow) := by
          rw [hout]
          exact List.mem_map_of_mem (List.mem_filter.mpr ⟨hmem, hhit⟩)
        cases this
      | cons r' rest =>
        obtain ⟨r₁, hid₁, -, -, -, ht⟩ := Db.updateEvents_one (i := id) (fun x hx => of_decide_eq_true hx) hu
        have hrr : r₁ = r := by
          have h1 := ht.old
          rw [hid₁, hr] at h1
          exact (Option.some.inj h1).symm
        subst hrr
        refine ⟨r₁, hid, not_not.mp hdead, ⟨ht.old, fun x => ?_⟩, ht.frame.trans hkeep⟩
        rw [Db.row_congr hevents, ht.row]

theorem Db.cloneReplay_ok {source : EventRow} {eventID batchID : Uuid} {m : Mutation}
    (h : db.cloneReplay now source eventID batchID m = .ok db') :
    db.Adds db' [replayRow now source eventID batchID m (replayHeaders source)] ∧ db.KeepsOrdering db' := by
  unfold Db.cloneReplay at h
  split_ifs at h
  split at h
  · cases h
  · rename_i t ht
    obtain rfl := Except.ok.inj h
    exact ⟨Db.adds_insert ht rfl, rfl, rfl, rfl, rfl⟩

/-- What a replay adds: new unordered events. -/
def EventRow.Replayed (r : EventRow) : Prop := r.New ∧ r.orderingKey = none

/-- Replays are added, and nothing else of the outbox changes. -/
def Db.AddsReplays (db db' : Db) : Prop :=
  ∃ rows, db.Adds db' rows ∧ (∀ r ∈ rows, r.Replayed) ∧ db.KeepsOrdering db'

theorem Db.AddsReplays.append {db'' : Db} (h : db.AddsReplays db') (h' : db'.AddsReplays db'') :
    db.AddsReplays db'' := by
  obtain ⟨rows, hadd, hnew, hkeep⟩ := h
  obtain ⟨rows', hadd', hnew', hkeep'⟩ := h'
  refine ⟨rows ++ rows', hadd.append hadd', fun r hr => ?_, hkeep.trans hkeep'⟩
  rcases List.mem_append.mp hr with hr | hr
  · exact hnew r hr
  · exact hnew' r hr

theorem Db.cloneReplay_adds {source : EventRow} {eventID batchID : Uuid} {m : Mutation}
    (h : db.cloneReplay now source eventID batchID m = .ok db') : db.AddsReplays db' := by
  obtain ⟨hadd, hkeep⟩ := Db.cloneReplay_ok h
  refine ⟨_, hadd, fun r hr => ?_, hkeep⟩
  obtain rfl := List.mem_singleton.mp hr
  exact ⟨⟨rfl, rfl⟩, rfl⟩

theorem Db.cloneAll_adds {batchID : Uuid} {m : Mutation} :
    ∀ {sources : List (EventRow × Uuid)} {db : Db}, db.cloneAll now batchID m sources = .ok db' →
    db.AddsReplays db'
  | [], db, h => by
    obtain rfl : db = db' := Except.ok.inj h
    exact ⟨[], Db.Adds.nil rfl, by simp, .refl db⟩
  | (source, eventID) :: rest, db, h => by
    obtain ⟨db₁, hclone, hrest⟩ := bind_eq_ok.mp h
    exact (Db.cloneReplay_adds hclone).append (Db.cloneAll_adds hrest)

theorem Db.Adds.congr {db'' : Db} {rows : List EventRow} (h : db.Adds db' rows) (he : db''.events = db'.events) :
    db.Adds db'' rows :=
  ⟨h.fresh, h.nodup, fun id r => by rw [Db.row_congr he, h.row]⟩

/-- The clones and their audit record. -/
theorem Db.audited_adds {x : Except StoreError Db} {auditID : Uuid} {action : String} {m : Mutation}
    {target batch : Option Uuid} {created result : ReplayResult}
    (hx : ∀ db₁, x = .ok db₁ → db.AddsReplays db₁)
    (h : ((x.bind fun db₁ => db₁.insertAudit now auditID action m target batch).map fun db₂ => (db₂, created)) =
      .ok (db', result)) : db.AddsReplays db' := by
  obtain ⟨db₂, hbind, heq⟩ := map_eq_ok.mp h
  obtain ⟨db₁, hclone, haudit⟩ := bind_eq_ok.mp hbind
  obtain ⟨rfl, -⟩ := Prod.mk.inj heq
  obtain ⟨rows, hadd, hnew, hkeep⟩ := hx db₁ hclone
  obtain ⟨hevents, hkeep'⟩ := Db.insertAudit_ok haudit
  exact ⟨rows, hadd.congr hevents, hnew, hkeep.trans hkeep'⟩

theorem Db.replayEvent_ok {sourceID : Uuid} {m : Mutation} {eventID batchID auditID : Uuid} {result : ReplayResult}
    (h : db.replayEvent now sourceID m eventID batchID auditID = .ok (db', result)) : db.AddsReplays db' := by
  unfold Db.replayEvent at h
  split at h
  · cases h
  split_ifs at h
  exact Db.audited_adds (fun _ hclone => Db.cloneReplay_adds hclone) h

theorem Db.replayBatch_ok {filter : EventFilter} {m : Mutation} {limit : Int} {batchID auditID : Uuid}
    {newID : Nat → Uuid} {result : ReplayResult}
    (h : db.replayBatch now filter m limit batchID auditID newID = .ok (db', result)) : db.AddsReplays db' := by
  unfold Db.replayBatch at h
  dsimp only at h
  split_ifs at h
  exact Db.audited_adds (fun _ hclone => Db.cloneAll_adds hclone) h

end Spec

end Emitlane
