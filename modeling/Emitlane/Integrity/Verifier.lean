import Emitlane.Inbox.Store
import Emitlane.Integrity.Report
import Emitlane.Integrity.Tables
import Emitlane.Store.OrderingAdmin

/-!
# Integrity.Verifier — `Verifier.Check` of `integrity/verifier.go`

The checks read one snapshot: the catalog of the schema, and the tables.  Each is a loop over rows that adds findings
(`Accumulator.visit`); the findings of one row are a function of the row and what it is joined with.

The tables need not satisfy their constraints; where they do, at most one event is at a cursor (`expectedCount_le_one`).
-/

namespace Emitlane

/-! ## Rows -/

def PartitionRow.owned (now : Int) (p : PartitionRow) : Bool := p.leaseOwner.isSome && p.leaseUntil.any (now < ·)

def PartitionRow.inHandoff (now : Int) (p : PartitionRow) : Bool := p.handoffNotBefore.any (now < ·)

def PartitionRow.leaseShapeInvalid (p : PartitionRow) : Bool :=
  (p.leaseOwner.isNone && p.leaseUntil.isSome) || (p.leaseOwner.isSome && p.leaseUntil.isNone) ||
    p.leaseOwner.any (trimSpace · = "") || p.publishTimeoutMS.any (· ≤ 0)

/-- `ORDER BY destination, ordering_key`. -/
def StreamRow.listedBefore (a b : StreamRow) : Prop :=
  a.destination < b.destination ∨ (a.destination = b.destination ∧ a.orderingKey ≤ b.orderingKey)

instance StreamRow.decidableListedBefore : DecidableRel StreamRow.listedBefore := fun _ _ => by
  unfold StreamRow.listedBefore
  infer_instance

def Inbox.Row.leaseFields (r : Inbox.Row) : Nat :=
  (r.leaseOwner.filter (trimSpace · ≠ "")).toList.length +
    (r.leaseToken.filter (trimSpace ·.text ≠ "")).toList.length +
    r.leaseUntil.toList.length

def Inbox.Row.leaseShapeInvalid (r : Inbox.Row) : Bool :=
  (r.status = .inflight && r.leaseFields ≠ 3) || (r.status ≠ .inflight && r.leaseFields ≠ 0)

def Inbox.Row.staleLease (now : Int) (r : Inbox.Row) : Bool := r.status = .inflight && r.leaseUntil.any (· ≤ now)

def Inbox.Row.sourceFields (r : Inbox.Row) : Nat :=
  (r.sourceTopic.filter (trimSpace · ≠ "")).toList.length + r.sourcePartition.toList.length +
    r.sourceOffset.toList.length

def Inbox.Row.sourceInvalid (r : Inbox.Row) : Bool :=
  (r.sourceFields ≠ 0 && r.sourceFields ≠ 3) || r.sourcePartition.any (· < 0) ||
    r.sourceOffset.any (· < 0) || (r.sourceTimestamp.isSome && r.sourceFields ≠ 3) ||
    (r.status ≠ .processed && r.sourceFields ≠ 3)

/-- `ORDER BY consumer, event_id`. -/
def Inbox.Row.listedBefore (a b : Inbox.Row) : Prop :=
  a.consumer < b.consumer ∨ (a.consumer = b.consumer ∧ a.eventID ≤ b.eventID)

instance Inbox.Row.decidableListedBefore : DecidableRel Inbox.Row.listedBefore := fun _ _ => by
  unfold Inbox.Row.listedBefore
  infer_instance

end Emitlane

namespace Emitlane.Integrity

/-! ## Configuration -/

/-- The bounds of NewVerifier are not used: a check is what it is for any of them. -/
structure Config where
  maxFindings : Int
  presenceStaleAfter : Int
  handoffLongAfter : Int
  deriving DecidableEq

/-! ## The snapshot -/

/-- What the catalog queries return of the schema. -/
structure Catalog where
  tables : List String
  version : Int
  indexes : List String
  constraints : List String
  columns : List (String × String)

/-- The tables of the outbox are as they are; those of the Inbox keep their constraints. -/
structure Snapshot where
  catalog : Catalog
  outbox : Tables
  inbox : Inbox.Db

/-- `t` lies before `now.Add(-d)`, both in nanoseconds. -/
def olderThan (now d t : Int) : Bool := t * 1000 < now * 1000 - d

/-! ## checkSchema -/

def requiredTables : List String :=
  ["schema_migrations", "outbox_events", "inbox_events", "runtime_control", "relay_instances", "admin_audit_log",
   "ordering_streams", "ordering_partitions"]

def requiredIndexes : List String :=
  ["outbox_pending_idx", "outbox_inflight_lease_idx", "outbox_dead_idx", "outbox_created_idx",
    "outbox_status_created_idx",
   "outbox_destination_type_created_idx", "outbox_replay_batch_idx", "admin_audit_created_idx",
   "outbox_ordering_sequence_unique_idx", "outbox_ordered_claim_idx", "ordering_stream_partition_idx", "inbox_due_idx",
   "inbox_expired_lease_idx", "inbox_dead_idx", "inbox_source_unique_idx", "inbox_processed_retention_idx"]

def requiredConstraints : List String :=
  ["outbox_ordering_state_check", "ordering_stream_partition_check", "ordering_stream_start_check",
   "ordering_stream_next_check", "ordering_partition_lease_check", "ordering_partition_epoch_check",
   "inbox_status_check",
   "inbox_attempts_check", "inbox_lease_state_check", "inbox_processed_state_check", "inbox_source_metadata_check"]

def requiredColumns : List (String × List String) :=
  [("outbox_events", ["id", "destination", "status", "available_at", "lease_owner", "lease_until", "ordering_key",
      "ordering_sequence", "ordering_partition"]),
   ("runtime_control", ["singleton", "paused", "updated_at", "updated_by"]),
   ("relay_instances", ["instance_id", "last_heartbeat_at", "stopped_at", "ordering_capable"]),
   ("ordering_streams", ["destination", "ordering_key", "partition_id", "start_sequence", "next_sequence"]),
   ("ordering_partitions", ["partition_id", "lease_owner", "lease_until", "epoch", "handoff_not_before",
      "publish_timeout_ms", "updated_at"]),
   ("inbox_events", ["consumer", "event_id", "status", "attempts", "available_at", "lease_owner", "lease_token",
      "lease_until", "processed_at", "source_topic", "source_partition", "source_offset"])]

def schemaMismatch (message : String) (expected observed : Scalar) : Finding :=
  { code := .schemaVersionMismatch, severity := .violation, message := message, expected := .scalar expected,
    observed := .scalar observed }

/-- A required name that is not there. -/
def missingName (kind : String) (present : List String) (name : String) : List Finding :=
  finding (name ∉ present) (schemaMismatch s!"required v4 {kind} is missing" (.text name) (.text "missing"))

/-- The names of the required columns, with their table. -/
def requiredColumnNames : List (String × String) :=
  requiredColumns.flatMap fun x => x.2.map fun column => (x.1, column)

def schemaFindings (c : Catalog) : List Finding :=
  requiredTables.flatMap (missingName "table" c.tables) ++
    finding ("schema_migrations" ∈ c.tables && c.version ≠ 4)
      (schemaMismatch "applied migration version does not match this binary" (.int 4) (.int c.version)) ++
    requiredIndexes.flatMap (missingName "index" c.indexes) ++
    requiredConstraints.flatMap (missingName "constraint" c.constraints) ++
    requiredColumnNames.flatMap fun x => finding (x ∉ c.columns)
      (schemaMismatch "required v4 column is missing" (.text s!"{x.1}.{x.2}") (.text "missing"))

/-- The findings, and whether the tables can be read. -/
def checkSchema (c : Catalog) (a : Accumulator) : Accumulator × Bool :=
  (a.addAll (schemaFindings c),
    requiredTables.all (· ∈ c.tables) && requiredColumnNames.all (· ∈ c.columns))

/-! ## checkRuntimeControl -/

def controlCounts (total singleton blank : Nat) : Detail :=
  .fields [("rows", .int total), ("singleton_rows", .int singleton), ("blank_actors", .int blank)]

def checkRuntimeControl (rows : List ControlRow) (a : Accumulator) : Accumulator :=
  let total := rows.length
  let singleton := rows.countP (·.singleton)
  let invalidActor := rows.countP fun r => btrim r.updatedBy = ""
  a.addAll (finding (total ≠ 1 || singleton ≠ 1 || invalidActor ≠ 0)
    { code := .runtimeControlInvalid, severity := .violation, message := "runtime-control singleton is invalid",
      expected := controlCounts 1 1 0, observed := controlCounts total singleton invalidActor })

/-! ## checkPartitions -/

/-- The lease names a relay that is not available. -/
def ownerStale (now : Int) (config : Config) (relay : Option RelayRow) : Bool :=
  relay.all fun r => r.stoppedAt.isSome || !r.orderingCapable ||
    olderThan now config.presenceStaleAfter r.lastHeartbeatAt

def partitionFinding (p : PartitionRow) (code : Code) (severity : Severity) (message : String)
    (expected observed : Detail) : Finding :=
  { code := code, severity := severity, message := message, partitionID := some p.id, expected := expected,
    observed := observed }

def partitionFindings (db : Tables) (now : Int) (config : Config) (p : PartitionRow) : List Finding :=
  finding (p.id < 0 || (Ordering.partitionCount : Int) ≤ p.id)
      (partitionFinding p .partitionIDInvalid .violation "unexpected ordering partition ID" (.scalar (.text "0..63"))
        (.scalar (.int p.id))) ++
    finding (p.epoch < 0)
      (partitionFinding p .partitionEpochInvalid .violation "ordering partition epoch is negative"
        (.scalar (.text ">= 0")) (.scalar (.int p.epoch))) ++
    finding (p.leaseShapeInvalid)
      (partitionFinding p .partitionLeaseShapeInvalid .violation "ordering partition lease fields form an invalid shape"
        .nil .nil) ++
    finding (p.owned now && ownerStale now config (p.leaseOwner.bind db.relay))
      (partitionFinding p .partitionOwnerStale .warning "active partition lease names an unavailable Relay"
        .nil .nil) ++
    finding (p.inHandoff now && olderThan now config.handoffLongAfter p.updatedAt)
      (partitionFinding p .partitionHandoffOverdue .warning
        "ordering partition handoff has remained pending beyond the diagnostic threshold" .nil
        (.scalar (.time (p.handoffNotBefore.getD 0))))

def countPartition (now : Int) (p : PartitionRow) (s : Summary) : Summary :=
  { s with
    orderingPartitions := s.orderingPartitions + 1
    ownedPartitions := s.ownedPartitions + if p.owned now then 1 else 0
    handoffPartitions := s.handoffPartitions + if p.inHandoff now then 1 else 0 }

/-- The partition ids of the seed. -/
def partitionIDs : List Int := (List.range Ordering.partitionCount).map fun (i : Nat) => (i : Int)

/-- The findings after the loop; `seen` are the ids of its rows. -/
def seedFindings (seen : List Int) : List Finding :=
  finding (seen.dedup.length ≠ Ordering.partitionCount)
      { code := .partitionCountInvalid, severity := .violation, message := "ordering partition seed count is invalid",
        expected := .scalar (.int Ordering.partitionCount), observed := .scalar (.int seen.dedup.length) } ++
    partitionIDs.flatMap fun id => finding (id ∉ seen)
      { code := .partitionIDInvalid, severity := .violation, message := "required ordering partition ID is missing",
        partitionID := some id, expected := .scalar (.int id), observed := .scalar (.text "missing") }

def checkPartitions (db : Tables) (now : Int) (config : Config) (a : Accumulator) : Accumulator :=
  let rows := db.partitions.rows.insertionSort fun p q => p.id ≤ q.id
  (a.visit (countPartition now) (partitionFindings db now config) rows).addAll (seedFindings (rows.map (·.id)))

/-! ## checkRelayPresence -/

def checkRelayPresence (db : Tables) (now : Int) (config : Config) (a : Accumulator) : Accumulator :=
  a.visit (fun _ s => { s with staleRelays := s.staleRelays + 1 })
    (fun _ => [{ code := .relayPresenceStale, severity := .warning, message := "Relay presence heartbeat is stale" }])
    (db.relays.rows.filter fun r =>
      r.stoppedAt.isNone && r.lastHeartbeatAt < addDuration now (-config.presenceStaleAfter))

/-! ## checkEvents -/

def eventFinding (r : RetainedEvent) (code : Code) (severity : Severity) (message : String)
    (expected observed : Detail) : Finding :=
  { code := code, severity := severity, message := message, destination := r.destination, eventID := r.id.text,
    expected := expected, observed := observed }

/-- The event of a stream against the cursor. -/
def cursorFindings (r : RetainedEvent) (sequence : Int) (nextSequence : Option Int) : List Finding :=
  match nextSequence with
  | none =>
    finding (r.active)
      (eventFinding r .streamCursorInvalid .violation "active ordered event has no durable stream cursor" .nil .nil)
  | some next =>
    if r.active ∧ sequence < next then
      [eventFinding r .activeSequenceBehindCursor .violation "active ordered event is below the durable stream cursor"
        (.fields [("minimum_sequence", .int next)]) (.scalar (.int sequence))]
    else
      finding (r.status = "delivered" && next ≤ sequence)
        (eventFinding r .streamCursorInvalid .violation
        "retained delivered event is not below the durable stream cursor"
          (.fields [("next_sequence_above", .int sequence)]) (.scalar (.int next)))

/-- The cursor an event joins. -/
def nextSequenceOf (db : Tables) (r : RetainedEvent) : Option Int :=
  (r.orderingKey.bind (db.stream r.destination)).map (·.nextSequence)

def eventFindings (db : Tables) (now : Int) (r : RetainedEvent) : List Finding :=
  finding (r.leaseExpired now)
      (eventFinding r .staleEventLease .warning "inflight event lease has expired and awaits recovery" .nil
        (.scalar (.time (r.leaseUntil.getD 0)))) ++
    if r.fieldsInvalid then
      [eventFinding r .orderingFieldsPartial .violation "event has incomplete or invalid ordering metadata" .nil .nil]
    else
      match r.orderingKey, r.orderingSequence, r.orderingPartition with
      | some key, some sequence, some partition =>
        let expected := Ordering.partition r.destination key
        finding (partition ≠ expected)
            { eventFinding r .orderingPartitionMismatch .violation
                "ordered event partition differs from the deterministic mapping" (.scalar (.int expected))
                (.scalar (.int partition)) with partitionID := some partition } ++
          cursorFindings r sequence (nextSequenceOf db r)
      | _, _, _ => []

/-- The WHERE clause of the mode. -/
def inspected (mode : Mode) (r : RetainedEvent) : Bool :=
  r.active || (mode ≠ .summary && (r.orderingKey.isSome || r.orderingSequence.isSome || r.orderingPartition.isSome))

def countEvents (rows : List RetainedEvent) (s : Summary) : Summary :=
  { s with
    pendingEvents := rows.countP fun r => r.status = "pending"
    inflightEvents := rows.countP fun r => r.status = "inflight"
    deadEvents := rows.countP fun r => r.status = "dead"
    activeOrderedEvents := rows.countP fun r => r.active && r.orderingKey.isSome }

def checkEvents (db : Tables) (now : Int) (mode : Mode) (a : Accumulator) : Accumulator :=
  (a.count (countEvents db.events.rows)).visit
    (fun r s => { s with staleEventLeases := s.staleEventLeases + if r.leaseExpired now then 1 else 0 })
    (eventFindings db now) ((db.events.rows.filter (inspected mode)).insertionSort fun r r' => r.id ≤ r'.id)

/-! ## checkInbox -/

def inboxFinding (r : Inbox.Row) (code : Code) (severity : Severity) (message : String) (expected observed : Detail) :
    Finding :=
  { code := code, severity := severity, message := message, consumer := r.consumer, eventID := r.eventID.text,
    expected := expected, observed := observed }

/-- A finding that names the source partition. -/
def inboxSourceFinding (r : Inbox.Row) (code : Code) (severity : Severity) (message : String) (observed : Detail) :
    Finding :=
  { inboxFinding r code severity message .nil observed with sourcePartition := r.sourcePartition }

/-- The switch on the status.  The default branch, INBOX_STATE_INVALID, has no value of the type left. -/
def statusFindings (r : Inbox.Row) : List Finding :=
  match r.status with
  | .pending | .inflight | .processed => []
  | .retryWait =>
    [inboxSourceFinding r .inboxRetryWait .warning "Inbox event is waiting for retry" (.scalar (.time r.availableAt))]
  | .dead => [inboxSourceFinding r .inboxDeadBlocked .warning "dead Inbox event blocks its Kafka partition" .nil]

def inboxFindings (now : Int) (r : Inbox.Row) : List Finding :=
  statusFindings r ++
    finding (r.attempts < 0)
      (inboxFinding r .inboxAttemptsInvalid .violation "Inbox attempt count is negative" (.scalar (.text ">= 0"))
        (.scalar (.int r.attempts))) ++
    finding (r.leaseShapeInvalid)
      (inboxFinding r .inboxLeaseShapeInvalid .violation "Inbox lease fields form an invalid shape" .nil .nil) ++
    finding (r.staleLease now)
      (inboxSourceFinding r .inboxStaleLease .warning "Inbox lease expired and is reclaimable"
        (.scalar (.time (r.leaseUntil.getD 0)))) ++
    finding (decide (r.status = .processed) != r.processedAt.isSome)
      (inboxFinding r .inboxProcessedTimestampInvalid .violation "Inbox processed timestamp does not match status" .nil
        .nil) ++
    finding (r.sourceInvalid)
      (inboxSourceFinding r .inboxSourceMetadataInvalid .violation "Inbox Kafka source metadata forms an invalid shape"
        .nil)

def countInbox (now : Int) (r : Inbox.Row) (s : Summary) : Summary :=
  let s := { s with inboxStaleLeases := s.inboxStaleLeases + if r.staleLease now then 1 else 0 }
  match r.status with
  | .pending => { s with inboxPending := s.inboxPending + 1 }
  | .inflight => { s with inboxInflight := s.inboxInflight + 1 }
  | .retryWait => { s with inboxRetryWait := s.inboxRetryWait + 1 }
  | .processed => { s with inboxProcessed := s.inboxProcessed + 1 }
  | .dead => { s with inboxDead := s.inboxDead + 1 }

def checkInbox (db : Inbox.Db) (now : Int) (a : Accumulator) : Accumulator :=
  a.visit (countInbox now) (inboxFindings now) (db.inbox.rows.insertionSort Inbox.Row.listedBefore)

/-! ## checkStreams -/

inductive StreamState
  | idle
  | ready
  | inflight
  | retryWait
  | gap
  | deadBlocked
  deriving DecidableEq, Repr

structure CursorObservation where
  startSequence : Int
  nextSequence : Int
  expectedCount : Nat
  expectedStatus : String
  expectedAvailableAt : Option Int
  expectedLeaseUntil : Option Int
  lowestFutureSequence : Option Int

def classifyCursor (now : Int) (o : CursorObservation) : StreamState :=
  if o.expectedCount = 0 then
    if o.lowestFutureSequence.isSome then .gap else .idle
  else
    if o.expectedStatus = "dead" then .deadBlocked
    else if o.expectedStatus = "inflight" then .inflight
    else if o.expectedStatus = "pending" then
      if o.expectedAvailableAt.any (now < ·) then .retryWait else .ready
    else .idle

/-- `MIN(x)`, where `key` gives the order. -/
def least {α β : Type} [LT β] [DecidableLT β] (key : α → β) : List α → Option α
  | [] => none
  | x :: xs =>
    match least key xs with
    | none => some x
    | some y => if key y < key x then some y else some x

/-- The active events a stream is joined with. -/
def joinedEvents (db : Tables) (st : StreamRow) : List RetainedEvent :=
  db.events.rows.filter fun r =>
    r.destination = st.destination && r.orderingKey = some st.orderingKey && r.active

def observeCursor (db : Tables) (st : StreamRow) : CursorObservation :=
  let joined := joinedEvents db st
  let expected := joined.filter fun r => r.orderingSequence = some st.nextSequence
  let future := joined.filterMap fun r => r.orderingSequence.filter (st.nextSequence < ·)
  { startSequence := st.startSequence
    nextSequence := st.nextSequence
    expectedCount := expected.length
    expectedStatus := (least id (expected.map (·.status))).getD ""
    expectedAvailableAt := least id (expected.map (·.availableAt))
    expectedLeaseUntil := least id (expected.filterMap (·.leaseUntil))
    lowestFutureSequence := least id future }

def streamFinding (st : StreamRow) (code : Code) (severity : Severity) (message : String) (expected observed : Detail) :
    Finding :=
  { code := code, severity := severity, message := message, destination := st.destination, expected := expected,
    observed := observed }

/-- The switch on the state of a stream. -/
def stateFindings (st : StreamRow) (o : CursorObservation) : StreamState → List Finding
  | .idle | .ready | .inflight => []
  | .retryWait =>
    [streamFinding st .streamRetryWait .warning "expected stream sequence is waiting for its retry time"
      (.scalar (.int o.nextSequence)) (.scalar (.time (o.expectedAvailableAt.getD 0)))]
  | .gap =>
    [streamFinding st .streamGap .warning "expected stream sequence is absent while a future sequence is retained"
      (.scalar (.int o.nextSequence)) (.scalar (.int (o.lowestFutureSequence.getD 0)))]
  | .deadBlocked =>
    [streamFinding st .streamDeadBlocked .warning "dead event blocks the expected stream sequence"
      (.scalar (.int o.nextSequence)) (.scalar (.text "dead"))]

def streamFindings (db : Tables) (now : Int) (st : StreamRow) : List Finding :=
  let o := observeCursor db st
  let expected := Ordering.partition st.destination st.orderingKey
  finding (st.partitionID ≠ expected)
      { streamFinding st .streamPartitionMismatch .violation "stream partition differs from the deterministic mapping"
          (.scalar (.int expected)) (.scalar (.int st.partitionID)) with partitionID := some st.partitionID } ++
    finding (o.startSequence ≤ 0 || o.nextSequence < o.startSequence)
      (streamFinding st .streamCursorInvalid .violation "stream cursor is outside its valid range"
        (.fields [("start_sequence", .text "> 0"), ("next_sequence", .text ">= start_sequence")])
        (.fields [("start_sequence", .int o.startSequence), ("next_sequence", .int o.nextSequence)])) ++
    finding (1 < o.expectedCount)
      (streamFinding st .expectedSequenceDuplicate .violation "multiple active events occupy the expected sequence"
        (.scalar (.int 1)) (.scalar (.int o.expectedCount))) ++
    stateFindings st o (classifyCursor now o)

def countState (s : Summary) : StreamState → Summary
  | .idle => s
  | .ready => { s with readyStreams := s.readyStreams + 1 }
  | .inflight => { s with inflightStreams := s.inflightStreams + 1, blockedStreams := s.blockedStreams + 1 }
  | .retryWait => { s with retryWaitStreams := s.retryWaitStreams + 1, blockedStreams := s.blockedStreams + 1 }
  | .gap => { s with gapStreams := s.gapStreams + 1, blockedStreams := s.blockedStreams + 1 }
  | .deadBlocked => { s with deadBlockedStreams := s.deadBlockedStreams + 1, blockedStreams := s.blockedStreams + 1 }

def countStream (db : Tables) (now : Int) (st : StreamRow) (s : Summary) : Summary :=
  countState { s with orderedStreams := s.orderedStreams + 1 } (classifyCursor now (observeCursor db st))

def checkStreams (db : Tables) (now : Int) (a : Accumulator) : Accumulator :=
  a.visit (countStream db now) (streamFindings db now) (db.streams.rows.insertionSort StreamRow.listedBefore)

/-! ## Check -/

/-- Verifier.Check on the snapshot of a transaction that began at `now`. -/
def check (config : Config) (mode : Mode) (startedAt finishedAt now : Int) (snapshot : Snapshot) :
    Except String Report :=
  if mode ≠ .summary ∧ mode ≠ .full then
    .error s!"integrity: unsupported check mode {quote (bytes mode.text)}"
  else
  let db := snapshot.outbox
  let (a, runtimeReady) := checkSchema snapshot.catalog (newAccumulator mode config.maxFindings.toNat startedAt)
  let a := if runtimeReady then
      checkStreams db now (checkInbox snapshot.inbox now (checkEvents db now mode (checkRelayPresence db now config
        (checkPartitions db now config (checkRuntimeControl db.control a)))))
    else a
  .ok (a.finish finishedAt)

/-! ## The events at a cursor -/

/-- The active events of a stream, in a table with its constraints. -/
theorem joinedEvents_eq (db : Db) (st : StreamRow) : joinedEvents db st =
    ((db.streamEvents st).filter fun r => r.status ≠ .delivered).map EventRow.retained := by
  have hactive : ∀ r : EventRow, r.retained.active = decide (r.status ≠ .delivered) := fun r =>
    Bool.eq_iff_iff.mpr (EventRow.retained_active.trans decide_eq_true_iff.symm)
  show (db.events.rows.map EventRow.retained).filter _ = _
  rw [List.filter_map, Db.streamEvents, List.filter_filter]
  congr 1
  refine List.filter_congr fun r _ => ?_
  rw [← hactive, Bool.and_comm]
  rfl

theorem length_le_one {α : Type} {l : List α} (hnodup : l.Nodup) (hext : ∀ x ∈ l, ∀ y ∈ l, x = y) :
    l.length ≤ 1 := by
  rcases l with _ | ⟨x, _ | ⟨y, l⟩⟩
  · exact Nat.zero_le _
  · exact le_rfl
  · obtain rfl := hext x List.mem_cons_self y (List.mem_cons_of_mem _ List.mem_cons_self)
    exact absurd List.mem_cons_self (List.nodup_cons.mp hnodup).1

/-- The unique index leaves at most one event at the cursor. -/
theorem expectedCount_le_one (db : Db) (st : StreamRow) : (observeCursor db st).expectedCount ≤ 1 := by
  have hrows : db.events.rows.Nodup := db.events.ok.1.of_map _
  show ((joinedEvents db st).filter fun r => r.orderingSequence = some st.nextSequence).length ≤ 1
  rw [joinedEvents_eq, List.filter_map, List.length_map]
  refine length_le_one (((hrows.filter _).filter _).filter _) fun x hx y hy => ?_
  simp only [Db.streamEvents, List.mem_filter, Bool.and_eq_true, decide_eq_true_eq] at hx hy
  obtain ⟨⟨⟨hxmem, hxd, hxk⟩, -⟩, hxn⟩ := hx
  obtain ⟨⟨⟨hymem, hyd, hyk⟩, -⟩, hyn⟩ := hy
  have hsequence : x.orderingSequence = y.orderingSequence := (of_decide_eq_true hxn).trans (of_decide_eq_true hyn).symm
  refine db.event_sequence_ext hxmem hymem ?_
  simp [EventRow.sameSequence, hxd, hyd, hxk, hyk, hsequence]

/-! ## The violations of the checks -/

section Violations

variable {db : Tables} {now : Int} {config : Config} {a : Accumulator}

theorem violations_checkPartitions : (checkPartitions db now config a).violations =
    a.violations + violationsIn (db.partitions.rows.flatMap (partitionFindings db now config)) +
      violationsIn (seedFindings ((db.partitions.rows.insertionSort fun p q => p.id ≤ q.id).map (·.id))) := by
  unfold checkPartitions
  dsimp only
  rw [violations_addAll]
  congr 1
  exact violations_visit_sort (by intros; rfl) _

/-- A stale relay is no violation. -/
theorem violations_checkRelayPresence : (checkRelayPresence db now config a).violations = a.violations := by
  unfold checkRelayPresence
  rw [violations_visit (by intros; rfl), violationsIn_eq_zero.mpr, Nat.add_zero]
  exact quiet_flatMap.mpr fun _ _ => by simp

theorem violations_countInbox (r : Inbox.Row) (s : Summary) : (countInbox now r s).violations = s.violations := by
  unfold countInbox
  dsimp only
  split <;> rfl

theorem violations_checkInbox {inbox : Inbox.Db} : (checkInbox inbox now a).violations =
    a.violations + violationsIn (inbox.inbox.rows.flatMap (inboxFindings now)) :=
  violations_visit_sort violations_countInbox _

theorem violations_checkEvents (mode : Mode) : (checkEvents db now mode a).violations =
    a.violations + violationsIn ((db.events.rows.filter (inspected mode)).flatMap (eventFindings db now)) :=
  violations_visit_sort (by intros; rfl) _

theorem violations_countStream (st : StreamRow) (s : Summary) :
    (countStream db now st s).violations = s.violations := by
  unfold countStream countState
  split <;> rfl

theorem violations_checkStreams : (checkStreams db now a).violations =
    a.violations + violationsIn (db.streams.rows.flatMap (streamFindings db now)) :=
  violations_visit_sort violations_countStream _

end Violations

end Emitlane.Integrity
