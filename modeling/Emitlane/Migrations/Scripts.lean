import Emitlane.Lib.Ddl

/-!
# Migrations.Scripts — the embedded migrations

The statements of `migrations/*.sql` in their order, one list for each file.  An ALTER TABLE with several clauses is
one statement for each clause.  Column types are left out; an instant is an integer, JSON and UUID values are texts.

* `catalogAt v`: the catalog of schema version `v`, as the up scripts make it.
* `catalog_up`, `catalog_down`: each down script takes back what its up script did.
-/

namespace Emitlane.Migrations

open Ddl

/-- The names of the scripts. -/
inductive Name
  -- tables
  | schema_migrations | outbox_events | inbox_events | runtime_control | relay_instances | admin_audit_log
  | ordering_streams | ordering_partitions
  -- columns
  | version | applied_at | id | destination | event_type | message_key | payload | content_type | headers
  | schema_version | correlation_id | causation_id | traceparent | tracestate | status | attempts | available_at
  | lease_owner | lease_until | last_error | created_at | delivered_at | consumer | event_id | processed_at | singleton
  | paused | reason | updated_at | updated_by | instance_id | hostname | started_at | last_heartbeat_at | stopped_at
  | action | actor | request_id | target_event_id | replay_batch_id | details | replayed_from_event_id | ordering_key
  | ordering_sequence | ordering_partition | ordering_capable | partition_id | start_sequence | next_sequence | epoch
  | handoff_not_before | publish_timeout_ms | lease_token | first_seen_at | source_topic | source_partition
  | source_offset | source_timestamp
  -- constraints
  | outbox_destination_check | outbox_event_type_check | outbox_content_type_check | outbox_headers_object_check
  | outbox_schema_version_check | outbox_status_check | outbox_attempts_check | outbox_lease_state_check
  | outbox_delivery_state_check | outbox_ordering_state_check | inbox_consumer_check | inbox_status_check
  | inbox_attempts_check | inbox_lease_state_check | inbox_processed_state_check | inbox_source_metadata_check
  | runtime_control_singleton_check | runtime_control_actor_check | relay_instance_id_check | relay_hostname_check
  | relay_version_check | admin_audit_action_check | admin_audit_actor_check | admin_audit_details_object_check
  | ordering_stream_destination_check | ordering_stream_key_check | ordering_stream_partition_check
  | ordering_stream_start_check | ordering_stream_next_check | ordering_partition_id_check
  | ordering_partition_lease_check | ordering_partition_epoch_check | ordering_partition_publish_timeout_check
  -- indexes
  | outbox_pending_idx | outbox_inflight_lease_idx | outbox_dead_idx | outbox_created_idx | outbox_status_created_idx
  | outbox_destination_type_created_idx | outbox_replay_batch_idx | admin_audit_created_idx
  | outbox_ordering_sequence_unique_idx | outbox_ordered_claim_idx | ordering_stream_partition_idx | inbox_due_idx
  | inbox_expired_lease_idx | inbox_dead_idx | inbox_source_unique_idx | inbox_processed_retention_idx
  -- functions and triggers
  | headers_are_strings | jsonb_is_object | guard_ordered_event_claim | guard_inbox_legacy_insert
  | outbox_ordered_claim_guard | inbox_legacy_insert_guard
  deriving DecidableEq

/-! ## Columns -/

/-- A column that may be NULL. -/
def optional (name : Name) : Column Name := ⟨name, false, .value .null⟩

/-- NOT NULL without a default. -/
def required (name : Name) : Column Name := ⟨name, true, .value .null⟩

/-- NOT NULL with a default. -/
def defaulted (name : Name) (v : Value) : Column Name := ⟨name, true, .value v⟩

/-- `TIMESTAMPTZ NOT NULL DEFAULT NOW()`. -/
def stamped (name : Name) : Column Name := ⟨name, true, .now⟩

/-- `BTRIM(c) <> ''`. -/
def filled (c : Name) : Cond Name := .not (.blank c)

def notNull (c : Name) : Cond Name := .not (.isNull c)

def is (c : Name) (s : String) : Cond Name := .eq c (.text s)

/-! ## schema_migrations -/

def schemaMigrations : Table Name where
  name := .schema_migrations
  columns := [required .version, stamped .applied_at]
  key := [.version]
  checks := []

/-- `ensureMigrations`. -/
def ensureMigrations : List (Stmt Name) := [.createSchema, .createTable schemaMigrations true]

/-! ## 000001_init -/

def outboxEvents : Table Name where
  name := .outbox_events
  columns :=
    [required .id, required .destination, required .event_type, optional .message_key, required .payload,
     defaulted .content_type (.text "application/json"), defaulted .headers (.text "\x7b\x7d"),
     defaulted .schema_version (.int 1), optional .correlation_id, optional .causation_id, optional .traceparent,
     optional .tracestate, defaulted .status (.text "pending"), defaulted .attempts (.int 0), stamped .available_at,
     optional .lease_owner, optional .lease_until, optional .last_error, stamped .created_at, optional .delivered_at]
  key := [.id]
  checks :=
    [(.outbox_destination_check, filled .destination),
     (.outbox_event_type_check, filled .event_type),
     (.outbox_content_type_check, filled .content_type),
     (.outbox_headers_object_check, .call .headers_are_strings .headers),
     (.outbox_schema_version_check, .ge .schema_version 1),
     (.outbox_attempts_check, .ge .attempts 0),
     (.outbox_status_check, .mem .status [.text "pending", .text "inflight", .text "delivered", .text "dead"]),
     (.outbox_lease_state_check,
       .or (.and (.and (is .status "inflight") (notNull .lease_owner)) (notNull .lease_until))
         (.and (.and (.not (is .status "inflight")) (.isNull .lease_owner)) (.isNull .lease_until))),
     (.outbox_delivery_state_check, .iff (is .status "delivered") (notNull .delivered_at))]

def inboxEvents : Table Name where
  name := .inbox_events
  columns := [required .consumer, required .event_id, stamped .processed_at]
  key := [.consumer, .event_id]
  checks := [(.inbox_consumer_check, filled .consumer)]

/-- An index that is not unique. -/
def index (name table : Name) (columns : List Name) (pred : Cond Name) : Stmt Name :=
  .createIndex ⟨name, table, columns, false, pred⟩

def up1 : List (Stmt Name) :=
  [.createSchema,
   .createFunction .headers_are_strings,
   .createTable outboxEvents false,
   index .outbox_pending_idx .outbox_events [.available_at, .created_at, .id] (is .status "pending"),
   index .outbox_inflight_lease_idx .outbox_events [.lease_until] (is .status "inflight"),
   index .outbox_dead_idx .outbox_events [.created_at] (is .status "dead"),
   .createTable inboxEvents false]

def down1 : List (Stmt Name) :=
  [.dropTable .inbox_events,
   .dropTable .outbox_events,
   .dropFunction .headers_are_strings,
   .dropTable .schema_migrations,
   .dropSchema]

/-! ## 000002_operability -/

def runtimeControl : Table Name where
  name := .runtime_control
  columns :=
    [defaulted .singleton (.bool true), defaulted .paused (.bool false), optional .reason, stamped .updated_at,
     defaulted .updated_by (.text "migration")]
  key := [.singleton]
  checks :=
    [(.runtime_control_singleton_check, .isTrue .singleton), (.runtime_control_actor_check, filled .updated_by)]

def relayInstances : Table Name where
  name := .relay_instances
  columns :=
    [required .instance_id, required .hostname, required .version, required .started_at,
     required .last_heartbeat_at, optional .stopped_at]
  key := [.instance_id]
  checks :=
    [(.relay_instance_id_check, filled .instance_id), (.relay_hostname_check, filled .hostname),
     (.relay_version_check, filled .version)]

def adminAuditLog : Table Name where
  name := .admin_audit_log
  columns :=
    [required .id, required .action, required .actor, optional .reason, optional .request_id,
     optional .target_event_id, optional .replay_batch_id, defaulted .details (.text "\x7b\x7d"), stamped .created_at]
  key := [.id]
  checks :=
    [(.admin_audit_action_check, filled .action), (.admin_audit_actor_check, filled .actor),
     (.admin_audit_details_object_check, .call .jsonb_is_object .details)]

def up2Outbox : List (Stmt Name) :=
  [.addColumn .outbox_events (optional .replayed_from_event_id),
   .addColumn .outbox_events (optional .replay_batch_id),
   index .outbox_created_idx .outbox_events [.created_at, .id] .always,
   index .outbox_status_created_idx .outbox_events [.status, .created_at, .id] .always,
   index .outbox_destination_type_created_idx .outbox_events [.destination, .event_type, .created_at, .id] .always,
   index .outbox_replay_batch_idx .outbox_events [.replay_batch_id, .created_at, .id] (notNull .replay_batch_id),
   .createTable runtimeControl false]

def up2Tables : List (Stmt Name) :=
  [.createTable relayInstances false,
   .createTable adminAuditLog false,
   index .admin_audit_created_idx .admin_audit_log [.created_at, .id] .always]

def up2 : List (Stmt Name) := up2Outbox ++ .insert .runtime_control [[(.singleton, .bool true)]] true :: up2Tables

/-- `DELETE FROM emitlane.schema_migrations WHERE version = v`. -/
def forget (v : Int) : Stmt Name := .delete .schema_migrations (.eq .version (.int v))

def down2 : List (Stmt Name) :=
  [.dropIndex .admin_audit_created_idx,
   .dropTable .admin_audit_log,
   .dropTable .relay_instances,
   .dropTable .runtime_control,
   .dropIndex .outbox_replay_batch_idx,
   .dropIndex .outbox_destination_type_created_idx,
   .dropIndex .outbox_status_created_idx,
   .dropIndex .outbox_created_idx,
   .dropColumn .outbox_events .replay_batch_id,
   .dropColumn .outbox_events .replayed_from_event_id,
   forget 2]

/-! ## 000003_ordering -/

def orderingStateCheck : Cond Name :=
  .or (.and (.and (.isNull .ordering_key) (.isNull .ordering_sequence)) (.isNull .ordering_partition))
    (.and (.and (.and (notNull .ordering_key) (filled .ordering_key)) (.ge .ordering_sequence 1))
      (.and (.ge .ordering_partition 0) (.le .ordering_partition 63)))

def orderingStreams : Table Name where
  name := .ordering_streams
  columns :=
    [required .destination, required .ordering_key, required .partition_id, required .start_sequence,
     required .next_sequence, stamped .created_at, stamped .updated_at]
  key := [.destination, .ordering_key]
  checks :=
    [(.ordering_stream_destination_check, filled .destination),
     (.ordering_stream_key_check, filled .ordering_key),
     (.ordering_stream_partition_check, .and (.ge .partition_id 0) (.le .partition_id 63)),
     (.ordering_stream_start_check, .ge .start_sequence 1),
     (.ordering_stream_next_check, .geCol .next_sequence .start_sequence)]

def orderingPartitions : Table Name where
  name := .ordering_partitions
  columns :=
    [required .partition_id, optional .lease_owner, optional .lease_until, defaulted .epoch (.int 0),
     optional .handoff_not_before, optional .publish_timeout_ms, stamped .updated_at]
  key := [.partition_id]
  checks :=
    [(.ordering_partition_id_check, .and (.ge .partition_id 0) (.le .partition_id 63)),
     (.ordering_partition_epoch_check, .ge .epoch 0),
     (.ordering_partition_publish_timeout_check,
       .or (.isNull .publish_timeout_ms) (.ge .publish_timeout_ms 1)),
     (.ordering_partition_lease_check,
       .or (.and (.isNull .lease_owner) (.isNull .lease_until))
         (.and (.and (notNull .lease_owner) (filled .lease_owner)) (notNull .lease_until)))]

def orderingSequenceIndex : Index Name where
  name := .outbox_ordering_sequence_unique_idx
  table := .outbox_events
  columns := [.destination, .ordering_key, .ordering_sequence]
  unique := true
  pred := notNull .ordering_key

/-- `SELECT value::SMALLINT FROM generate_series(0, 63) AS value`. -/
def partitionSeed : List (Row Name) := (List.range 64).map fun i : Nat => [(.partition_id, Value.int i)]

def up3Columns : List (Stmt Name) :=
  [.addColumn .outbox_events (optional .ordering_key),
   .addColumn .outbox_events (optional .ordering_sequence),
   .addColumn .outbox_events (optional .ordering_partition)]

def up3Tables : List (Stmt Name) :=
  [index .outbox_ordered_claim_idx .outbox_events
     [.ordering_partition, .ordering_sequence, .available_at, .created_at, .id]
     (.and (notNull .ordering_key) (.mem .status [.text "pending", .text "inflight"])),
   .createTable orderingStreams false,
   index .ordering_stream_partition_idx .ordering_streams [.partition_id, .destination, .ordering_key] .always,
   .createTable orderingPartitions false]

def up3Guard : List (Stmt Name) :=
  [.addColumn .relay_instances (defaulted .ordering_capable (.bool false)),
   .createFunction .guard_ordered_event_claim,
   .createTrigger ⟨.outbox_ordered_claim_guard, .outbox_events, .guard_ordered_event_claim⟩]

def up3 : List (Stmt Name) :=
  up3Columns ++ .addCheck .outbox_events .outbox_ordering_state_check orderingStateCheck ::
    .createIndex orderingSequenceIndex :: (up3Tables ++ .insert .ordering_partitions partitionSeed false :: up3Guard)

def down3 : List (Stmt Name) :=
  [.raiseIf [(.ordering_streams, .always), (.outbox_events, notNull .ordering_key)]
     "cannot downgrade EmitLane schema v3 while ordered stream state exists",
   .dropTrigger .outbox_ordered_claim_guard .outbox_events,
   .dropFunction .guard_ordered_event_claim,
   .dropIndex .ordering_stream_partition_idx,
   .dropTable .ordering_partitions,
   .dropTable .ordering_streams,
   .dropIndex .outbox_ordered_claim_idx,
   .dropIndex .outbox_ordering_sequence_unique_idx,
   .dropCheck .outbox_events .outbox_ordering_state_check,
   .dropColumn .outbox_events .ordering_partition,
   .dropColumn .outbox_events .ordering_sequence,
   .dropColumn .outbox_events .ordering_key,
   .dropColumn .relay_instances .ordering_capable,
   forget 3]

/-! ## 000004_inbox_lifecycle -/

def up4Columns : List (Stmt Name) :=
  [.dropNotNull .inbox_events .processed_at,
   .addColumn .inbox_events (defaulted .status (.text "processed")),
   .addColumn .inbox_events (defaulted .attempts (.int 0)),
   .addColumn .inbox_events (stamped .available_at),
   .addColumn .inbox_events (optional .lease_owner),
   .addColumn .inbox_events (optional .lease_token),
   .addColumn .inbox_events (optional .lease_until),
   .addColumn .inbox_events (optional .last_error),
   .addColumn .inbox_events (stamped .first_seen_at),
   .addColumn .inbox_events (stamped .updated_at),
   .addColumn .inbox_events (optional .source_topic),
   .addColumn .inbox_events (optional .source_partition),
   .addColumn .inbox_events (optional .source_offset),
   .addColumn .inbox_events (optional .source_timestamp)]

def inboxChecks : List (Name × Cond Name) :=
  [(.inbox_status_check,
     .mem .status [.text "pending", .text "inflight", .text "retry_wait", .text "processed", .text "dead"]),
   (.inbox_attempts_check, .ge .attempts 0),
   (.inbox_lease_state_check,
     .or (.and (.and (.and (.and (is .status "inflight") (notNull .lease_owner)) (filled .lease_owner))
         (notNull .lease_token)) (notNull .lease_until))
       (.and (.and (.and (.not (is .status "inflight")) (.isNull .lease_owner)) (.isNull .lease_token))
         (.isNull .lease_until))),
   (.inbox_processed_state_check, .iff (is .status "processed") (notNull .processed_at)),
   (.inbox_source_metadata_check,
     .or (.and (.and (.and (.and (.isNull .source_topic) (.isNull .source_partition)) (.isNull .source_offset))
         (.isNull .source_timestamp)) (is .status "processed"))
       (.and (.and (.and (notNull .source_topic) (filled .source_topic)) (.ge .source_partition 0))
         (.ge .source_offset 0)))]

def inboxSourceIndex : Index Name where
  name := .inbox_source_unique_idx
  table := .inbox_events
  columns := [.consumer, .source_topic, .source_partition, .source_offset]
  unique := true
  pred := notNull .source_topic

def up4Indexes : List (Stmt Name) :=
  [index .inbox_due_idx .inbox_events [.available_at, .first_seen_at, .consumer, .event_id]
     (.mem .status [.text "pending", .text "retry_wait"]),
   index .inbox_expired_lease_idx .inbox_events [.lease_until, .consumer, .event_id] (is .status "inflight"),
   index .inbox_dead_idx .inbox_events [.consumer, .updated_at, .event_id] (is .status "dead")]

def up4Guard : List (Stmt Name) :=
  [index .inbox_processed_retention_idx .inbox_events [.consumer, .processed_at, .event_id]
     (is .status "processed"),
   .createFunction .guard_inbox_legacy_insert,
   .createTrigger ⟨.inbox_legacy_insert_guard, .inbox_events, .guard_inbox_legacy_insert⟩]

def up4 : List (Stmt Name) :=
  up4Columns ++ (inboxChecks.map (fun k => .addCheck .inbox_events k.1 k.2) ++
    (up4Indexes ++ .createIndex inboxSourceIndex :: up4Guard))

/-- A row the downgrade to version 3 protects. -/
def active : Cond Name := .or (.not (is .status "processed")) (.isNull .processed_at)

def down4 : List (Stmt Name) :=
  [.raiseIf [(.inbox_events, active)] "cannot downgrade EmitLane schema v4 while active managed Inbox state exists",
   .dropTrigger .inbox_legacy_insert_guard .inbox_events,
   .dropFunction .guard_inbox_legacy_insert,
   .dropIndex .inbox_processed_retention_idx,
   .dropIndex .inbox_source_unique_idx,
   .dropIndex .inbox_dead_idx,
   .dropIndex .inbox_expired_lease_idx,
   .dropIndex .inbox_due_idx,
   .dropCheck .inbox_events .inbox_source_metadata_check,
   .dropCheck .inbox_events .inbox_processed_state_check,
   .dropCheck .inbox_events .inbox_lease_state_check,
   .dropCheck .inbox_events .inbox_attempts_check,
   .dropCheck .inbox_events .inbox_status_check,
   .dropColumn .inbox_events .source_timestamp,
   .dropColumn .inbox_events .source_offset,
   .dropColumn .inbox_events .source_partition,
   .dropColumn .inbox_events .source_topic,
   .dropColumn .inbox_events .updated_at,
   .dropColumn .inbox_events .first_seen_at,
   .dropColumn .inbox_events .last_error,
   .dropColumn .inbox_events .lease_until,
   .dropColumn .inbox_events .lease_token,
   .dropColumn .inbox_events .lease_owner,
   .dropColumn .inbox_events .available_at,
   .dropColumn .inbox_events .attempts,
   .dropColumn .inbox_events .status,
   .setNotNull .inbox_events .processed_at,
   forget 4]

/-! ## The versions -/

/-- The body of the up file of a version. -/
def up : Nat → List (Stmt Name)
  | 1 => up1
  | 2 => up2
  | 3 => up3
  | 4 => up4
  | _ => []

/-- The body of the down file of a version. -/
def down : Nat → List (Stmt Name)
  | 1 => down1
  | 2 => down2
  | 3 => down3
  | 4 => down4
  | _ => []

/-- The catalog of a version, as the up scripts make it. -/
def catalogAt : Nat → Catalog Name
  | 0 => ⟨[schemaMigrations], [], [], []⟩
  | v + 1 => (runCatalog (up (v + 1)) (catalogAt v)).toOption.getD .empty

theorem catalog_up (v : Nat) (hv : v < 4) : runCatalog (up (v + 1)) (catalogAt v) = .ok (catalogAt (v + 1)) := by
  have hok : ∀ v < 4, (runCatalog (up (v + 1)) (catalogAt v)).isOk = true := by decide
  cases hc : runCatalog (up (v + 1)) (catalogAt v) with
  | error e =>
    have := hok v hv
    rw [hc] at this
    cases this
  | ok c =>
    show Except.ok c = .ok ((runCatalog (up (v + 1)) (catalogAt v)).toOption.getD .empty)
    rw [hc]
    rfl

theorem catalog_down : ∀ v < 4, runCatalog (down (v + 1)) (catalogAt (v + 1)) =
    .ok (if v = 0 then .empty else catalogAt v) := by decide

theorem table_history : ∀ v ≤ 4, (catalogAt v).table .schema_migrations = some schemaMigrations := by decide

end Emitlane.Migrations
