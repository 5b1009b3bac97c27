import Emitlane.Handoff
import Emitlane.Inbox.Effect
import Emitlane.Integrity.Complete

/-!
# Integrity.Sound — a check of a reachable state finds no violation

The tables of a reachable state satisfy more than their constraints.  Each check is quiet by one of these facts:

* `checkRuntimeControl`: the control row is never added or removed (`Reachable.control`);
* `checkPartitions`: the 64 rows stay, and their owners are relays (`Reachable.partition_held`);
* `checkEvents`, `checkStreams`: events are aligned with the cursors (`Reachable.cursors`, `Reachable.delivered_below`)
  and streams lie in the partitions of their keys (`Reachable.placed`);
* `checkInbox`: what Claim validates stays in the rows (`Inbox.Row.Traced`).

That a delivered event lies below the cursor rests on fresh ids.  An id that comes back with an ordering key can be
delivered by the handler of the old event, which moves no cursor (`reused_id_violation`).
-/

namespace Emitlane

/-! ## Inbox rows -/

/-- What Claim validates of a row: a source topic that is not blank, with its coordinates, and an owner that is not
blank. -/
structure Inbox.Row.Traced (r : Inbox.Row) : Prop where
  source : ∀ topic, r.sourceTopic = some topic →
    trimSpace topic ≠ "" ∧ r.sourcePartition.isSome = true ∧ r.sourceOffset.isSome = true
  owner : ∀ o, r.leaseOwner = some o → trimSpace o ≠ ""

namespace Inbox

theorem Row.Traced.of_origin {r r' : Row} (h : r.Traced) (horigin : r'.toOrigin = r.toOrigin)
    (howner : ∀ o, r'.leaseOwner = some o → trimSpace o ≠ "") : r'.Traced := by
  refine ⟨fun topic ht => ?_, howner⟩
  rw [horigin] at ht ⊢
  exact h.source topic ht

/-- The calls that end a lease leave no owner. -/
theorem Row.Traced.unowned {r r' : Row} (h : r.Traced) (horigin : r'.toOrigin = r.toOrigin)
    (howner : r'.leaseOwner = none) : r'.Traced := by
  refine h.of_origin horigin fun o ho => ?_
  rw [howner] at ho
  cases ho

theorem validateClaim_ok {req : ClaimRequest} (h : validateClaim req = .ok ()) :
    trimSpace req.source.topic ≠ "" ∧ trimSpace req.leaseOwner ≠ "" := by
  unfold validateClaim at h
  split_ifs at h with hinvalid
  simp only [Bool.or_eq_true, decide_eq_true_eq, not_or] at hinvalid
  obtain ⟨⟨⟨⟨⟨-, htopic⟩, -⟩, -⟩, howner⟩, -⟩ := hinvalid
  exact ⟨htopic, howner⟩

theorem Row.Traced.token {a : Action} {now : Int} {k : Key} {token : Uuid} {f : Row → Row} {r : Row} (h : r.Traced)
    (hcall : a.tokenCall now = some (k, token, f)) : (f r).Traced := by
  cases a with
  | renew =>
    cases hcall
    exact h.of_origin rfl h.owner
  | markRetry =>
    cases hcall
    exact h.unowned rfl rfl
  | markDead =>
    cases hcall
    exact h.unowned rfl rfl
  | _ => cases hcall

theorem Effect.traced {s s' : State} {a : Action} (h : Effect s a s')
    (hi : ∀ k r, s.db.row k = some r → r.Traced) {k : Key} {r : Row} (hr : s'.db.row k = some r) : r.Traced := by
  -- the row of the call, and all others
  have hcases : ∀ {k₀ : Key} {x : Row}, (if k = k₀ then some x else s.db.row k) = some r → x.Traced →
    r.Traced := by
    intro k₀ x hr hx
    split_ifs at hr
    · exact Option.some.inj hr ▸ hx
    · exact hi k r hr
  cases h with
  | none hrows => exact hi k r ((hrows k).symm.trans hr)
  | @claim req token x _ hvalid hrow _ _ hrows =>
    obtain ⟨htopic, howner⟩ := validateClaim_ok hvalid
    refine hcases ((hrows k).symm.trans hr) ?_
    have hold : x.Traced := by
      rcases hrow with hrow | ⟨-, rfl⟩
      · exact hi _ x hrow
      · exact ⟨fun topic ht => ⟨Option.some.inj ht ▸ htopic, rfl, rfl⟩, fun o ho => by cases ho⟩
    exact hold.of_origin rfl fun o ho => Option.some.inj ho ▸ howner
  | token hcall hrow _ hrows => exact hcases ((hrows k).symm.trans hr) ((hi _ _ hrow).token hcall)
  | retryDead hrow _ hrows => exact hcases ((hrows k).symm.trans hr) ((hi _ _ hrow).unowned rfl rfl)
  | commit _ hrows =>
    rcases hrows k with hsame | ⟨w, -, hallowed, hnew, hold⟩
    · exact hi k r (hsame.symm.trans hr)
    · obtain rfl := Option.some.inj (hnew.symm.trans hr)
      rcases hallowed with ⟨now, k', rfl⟩ | ⟨now, k', token, x, -, -, -, rfl⟩
      · exact ⟨fun topic ht => (by cases ht), fun o ho => (by cases ho)⟩
      · exact (hi k x hold).unowned rfl rfl

theorem Reachable.traced {s : State} (h : Reachable s) {k : Key} {r : Row} (hr : s.db.row k = some r) : r.Traced := by
  obtain ⟨clock, hrun⟩ := h
  refine (hrun.inv (I := fun s => Inv s ∧ ∀ k r, s.db.row k = some r → r.Traced) ?_ ⟨.init clock, ?_⟩).2
    k r hr
  · rintro s a s' ⟨hinv, hi⟩ - hs
    exact ⟨hinv.next hs, fun k r hr => (effect_of_step hinv hs).traced hi hr⟩
  · intro k r hr
    cases hr

end Inbox

theorem Uuid.trimSpace_text (u : Uuid) : trimSpace u.text ≠ "" := by
  intro hblank
  have hdash : '-' ∈ u.text.toList := by simp [Uuid.text]
  exact absurd (trimBy_eq_empty.mp hblank '-' hdash) (by decide)

end Emitlane

namespace Emitlane.Integrity

open Relay

/-! ## checkInbox -/

section InboxRows

variable {r : Inbox.Row} {now : Int}

/-- The constraints of a row, as far as the check reads them. -/
structure Constrained (r : Inbox.Row) : Prop where
  attempts : 0 ≤ r.attempts
  lease : r.leaseStateCheck = true
  processed : decide (r.status = .processed) = r.processedAt.isSome
  source : r.sourceMetadataCheck = true

theorem constrained_of_check (h : r.check = true) : Constrained r := by
  simp only [Inbox.Row.check, Bool.and_eq_true, decide_eq_true_eq, beq_iff_eq] at h
  obtain ⟨⟨⟨⟨⟨-, hattempts⟩, -⟩, hlease⟩, hprocessed⟩, hsource⟩ := h
  exact ⟨hattempts, hlease, hprocessed, hsource⟩

theorem leaseShapeInvalid_eq_false (h : Constrained r) (ht : r.Traced) : r.leaseShapeInvalid = false := by
  have hlease := h.lease
  unfold Inbox.Row.leaseStateCheck at hlease
  unfold Inbox.Row.leaseShapeInvalid Inbox.Row.leaseFields
  by_cases hs : r.status = .inflight
  · simp only [hs, decide_true, Bool.true_and, ne_eq, not_true_eq_false, decide_false, Bool.false_and, Bool.or_false,
      Bool.and_eq_true, Option.any_eq_true, decide_eq_true_eq, Option.isSome_iff_exists] at hlease ⊢
    obtain ⟨⟨⟨o, ho, -⟩, token, htoken⟩, u, hu⟩ := hlease
    simp [ho, htoken, hu, Option.filter_some, ht.owner o ho, Uuid.trimSpace_text token]
  · simp only [hs, decide_false, Bool.false_and, Bool.false_or, ne_eq, not_false_eq_true, decide_true, Bool.true_and,
      Bool.and_eq_true, Option.isNone_iff_eq_none] at hlease ⊢
    obtain ⟨⟨ho, htoken⟩, hu⟩ := hlease
    simp [ho, htoken, hu]

theorem sourceInvalid_eq_false (h : Constrained r) (ht : r.Traced) : r.sourceInvalid = false := by
  have hsource := h.source
  unfold Inbox.Row.sourceMetadataCheck at hsource
  unfold Inbox.Row.sourceInvalid Inbox.Row.sourceFields
  cases htopic : r.sourceTopic with
  | none =>
    simp only [htopic, Option.isNone_none, Bool.true_and, Option.any_none, Bool.false_and, Bool.or_false,
      Bool.and_eq_true, Option.isNone_iff_eq_none, decide_eq_true_eq] at hsource
    obtain ⟨⟨⟨hp, ho⟩, hts⟩, hs⟩ := hsource
    simp [hp, ho, hts, hs]
  | some topic =>
    obtain ⟨hblank, hp, ho⟩ := ht.source topic htopic
    obtain ⟨p, hp⟩ := Option.isSome_iff_exists.mp hp
    obtain ⟨o, ho⟩ := Option.isSome_iff_exists.mp ho
    simp only [htopic, hp, ho, Option.isNone_some, Bool.false_and, Bool.false_or, Option.all_some, Bool.and_eq_true,
      decide_eq_true_eq] at hsource
    simp [hp, ho, hblank, hsource.1.2.1, hsource.2.1]

theorem quiet_inboxFindings (hcheck : r.check = true) (ht : r.Traced) : Quiet (inboxFindings now r) := by
  have h := constrained_of_check hcheck
  have hattempts := h.attempts
  have hstatus : Quiet (statusFindings r) := by
    unfold statusFindings
    split <;> simp [inboxSourceFinding, inboxFinding]
  simp only [inboxFindings, quiet_append, quiet_finding, leaseShapeInvalid_eq_false h ht, sourceInvalid_eq_false h ht,
    h.processed, bne_self_eq_false, decide_eq_true_eq]
  exact ⟨⟨⟨⟨⟨hstatus, fun hlt => by omega⟩, by simp⟩, by simp [inboxSourceFinding, inboxFinding]⟩, by simp⟩,
    by simp⟩

end InboxRows

section

variable {ι : Type} {cfg : ι → Relay.Config} {s : State ι} {now : Int} {config : Config}

/-! ## checkRuntimeControl -/

theorem violations_checkRuntimeControl (h : Reachable cfg s) (a : Accumulator) :
    (checkRuntimeControl s.db.control.rows a).violations = a.violations := by
  obtain ⟨r, hr⟩ := List.length_eq_one_iff.mp h.control
  have hcheck := s.db.control.ok.2 r (by rw [hr]; exact List.mem_singleton_self r)
  simp only [ControlRow.check, Bool.and_eq_true, decide_eq_true_eq] at hcheck
  have hquiet : ∀ f, violationsIn (finding false f) = 0 := fun f => rfl
  unfold checkRuntimeControl
  simp [hr, hcheck.1.1.1, hcheck.2, hquiet]

/-! ## checkPartitions -/

theorem quiet_partitionFindings (hvalid : ∀ i, (cfg i).Valid) (h : Reachable cfg s) {p : PartitionRow}
    (hp : p ∈ s.db.partitions.rows) : Quiet (partitionFindings s.db now config p) := by
  have hcheck := s.db.partitions.ok.2 p hp
  simp only [PartitionRow.check, Bool.and_eq_true, decide_eq_true_eq] at hcheck
  obtain ⟨⟨⟨⟨⟨⟨h0, h63⟩, hepoch⟩, -⟩, -⟩, htimeout⟩, hlease⟩ := hcheck
  have hheld := h.partition_held (s.db.partition_eq_some.mpr ⟨hp, rfl⟩)
  have hshape : p.leaseShapeInvalid = false := by
    have hms : p.publishTimeoutMS.any (· ≤ 0) = false := by
      cases hms : p.publishTimeoutMS with
      | none => rfl
      | some ms =>
        simp only [hms, Option.all_some, Bool.and_eq_true, decide_eq_true_eq] at htimeout
        simp [htimeout.1]
    unfold PartitionRow.leaseCheck at hlease
    unfold PartitionRow.leaseShapeInvalid
    cases ho : p.leaseOwner with
    | none => cases hu : p.leaseUntil <;> simp_all
    | some o =>
      obtain ⟨i, rfl, -⟩ := hheld.holder o ho
      cases hu : p.leaseUntil <;> simp_all [(hvalid i).bounds.instanceID]
  have hid : ¬ (p.id < 0 ∨ (Ordering.partitionCount : Int) ≤ p.id) := by
    unfold Ordering.partitionCount
    omega
  simp only [partitionFindings, quiet_append, quiet_finding, hshape, Bool.or_eq_true, decide_eq_true_eq]
  exact ⟨⟨⟨⟨fun hbad => absurd hbad hid, fun hlt => by omega⟩, by simp⟩, by simp [partitionFinding]⟩,
    by simp [partitionFinding]⟩

theorem quiet_seedFindings (h : Reachable cfg s) :
    Quiet (seedFindings ((s.db.partitions.rows.insertionSort fun p q => p.id ≤ q.id).map (·.id))) := by
  have hsort := (List.perm_insertionSort (fun p q : PartitionRow => p.id ≤ q.id) s.db.partitions.rows).map (·.id)
  have hseen : List.Perm _ partitionIDs := hsort.trans h.partition_ids
  have hnodup := hseen.nodup_iff.mpr (by decide : partitionIDs.Nodup)
  have hlength := hseen.length_eq
  rw [show partitionIDs.length = 64 from rfl] at hlength
  simp only [seedFindings, quiet_append, quiet_finding, quiet_flatMap, hnodup.dedup, hlength, hseen.mem_iff]
  exact ⟨by simp [Ordering.partitionCount], fun id hid => by simp [hid]⟩

/-! ## checkEvents -/

/-- Fresh ids matter for the delivered events only. -/
theorem quiet_eventFindings (h : Reachable cfg s) {r : EventRow} (hf : r.status = .delivered → FreshIDs s.hist)
    (hr : r ∈ s.db.events.rows) : Quiet (eventFindings s.db now r.retained) := by
  have hrow := s.db.row_mem hr
  have hordering := s.db.event_ordering hr
  cases hk : r.orderingKey with
  | none =>
    have hnone : r.orderingSequence = none ∧ r.orderingPartition = none := by
      unfold EventRow.orderingStateCheck at hordering
      rw [hk] at hordering
      cases hn : r.orderingSequence <;> cases hp : r.orderingPartition <;> simp [hn, hp] at hordering ⊢
    have hkey : r.retained.orderingKey = none := hk
    have hfields : r.retained.fieldsInvalid = false := by
      simp [RetainedEvent.fieldsInvalid, RetainedEvent.orderedFields, EventRow.retained, hk, hnone.1, hnone.2]
    unfold eventFindings
    rw [if_neg (by rw [hfields]; decide), hkey]
    simp [eventFinding]
  | some k =>
    obtain ⟨st, n, hst, hn, hpart, -, hbelow, -⟩ := h.cursors r.id r hrow k hk
    obtain ⟨hplace, hblank⟩ := h.placed hst
    obtain ⟨hmem, hd, rfl⟩ := s.db.stream_eq_some.mp hst
    refine (quiet_eventFindings_iff hmem hd.symm hk).mpr ⟨(fieldsInvalid_iff hr hk).mpr hblank, ?_, ?_, ?_⟩
    · show ¬ r.orderingPartition ≠ some (Ordering.partition st.destination st.orderingKey)
      rw [hpart, hplace]
      exact not_not.mpr rfl
    · rintro ⟨hactive, m, hm, hlt⟩
      obtain rfl : n = m := Option.some.inj (hn.symm.trans hm)
      exact EventRow.retained_active.mp hactive (hbelow hlt)
    · rintro ⟨hdelivered, m, hm, hle⟩
      have hdelivered : r.status = .delivered := EventRow.retained_status.mp hdelivered
      obtain ⟨st', n', hst', hn', hlt⟩ := h.delivered_below (hf hdelivered) hrow hdelivered hk
      obtain rfl : st = st' := Option.some.inj (hst.symm.trans hst')
      obtain rfl : m = n' := Option.some.inj (hm.symm.trans hn')
      omega

/-! ## checkStreams -/

theorem quiet_streamFindings (h : Reachable cfg s) {st : StreamRow} (hst : st ∈ s.db.streams.rows) :
    Quiet (streamFindings s.db now st) :=
  (quiet_streamFindings_of_constraints hst).mpr (h.placed (s.db.stream_eq_some.mpr ⟨hst, rfl, rfl⟩)).1

end

/-! ## The schema -/

/-- The catalog after migrations 1 to 4; `schema_migrations` is the table of the migrator. -/
def migratedCatalog : Catalog where
  tables := ["schema_migrations", "outbox_events", "inbox_events", "runtime_control", "relay_instances",
    "admin_audit_log",
    "ordering_streams", "ordering_partitions"]
  version := 4
  indexes :=
    ["outbox_pending_idx", "outbox_inflight_lease_idx", "outbox_dead_idx", "outbox_created_idx",
     "outbox_status_created_idx", "outbox_destination_type_created_idx", "outbox_replay_batch_idx",
     "admin_audit_created_idx", "outbox_ordering_sequence_unique_idx", "outbox_ordered_claim_idx",
     "ordering_stream_partition_idx", "inbox_due_idx", "inbox_expired_lease_idx", "inbox_dead_idx",
     "inbox_source_unique_idx", "inbox_processed_retention_idx"]
  constraints :=
    ["outbox_destination_check", "outbox_event_type_check", "outbox_content_type_check", "outbox_headers_object_check",
     "outbox_schema_version_check", "outbox_attempts_check", "outbox_status_check", "outbox_lease_state_check",
     "outbox_delivery_state_check", "outbox_ordering_state_check", "inbox_consumer_check",
     "runtime_control_singleton_check", "runtime_control_actor_check", "relay_instance_id_check",
     "relay_hostname_check",
     "relay_version_check", "admin_audit_action_check", "admin_audit_actor_check", "admin_audit_details_object_check",
     "ordering_stream_destination_check", "ordering_stream_key_check", "ordering_stream_partition_check",
     "ordering_stream_start_check", "ordering_stream_next_check", "ordering_partition_id_check",
     "ordering_partition_epoch_check", "ordering_partition_publish_timeout_check", "ordering_partition_lease_check",
     "inbox_status_check", "inbox_attempts_check", "inbox_lease_state_check", "inbox_processed_state_check",
     "inbox_source_metadata_check"]
  columns :=
    (["id", "destination", "event_type", "message_key", "payload", "content_type", "headers", "schema_version",
      "correlation_id", "causation_id", "traceparent", "tracestate", "status", "attempts", "available_at",
      "lease_owner",
      "lease_until", "last_error", "created_at", "delivered_at", "replayed_from_event_id", "replay_batch_id",
      "ordering_key", "ordering_sequence", "ordering_partition"].map fun c => ("outbox_events", c)) ++
    (["consumer", "event_id", "processed_at", "status", "attempts", "available_at", "lease_owner", "lease_token",
      "lease_until", "last_error", "first_seen_at", "updated_at", "source_topic", "source_partition", "source_offset",
      "source_timestamp"].map fun c => ("inbox_events", c)) ++
    (["singleton", "paused", "reason", "updated_at", "updated_by"].map fun c => ("runtime_control", c)) ++
    (["instance_id", "hostname", "version", "started_at", "last_heartbeat_at", "stopped_at", "ordering_capable"].map
      fun c => ("relay_instances", c)) ++
    (["destination", "ordering_key", "partition_id", "start_sequence", "next_sequence", "created_at", "updated_at"].map
      fun c => ("ordering_streams", c)) ++
    (["partition_id", "lease_owner", "lease_until", "epoch", "handoff_not_before", "publish_timeout_ms",
      "updated_at"].map
      fun c => ("ordering_partitions", c))

theorem schemaFindings_migrated : schemaFindings migratedCatalog = [] := by decide +kernel

theorem checkSchema_migrated (a : Accumulator) : checkSchema migratedCatalog a = (a, true) := by
  have hready : (requiredTables.all (· ∈ migratedCatalog.tables) &&
      requiredColumnNames.all (· ∈ migratedCatalog.columns)) = true := by decide +kernel
  unfold checkSchema
  rw [schemaFindings_migrated, hready]
  rfl

/-! ## The deployment -/

/-- The outbox and the Inbox of one database, on one clock. -/
structure Deployment (ι : Type) where
  outbox : State ι
  inbox : Inbox.State

/-- A step of the outbox or of the Inbox; time passes for both. -/
inductive Deployment.Action (ι : Type)
  | tick (d : Nat)
  | outbox (a : Emitlane.Action ι)
  | inbox (a : Inbox.Action)

section

variable {ι : Type} (cfg : ι → Relay.Config)

def Deployment.step (v : Deployment ι) : Deployment.Action ι → Option (Deployment ι)
  | .tick d =>
    (Emitlane.step cfg v.outbox (.tick d)).bind fun o => (Inbox.step v.inbox (.tick d)).map fun i => ⟨o, i⟩
  | .outbox (.tick _) | .inbox (.tick _) => none
  | .outbox a => (Emitlane.step cfg v.outbox a).map fun o => { v with outbox := o }
  | .inbox a => (Inbox.step v.inbox a).map fun i => { v with inbox := i }

def Deployment.init (ι : Type) (clock : Int) : Deployment ι := ⟨State.init ι clock, Inbox.State.init clock⟩

/-- The states reached from the migrated empty schema. -/
def Deployment.Reachable (v : Deployment ι) : Prop :=
  ∃ clock, Runs.Reach (Deployment.step cfg) Runs.Free (Deployment.init ι clock) v

/-- What a check reads. -/
def Deployment.snapshot (v : Deployment ι) : Snapshot := ⟨migratedCatalog, v.outbox.db, v.inbox.db⟩

variable {cfg} {v v' : Deployment ι}

/-- A step of a deployment is a step of each part or leaves it as it is. -/
theorem Deployment.step_parts {a : Deployment.Action ι} (h : v.step cfg a = some v') :
    (v'.outbox = v.outbox ∨ ∃ b, Emitlane.step cfg v.outbox b = some v'.outbox) ∧
      (v'.inbox = v.inbox ∨ ∃ b, Inbox.step v.inbox b = some v'.inbox) := by
  unfold Deployment.step at h
  split at h
  · obtain ⟨o, ho, h⟩ := Option.bind_eq_some_iff.mp h
    obtain ⟨i, hi, rfl⟩ := Option.map_eq_some_iff.mp h
    exact ⟨.inr ⟨_, ho⟩, .inr ⟨_, hi⟩⟩
  · cases h
  · cases h
  · obtain ⟨o, ho, rfl⟩ := Option.map_eq_some_iff.mp h
    exact ⟨.inr ⟨_, ho⟩, .inl rfl⟩
  · obtain ⟨i, hi, rfl⟩ := Option.map_eq_some_iff.mp h
    exact ⟨.inl rfl, .inr ⟨_, hi⟩⟩

theorem Deployment.Reachable.parts (h : v.Reachable cfg) :
    Emitlane.Reachable cfg v.outbox ∧ Inbox.Reachable v.inbox := by
  obtain ⟨clock, hrun⟩ := h
  refine hrun.inv (I := fun v => Emitlane.Reachable cfg v.outbox ∧ Inbox.Reachable v.inbox) ?_
    ⟨.init clock, clock, Runs.Reach.refl _⟩
  rintro v a v' ⟨hout, clock', hin⟩ - hs
  obtain ⟨ho, hi⟩ := Deployment.step_parts hs
  constructor
  · rcases ho with heq | ⟨b, hb⟩
    · exact heq ▸ hout
    · exact hout.step hb
  · rcases hi with heq | ⟨b, hb⟩
    · exact ⟨clock', heq ▸ hin⟩
    · exact ⟨clock', hin.tail trivial hb⟩

/-- The rows a check reads: a summary check leaves out the delivered ones. -/
theorem fresh_of_inspected {mode : Mode} (hmode : mode = .summary ∨ mode = .full ∧ FreshIDs v.outbox.hist)
    {r : EventRow}
    (hr : inspected mode r.retained = true) (hdelivered : r.status = .delivered) : FreshIDs v.outbox.hist := by
  rcases hmode with rfl | ⟨-, hf⟩
  · have hactive : r.retained.active = true := by simpa [inspected] using hr
    exact absurd hdelivered (EventRow.retained_active.mp hactive)
  · exact hf

/-- **No false alarm**: with valid configurations a summary check finds no violation in any reachable state, at any
database time, and neither does a full check if no event id has come back. -/
theorem no_false_alarm (hvalid : ∀ i, (cfg i).Valid) (h : v.Reachable cfg) (config : Config) (mode : Mode)
    (hmode : mode = .summary ∨ mode = .full ∧ FreshIDs v.outbox.hist) (startedAt finishedAt now : Int) :
    ∃ report, check config mode startedAt finishedAt now v.snapshot = .ok report ∧
      report.summary.violations = 0 ∧ exitCode report false = 0 := by
  obtain ⟨hout, hin⟩ := h.parts
  have hknown : ¬ (mode ≠ .summary ∧ mode ≠ .full) :=
    fun hneither => hmode.elim hneither.1 fun h => hneither.2 h.1
  have hpartitions : violationsIn
      (v.outbox.db.tables.partitions.rows.flatMap (partitionFindings v.outbox.db now config)) = 0 :=
    violationsIn_eq_zero.mpr (quiet_flatMap.mpr fun _ hp => quiet_partitionFindings hvalid hout hp)
  have hseed : violationsIn (seedFindings
      ((v.outbox.db.tables.partitions.rows.insertionSort fun p q => p.id ≤ q.id).map (·.id))) = 0 :=
    violationsIn_eq_zero.mpr (quiet_seedFindings hout)
  have hevents : violationsIn ((v.outbox.db.tables.events.rows.filter (inspected mode)).flatMap
      (eventFindings v.outbox.db now)) = 0 := by
    refine violationsIn_eq_zero.mpr (quiet_flatMap.mpr fun x hx => ?_)
    obtain ⟨hmem, hinspected⟩ := List.mem_filter.mp hx
    obtain ⟨r, hr, rfl⟩ := Db.mem_retained.mp hmem
    exact quiet_eventFindings hout (fresh_of_inspected hmode hinspected) hr
  have hinbox : violationsIn (v.inbox.db.inbox.rows.flatMap (inboxFindings now)) = 0 :=
    violationsIn_eq_zero.mpr (quiet_flatMap.mpr fun r hr => quiet_inboxFindings (v.inbox.db.inbox.ok.2.1 r hr)
      (hin.traced (Inbox.Db.row_eq_some.mpr ⟨hr, rfl⟩)))
  have hstreams : violationsIn (v.outbox.db.tables.streams.rows.flatMap (streamFindings v.outbox.db now)) = 0 :=
    violationsIn_eq_zero.mpr (quiet_flatMap.mpr fun _ hst => quiet_streamFindings hout hst)
  have hzero : ∀ a, (checkStreams v.outbox.db now (checkInbox v.inbox.db now (checkEvents v.outbox.db now mode
      (checkRelayPresence v.outbox.db now config (checkPartitions v.outbox.db now config
        (checkRuntimeControl v.outbox.db.control.rows a)))))).violations = a.violations := by
    intro a
    rw [violations_checkStreams, violations_checkInbox, violations_checkEvents, violations_checkRelayPresence,
      violations_checkPartitions, violations_checkRuntimeControl hout, hpartitions, hseed, hevents, hinbox, hstreams]
    rfl
  have hcheck : ∃ a : Accumulator, check config mode startedAt finishedAt now v.snapshot =
    .ok (a.finish finishedAt) ∧
      a.violations = 0 := by
    unfold check Deployment.snapshot
    rw [if_neg hknown]
    simp only [checkSchema_migrated, if_true]
    exact ⟨_, rfl, hzero _⟩
  obtain ⟨a, ha, hviolations⟩ := hcheck
  exact ⟨_, ha, hviolations, exitCode_of_quiet hviolations⟩

end

/-! ## Examples -/

/-- A step of the outbox in a deployment. -/
def ofOutbox {ι : Type} : Emitlane.Action ι → Deployment.Action ι
  | .tick d => .tick d
  | a => .outbox a

def exampleConfig : Config := { maxFindings := 100, presenceStaleAfter := 30 * second, handoffLongAfter := 60 * second }

/-- A stream with one delivered and one pending event, and a claimed Inbox event. -/
theorem no_false_alarm_delivery : ∃ (v : Deployment Unit) (report : Report), v.Reachable exampleRelay ∧
    v.outbox.db.events.rows.length = 2 ∧ v.inbox.db.inbox.rows.length = 1 ∧
    check exampleConfig .full 0 0 v.outbox.clock v.snapshot = .ok report ∧ report.summary.violations = 0 := by
  obtain ⟨v, hrun, hp⟩ := Runs.exists_of_exec (Deployment.step exampleRelay) (Deployment.init Unit 0)
    (exampleOrderedDelivery.map ofOutbox ++ [.inbox (.claim (Inbox.exampleClaim "worker") 1)])
    (fun v => FreshIDs v.outbox.hist && (v.outbox.db.events.rows.length = 2 && v.inbox.db.inbox.rows.length = 1))
    (by decide +kernel)
  simp only [Bool.and_eq_true, decide_eq_true_eq] at hp
  obtain ⟨hfresh, hevents, hinbox⟩ := hp
  have hreach : v.Reachable exampleRelay := ⟨0, hrun⟩
  obtain ⟨report, hreport, hviolations, -⟩ := no_false_alarm (by decide +kernel) hreach exampleConfig .full
    (.inr ⟨rfl, hfresh⟩) 0 0 v.outbox.clock
  exact ⟨v, report, hreach, hevents, hinbox, hreport, hviolations⟩

/-- An id comes back with an ordering key: the old handler has delivered the event at the cursor. -/
theorem reused_id_violation : (∀ i, (exampleRelay i).Valid) ∧ ∃ (v : Deployment Unit) (report : Report),
    v.Reachable exampleRelay ∧ check exampleConfig .full 0 0 v.outbox.clock v.snapshot = .ok report ∧
      report.summary.violations = 1 ∧ report.findings.any (·.code = .streamCursorInvalid) = true ∧
      exitCode report false = 2 := by
  refine ⟨by decide +kernel, ?_⟩
  obtain ⟨v, hrun, hp⟩ := Runs.exists_of_exec (Deployment.step exampleRelay) (Deployment.init Unit 0)
    ((exampleStaleHandler ()).map ofOutbox)
    (fun v => (check exampleConfig .full 0 0 v.outbox.clock v.snapshot).toOption.any fun report =>
      report.summary.violations = 1 && (report.findings.any (·.code = .streamCursorInvalid) &&
        exitCode report false = 2))
    (by decide +kernel)
  obtain ⟨report, hreport, hp⟩ := (Option.any_eq_true ..).mp hp
  simp only [Bool.and_eq_true, decide_eq_true_eq] at hp
  refine ⟨v, report, ⟨0, hrun⟩, ?_, hp⟩
  cases hcheck : check exampleConfig .full 0 0 v.outbox.clock v.snapshot with
  | error e => rw [hcheck] at hreport; cases hreport
  | ok x =>
    rw [hcheck] at hreport
    rw [Option.some.inj hreport]

end Emitlane.Integrity
