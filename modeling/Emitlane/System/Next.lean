import Emitlane.System.Model

/-!
# System.Next — what one step can do

`Next cfg s a s'` lists everything a step of the system can do, with the facts the store calls guarantee, so that no
invariant proof unfolds `step` or a store call.  `next_of_step` is the inversion.
-/

namespace Emitlane

open Relay Outbox

/-- The status a mark leaves. -/
def Relay.Mark.status : Mark → Status
  | .delivered => .delivered
  | .retried => .pending
  | .killed => .dead

/-- What the marks have in common: the new status, no lease, and the attempts as they were. -/
def Relay.Mark.Writes (m : Mark) (f : Progress → Progress) : Prop :=
  ∀ g, (f g).status = m.status ∧ (f g).leaseOwner = none ∧ (f g).attempts = g.attempts

section

variable {ι : Type} (cfg : ι → Config)

/-- What a claim of relay `i` asks of a row, and the epoch it returns with it. -/
def Claims (s : State ι) (i : ι) (r : EventRow) (epoch : Option Int) : Prop :=
  r.Claimable s.clock ∧ ((epoch = none ∧ r.orderingKey = none) ∨
    s.db.OrderedClaim s.clock (cfg i).instanceID (cfg i).window r epoch)

/-- The fence of an ordered begin. -/
def BeginFence (s : State ι) (h : Handler ι) (r : EventRow) : Prop :=
  isOrdered h.event = true → ∃ p, s.db.partitionOf r = some p ∧ p.epoch = h.event.orderingEpoch ∧
    p.authority (cfg h.relay).instanceID s.clock (addMS s.clock (intervalMS (cfg h.relay).window) ≤ ·) = true

/-- What a mark does to the ordering tables: only an ordered delivery moves a cursor. -/
def MarkOrdering (s : State ι) (h : Handler ι) (m : Mark) (r : EventRow) (db : Db) : Prop :=
  (¬ (m = .delivered ∧ isOrdered h.event = true) ∧ s.db.KeepsOrdering db) ∨
    (m = .delivered ∧ isOrdered h.event = true ∧ s.db.Advances db s.clock h.event (cfg h.relay).instanceID r)

/-- What the ownership calls of the relays do to the partitions at `now`. -/
def PartitionMove (now : Int) (db db' : Db) : Prop :=
  db'.partitions = db.partitions ∨
    (∃ i members, ∀ p, db'.partition p = (db.partition p).map (reconcileRow (cfg i).reconcileArgs now members)) ∨
    (∃ i, ∀ p, db'.partition p = (db.partition p).map fun row =>
      if row.leaseOwner = some (cfg i).instanceID then
        releaseRow now (intervalMS (cfg i).orderingSafetyMargin) row else row)

/-- The steps of the system. -/
inductive Next (s : State ι) : Action ι → State ι → Prop
  | tick (d : Nat) : Next s (.tick d) { s with clock := s.clock + d }
  | insert {a : Action ι} {db : Db} {rows : List EventRow} (hrows : Enqueues s.db db rows) :
      Next s a (s.insert db rows)
  | lease {a : Action ι} {i : ι} {db : Db} {evs : List RelayEvent}
      (hresult : claimResult cfg s a = some (i, db, evs))
      (hlease : s.db.Leases db (cfg i).instanceID (addMS s.clock (intervalMS (cfg i).leaseDuration))
        (Claims cfg s i) evs) :
      Next s a (s.dispatch i db evs)
  | began {k : Nat} {h : Handler ι} {db : Db} {r : EventRow} (hk : s.handlers k = some h) (hpc : h.pc = .start)
      (hheld : r.heldBy h.event.id (cfg h.relay).instanceID = true)
      (hlt : r.attempts < (cfg h.relay).maxAttempts) (hfence : BeginFence cfg s h r)
      (htouch : s.db.Touches db r countAttempt) :
      Next s (.begin k)
        { s.setHandler k (some { h with event := { h.event with attempts := r.attempts + 1 }, pc := .began }) with
          db := db
          hist := .began k h.relay { h.event with attempts := r.attempts + 1 } r s.clock :: s.hist }
  | marked {a : Action ι} {k : Nat} {h : Handler ι} {m : Mark} {db : Db} {r : EventRow} {f : Progress → Progress}
      (hk : s.handlers k = some h) (hpc : m = .delivered → h.pc = .acked)
      (hheld : r.heldBy h.event.id (cfg h.relay).instanceID = true) (hf : m.Writes f)
      (hrow : s.db.Rewrites db r f) (hordering : MarkOrdering cfg s h m r db)
      (hcall : m = .delivered → (∃ ctxDone delay, a = .settle k ctxDone delay) ∧
        markDelivered (cfg h.relay) s.db s.clock h.event = .ok db) :
      Next s a
        { s.setHandler k none with db := db, hist := .marked k h.relay m (isOrdered h.event) r :: s.hist }
  | revived {a : Action ι} {db : Db} {r : EventRow} {f : Progress → Progress} (hdead : r.status = .dead)
      (hf : ∀ g, (f g).status = .pending ∧ (f g).attempts = 0 ∧ (f g).leaseOwner = none)
      (htouch : s.db.Touches db r f) :
      Next s a { s with db := db, hist := .revived r :: s.hist }
  | deleted {retention limit : Int} {locked : Uuid → Bool} {db : Db}
      (hrow : ∀ id, db.row id = s.db.row id ∨
        (db.row id = none ∧ 0 < retention ∧ ∃ r, s.db.row id = some r ∧ r.expired s.clock retention = true))
      (hkeep : s.db.KeepsOrdering db) :
      Next s (.cleanup retention limit locked)
        { s with db := db, hist := (s.db.rowsNotIn db).map .deleted ++ s.hist }
  | owned {a : Action ι} {db : Db} (hevents : db.events = s.db.events) (hstreams : db.streams = s.db.streams)
      (hparts : PartitionMove cfg s.clock s.db db) (hcontrol : db.control.rows.length = s.db.control.rows.length) :
      Next s a { s with db := db }
  | failed {a : Action ι} {k : Nat} {h : Handler ι} {err : PublishError} (hk : s.handlers k = some h)
      (hpc : h.pc = .began ∨ h.pc = .publishing) : Next s a (s.setHandler k (some { h with pc := .failed err }))
  | published {k : Nat} {h : Handler ι} (traceparent tracestate : String) (hk : s.handlers k = some h)
      (hpc : h.pc = .began) :
      Next s (.publish k traceparent tracestate)
        { s.setHandler k (some { h with pc := .publishing }) with
          hist := .published k (publishMessage h.event traceparent tracestate) :: s.hist }
  | acked {k : Nat} {h : Handler ι} (hk : s.handlers k = some h) (hpc : h.pc = .publishing) :
      Next s (.ack k)
        { s.setHandler k (some { h with pc := .acked }) with hist := .acked k h.event.id :: s.hist }
  | dropped {a : Action ι} (k : Nat) : Next s a (s.setHandler k none)
  | effect {k : Nat} (hcan : canTakeEffect cfg s.hist k s.clock = true) :
      Next s (.effect k) { s with hist := .effect k s.clock :: s.hist }

variable {cfg} {s s' : State ι}

/-! ## The store calls of a handler -/

/-- The row a handler holds is the row of its event. -/
theorem Db.row_of_heldBy {db : Db} {r : EventRow} {id : Uuid} {owner : String} (h : r.heldBy id owner = true)
    (hr : db.row r.id = some r) : db.row id = some r := by
  rw [(EventRow.heldBy_iff.mp h).1] at hr
  exact hr

theorem beginAttempt_ok {c : Config} {db db' : Db} {now n : Int} {ev : RelayEvent}
    (h : beginAttempt c db now ev = .ok (db', n)) :
    ∃ r, r.heldBy ev.id c.instanceID = true ∧ r.attempts < c.maxAttempts ∧ n = r.attempts + 1 ∧
      db.Touches db' r countAttempt ∧
      (isOrdered ev = true → ∃ p, db.partitionOf r = some p ∧ p.epoch = ev.orderingEpoch ∧
        p.authority c.instanceID now (addMS now (intervalMS c.window) ≤ ·) = true) := by
  unfold beginAttempt at h
  split_ifs at h with hord
  · obtain ⟨r, p, hheld, hlt, hn, hp, hepoch, hauth, ht⟩ := Db.beginOrderedAttempt_ok h
    exact ⟨r, hheld, hlt, hn, ht, fun _ => ⟨p, hp, hepoch, hauth⟩⟩
  · obtain ⟨r, hheld, hlt, hn, ht⟩ := Db.beginAttempt_ok h
    exact ⟨r, hheld, hlt, hn, ht, fun h => absurd h hord⟩

/-- A mark that keeps the ordering tables. -/
theorem mark_ok {c : Config} {db db' : Db} {now : Int} {ev : RelayEvent} {f : Progress → Progress}
    {what what' : String} {missing : StoreError} (ordered : Bool)
    (h : (if ordered then db.exec now what (· = 1) missing (db.orderedFence now ev c.instanceID) f
      else db.markHeld now what' ev.id c.instanceID f) = .ok db') :
    ∃ r, r.heldBy ev.id c.instanceID = true ∧ db.Touches db' r f := by
  split_ifs at h
  · obtain ⟨r, hf, ht⟩ := Db.exec_fenced h
    exact ⟨r, hf.held, ht⟩
  · exact Db.markHeld_ok h

theorem Relay.Mark.writes_kill (e : Bytes) : Mark.Writes .killed (kill e) := fun _ => ⟨rfl, rfl, rfl⟩

theorem Relay.Mark.writes_reschedule (now delay : Int) (e : Bytes) :
    Mark.Writes .retried (reschedule now delay e) := fun _ => ⟨rfl, rfl, rfl⟩

theorem Relay.Mark.writes_deliver (now : Int) : Mark.Writes .delivered (deliver now) := fun _ => ⟨rfl, rfl, rfl⟩

/-! ## The end of a handler -/

/-- A last call that keeps the ordering tables. -/
theorem next_finish {a : Action ι} {k : Nat} {h : Handler ι} {m : Mark} {f : Progress → Progress}
    {result : Except StoreError Db} (hk : s.handlers k = some h) (hm : m ≠ .delivered) (hf : m.Writes f)
    (hres : ∀ db, result = .ok db →
      ∃ r, r.heldBy h.event.id (cfg h.relay).instanceID = true ∧ s.db.Touches db r f) :
    Next cfg s a (s.finish k h m result) := by
  unfold State.finish
  cases hr : result with
  | error e => exact .dropped k
  | ok db =>
    obtain ⟨r, hheld, ht⟩ := hres db hr
    have hid := Db.row_of_heldBy hheld ht.old
    simp only [hid, Option.toList_some, List.map_cons, List.map_nil, List.singleton_append]
    exact .marked hk (fun hd => absurd hd hm) hheld hf ht.toRewrites (.inl ⟨fun hd => hm hd.1, ht.frame⟩)
      (fun hd => absurd hd hm)

theorem next_delivered {k : Nat} {h : Handler ι} {ctxDone : Bool} {delay : Int} (hk : s.handlers k = some h)
    (hpc : h.pc = .acked) :
    Next cfg s (.settle k ctxDone delay)
      (s.finish k h .delivered (markDelivered (cfg h.relay) s.db s.clock h.event)) := by
  unfold State.finish
  cases hr : markDelivered (cfg h.relay) s.db s.clock h.event with
  | error e => exact .dropped k
  | ok db =>
    have hspec : ∃ r, r.heldBy h.event.id (cfg h.relay).instanceID = true ∧
        s.db.Rewrites db r (deliver s.clock) ∧ MarkOrdering cfg s h .delivered r db := by
      unfold markDelivered at hr
      split_ifs at hr with hord
      · obtain ⟨r, hadv, hrow⟩ := Db.markOrderedDelivered_ok hr
        exact ⟨r, hadv.fenced.held, hrow, .inr ⟨rfl, hord, hadv⟩⟩
      · obtain ⟨r, hheld, ht⟩ := Db.markHeld_ok hr
        exact ⟨r, hheld, ht.toRewrites, .inl ⟨fun hd => hord hd.2, ht.frame⟩⟩
    obtain ⟨r, hheld, hrow, hordering⟩ := hspec
    have hid := Db.row_of_heldBy hheld hrow.old
    simp only [hid, Option.toList_some, List.map_cons, List.map_nil, List.singleton_append]
    exact .marked hk (fun _ => hpc) hheld (Mark.writes_deliver _) hrow hordering
      (fun _ => ⟨⟨ctxDone, delay, rfl⟩, hr⟩)

theorem next_settle {k : Nat} {h : Handler ι} {ctxDone : Bool} {delay : Int} (hk : s.handlers k = some h)
    (hs : s.settle cfg k h ctxDone delay = some s') : Next cfg s (.settle k ctxDone delay) s' := by
  unfold State.settle at hs
  cases hpc : h.pc with
  | acked =>
    rw [hpc] at hs
    obtain rfl := Option.some.inj hs
    exact next_delivered hk hpc
  | failed err =>
    rw [hpc] at hs
    simp only [onPublishFailure] at hs
    split_ifs at hs
    · obtain rfl := Option.some.inj hs
      exact .dropped k
    · obtain rfl := Option.some.inj hs
      exact next_finish hk (by decide) (Mark.writes_kill err.text) fun db hdb => mark_ok _ hdb
    · obtain rfl := Option.some.inj hs
      exact next_finish hk (by decide) (Mark.writes_reschedule s.clock delay err.text) fun db hdb => mark_ok _ hdb
  | start => rw [hpc] at hs; cases hs
  | began => rw [hpc] at hs; cases hs
  | publishing => rw [hpc] at hs; cases hs

theorem next_begin {k : Nat} {h : Handler ι} (hk : s.handlers k = some h) (hpc : h.pc = .start) :
    Next cfg s (.begin k) (s.begin cfg k h) := by
  unfold State.begin
  simp only
  split_ifs with hbudget
  · exact next_finish hk (by decide) (Mark.writes_kill budgetExhausted) fun db hdb => mark_ok _ hdb
  · cases hb : beginAttempt (cfg h.relay) s.db s.clock h.event with
    | error e => exact .dropped k
    | ok x =>
      obtain ⟨db, n⟩ := x
      obtain ⟨r, hheld, hlt, rfl, ht, hfence⟩ := beginAttempt_ok hb
      have hid := Db.row_of_heldBy hheld ht.old
      simp only [hid, Option.toList_some, List.map_cons, List.map_nil, List.singleton_append]
      exact .began hk hpc hheld hlt hfence ht

/-! ## Rows that appear -/

/-- The added rows are the rows the old database has no id of. -/
theorem Db.Adds.rowsNotIn {db db' : Db} {rows : List EventRow} (h : db.Adds db' rows) :
    db.Adds db' (db'.rowsNotIn db) ∧ ∀ r ∈ db'.rowsNotIn db, r ∈ rows := by
  have hmem : ∀ r, r ∈ db'.rowsNotIn db ↔ r ∈ rows := by
    intro r
    unfold Db.rowsNotIn
    rw [List.mem_filter, Option.isNone_iff_eq_none]
    constructor
    · rintro ⟨hr, hnone⟩
      rcases (h.row r.id r).mp (db'.row_mem hr) with hold | hnew
      · rw [hnone] at hold
        cases hold
      · exact hnew.1
    · intro hr
      exact ⟨(db'.row_eq_some.mp ((h.row r.id r).mpr (.inr ⟨hr, rfl⟩))).1, h.fresh r hr⟩
  refine ⟨⟨fun r hr => h.fresh r ((hmem r).mp hr), ?_, fun id r => ?_⟩, fun r hr => (hmem r).mp hr⟩
  · exact db'.events.ok.1.sublist (List.filter_sublist.map _)
  · rw [h.row, hmem]

/-- A replay adds new unordered rows and nothing else. -/
theorem enqueues_of_replay {db db' : Db} (h : db.AddsReplays db') : Enqueues db db' (db'.rowsNotIn db) := by
  obtain ⟨rows, hadd, hnew, hkeep⟩ := h
  obtain ⟨hadd', hsub⟩ := hadd.rowsNotIn
  have hstream : ∀ d k, db'.stream d k = db.stream d k := by
    intro d k
    unfold Db.stream
    rw [hkeep.streams]
  refine ⟨hadd', ?_, ?_, ?_, hkeep.partitions, hkeep.relays, hkeep.control⟩
  · intro d k st hst
    rw [hstream]
    exact hst
  · intro d k st hst
    rw [hstream] at hst
    exact .inl hst
  · intro r hr
    obtain ⟨hn, hkey⟩ := hnew r (hsub r hr)
    refine ⟨hn, fun k hk => ?_⟩
    rw [hkey] at hk
    cases hk

/-! ## The inversion -/

theorem State.withDb_eq_some {result : Except StoreError Db} (h : s.withDb result = some s') :
    ∃ db, result = .ok db ∧ s' = { s with db := db } := by
  unfold State.withDb at h
  split at h
  · cases h
  · rename_i db
    exact ⟨db, rfl, (Option.some.inj h).symm⟩

/-- The two retries of a dead event. -/
theorem next_revived {a : Action ι} {id : Uuid} {result : Except StoreError Db} {f : Progress → Progress}
    (hf : ∀ g, (f g).status = .pending ∧ (f g).attempts = 0 ∧ (f g).leaseOwner = none)
    (hres : ∀ db, result = .ok db → ∃ r, r.id = id ∧ r.status = .dead ∧ s.db.Touches db r f)
    (h : ((s.withDb result).map fun s₁ => { s₁ with hist := (s.db.row id).toList.map .revived ++ s.hist }) =
      some s') :
    Next cfg s a s' := by
  obtain ⟨s₁, hs₁, rfl⟩ := Option.map_eq_some_iff.mp h
  obtain ⟨db, hdb, rfl⟩ := State.withDb_eq_some hs₁
  obtain ⟨r, hid, hdead, ht⟩ := hres db hdb
  have hrow : s.db.row id = some r := by
    rw [← hid]
    exact ht.old
  simp only [hrow, Option.toList_some, List.map_cons, List.map_nil, List.singleton_append]
  exact .revived hdead hf ht

/-- The calls that touch neither events nor streams. -/
theorem next_owned {a : Action ι} {result : Except StoreError Db}
    (hres : ∀ db, result = .ok db → db.events = s.db.events ∧ db.streams = s.db.streams ∧
      PartitionMove cfg s.clock s.db db ∧ db.control.rows.length = s.db.control.rows.length)
    (h : s.withDb result = some s') : Next cfg s a s' := by
  obtain ⟨db, hdb, rfl⟩ := State.withDb_eq_some h
  obtain ⟨he, hst, hp, hc⟩ := hres db hdb
  exact .owned he hst hp hc

theorem Db.KeepsOrdering.move {now : Int} {db db' : Db} (h : db.KeepsOrdering db') : PartitionMove cfg now db db' :=
  .inl h.partitions

theorem Db.reconcileWith_move {now : Int} {db db' : Db} {i : ι} {members : List String}
    {result : List OrderingPartition} (h : db.reconcileWith (cfg i).reconcileArgs now members = .ok (db', result)) :
    PartitionMove cfg now db db' := .inr (.inl ⟨i, members, (Db.reconcileWith_ok h).1⟩)

theorem Db.releaseOrderingPartitions_move {now : Int} {db db' : Db} {i : ι}
    (h : db.releaseOrderingPartitions now (cfg i).instanceID (cfg i).orderingSafetyMargin = .ok db') :
    PartitionMove cfg now db db' := .inr (.inr ⟨i, (Db.releaseOrderingPartitions_ok h).1⟩)

/-- What the two claims have in common. -/
theorem claimResult_leases {a : Action ι} {i : ι} {db : Db} {evs : List RelayEvent}
    (h : claimResult cfg s a = some (i, db, evs)) :
    s.db.Leases db (cfg i).instanceID (addMS s.clock (intervalMS (cfg i).leaseDuration)) (Claims cfg s i) evs := by
  unfold claimResult at h
  split at h
  · split at h
    · cases h
    · rename_i hc
      obtain ⟨rfl, rfl, rfl⟩ : _ = i ∧ _ = db ∧ _ = evs := by simpa using h
      refine (Db.claim_ok hc).imp ?_
      rintro r e ⟨he, hkey, hr⟩
      exact ⟨hr, .inl ⟨he, hkey⟩⟩
  · split at h
    · cases h
    · rename_i hc
      obtain ⟨rfl, rfl, rfl⟩ : _ = i ∧ _ = db ∧ _ = evs := by simpa using h
      refine (Db.claimOrdered_ok hc).imp ?_
      intro r e hr
      exact ⟨hr.2.1, .inr hr⟩
  · cases h

/-- **Inversion**: every step of the system is one of `Next`. -/
theorem next_of_step {a : Action ι} (h : step cfg s a = some s') : Next cfg s a s' := by
  cases a with
  | tick d =>
    obtain rfl := Option.some.inj h
    exact .tick d
  | produce started calls commit =>
    simp only [step] at h
    split_ifs at h
    · obtain ⟨x, hx, rfl⟩ := Option.map_eq_some_iff.mp h
      exact .insert (enqueueAll_ok hx)
    · obtain rfl := Option.some.inj h
      exact .insert (Enqueues.refl s.db)
  | claim i limit locked =>
    obtain ⟨⟨i', db, evs⟩, hx, rfl⟩ := Option.map_eq_some_iff.mp h
    exact .lease hx (claimResult_leases hx)
  | claimOrdered i limit locked =>
    obtain ⟨⟨i', db, evs⟩, hx, rfl⟩ := Option.map_eq_some_iff.mp h
    exact .lease hx (claimResult_leases hx)
  | begin k =>
    simp only [step] at h
    split at h
    · rename_i hd hk
      split_ifs at h with hpc
      obtain rfl := Option.some.inj h
      exact next_begin hk hpc
    · cases h
  | interrupt k err =>
    simp only [step] at h
    split at h
    · rename_i hd hk
      split_ifs at h with hpc
      obtain rfl := Option.some.inj h
      exact .failed hk (.inl hpc)
    · cases h
  | publish k traceparent tracestate =>
    simp only [step] at h
    split at h
    · rename_i hd hk
      split_ifs at h with hpc
      obtain rfl := Option.some.inj h
      exact .published traceparent tracestate hk hpc
    · cases h
  | ack k =>
    simp only [step] at h
    split at h
    · rename_i hd hk
      split_ifs at h with hpc
      obtain rfl := Option.some.inj h
      exact .acked hk hpc
    · cases h
  | fail k err =>
    simp only [step] at h
    split at h
    · rename_i hd hk
      split_ifs at h with hpc
      obtain rfl := Option.some.inj h
      exact .failed hk (.inr hpc)
    · cases h
  | settle k ctxDone delay =>
    simp only [step] at h
    split at h
    · rename_i hd hk
      exact next_settle hk h
    · cases h
  | crash k =>
    obtain rfl := Option.some.inj h
    exact .dropped k
  | effect k =>
    simp only [step] at h
    split_ifs at h with hcan
    obtain rfl := Option.some.inj h
    exact .effect hcan
  | retryDead id => exact next_revived (fun _ => ⟨rfl, rfl, rfl⟩) (fun db hdb => Db.retryDead_ok hdb) h
  | retryDeadAudited id m auditID =>
    exact next_revived (f := revive s.clock) (fun _ => ⟨rfl, rfl, rfl⟩) (fun db hdb => Db.retryDeadAudited_ok hdb) h
  | replayEvent sourceID m eventID batchID auditID =>
    simp only [step] at h
    split at h
    · cases h
    · rename_i db result hr
      obtain rfl := Option.some.inj h
      exact .insert (enqueues_of_replay (Db.replayEvent_ok hr))
  | replayBatch filter m limit batchID auditID newID =>
    simp only [step] at h
    split at h
    · cases h
    · rename_i db result hr
      obtain rfl := Option.some.inj h
      exact .insert (enqueues_of_replay (Db.replayBatch_ok hr))
  | cleanup retention limit locked =>
    simp only [step] at h
    split at h
    · cases h
    · rename_i db n hc
      obtain rfl := Option.some.inj h
      obtain ⟨hrow, hkeep⟩ := Db.cleanupDelivered_ok hc
      exact .deleted hrow hkeep
  | setPaused paused m auditID =>
    refine next_owned (fun db hdb => ?_) h
    obtain ⟨he, hstreams, hparts, -, hcontrol⟩ := Db.setPaused_ok hdb
    exact ⟨he, hstreams, .inl hparts, hcontrol⟩
  | reconcile i =>
    refine next_owned (fun db hdb => ?_) h
    cases hr : s.db.reconcileOrderingPartitions s.clock (cfg i).reconcileArgs with
    | error e => rw [hr] at hdb; cases hdb
    | ok x =>
      obtain ⟨db₁, result⟩ := x
      rw [hr] at hdb
      obtain rfl : db₁ = db := Except.ok.inj hdb
      have hframe := (Db.reconcileWith_ok hr).2
      refine ⟨?_, ?_, Db.reconcileWith_move hr, ?_⟩
      · rw [hframe]
      · rw [hframe]
      · rw [hframe]
  | release i =>
    refine next_owned (fun db hdb => ?_) h
    have hframe := (Db.releaseOrderingPartitions_ok hdb).2
    refine ⟨?_, ?_, Db.releaseOrderingPartitions_move hdb, ?_⟩
    · rw [hframe]
    · rw [hframe]
    · rw [hframe]
  | register presence =>
    refine next_owned (fun db hdb => ?_) h
    have hframe := Db.registerRelay_ok hdb
    refine ⟨?_, ?_, .inl ?_, ?_⟩ <;> rw [hframe]
  | heartbeat i =>
    refine next_owned (fun db hdb => ?_) h
    have hframe := Db.touchRelay_ok hdb
    refine ⟨?_, ?_, .inl ?_, ?_⟩ <;> rw [hframe]
  | markStopped i =>
    refine next_owned (fun db hdb => ?_) h
    have hframe := Db.touchRelay_ok hdb
    refine ⟨?_, ?_, .inl ?_, ?_⟩ <;> rw [hframe]

/-! ## What a step does to one row -/

theorem EventRow.status_of_heldBy {r : EventRow} {id : Uuid} {owner : String} (h : r.heldBy id owner = true) :
    r.status = .inflight := (EventRow.heldBy_iff.mp h).2.2

theorem EventRow.Claimable.not_delivered {r : EventRow} {now : Int} (h : r.Claimable now) :
    r.status ≠ .delivered := by
  rcases h with h | h
  · rw [h]
    decide
  · rw [of_decide_eq_true (Bool.and_eq_true_iff.mp h).1]
    decide

/-- A rewritten row seen from any row. -/
theorem Db.Rewrites.row_cases {db db' : Db} {x r : EventRow} {f : Progress → Progress} (h : db.Rewrites db' x f)
    (hr : db.row r.id = some r) (hx : x.status ≠ .delivered) :
    db'.row r.id = some r ∨ (r.status ≠ .delivered ∧ ∃ f, db'.row r.id = some (r.progress f)) := by
  rw [h.row]
  split_ifs with hid
  · have hold := h.old
    rw [← hid, hr] at hold
    obtain rfl := Option.some.inj hold
    exact .inr ⟨hx, f, rfl⟩
  · exact .inl hr

/-- A step leaves a row as it is, rewrites the progress of a row that is not delivered, or cleans up an expired row. -/
theorem Next.row_cases {a : Action ι} (hs : Next cfg s a s') {r : EventRow} (hr : r ∈ s.db.events.rows) :
    s'.db.row r.id = some r ∨ (r.status ≠ .delivered ∧ ∃ f, s'.db.row r.id = some (r.progress f)) ∨
      (s'.db.row r.id = none ∧ ∃ retention limit locked, a = .cleanup retention limit locked ∧ 0 < retention ∧
        r.expired s.clock retention = true) := by
  have hold := s.db.row_mem hr
  cases hs with
  | insert hrows => exact .inl ((hrows.adds.row r.id r).mpr (.inl hold))
  | lease _ hlease =>
    rw [State.dispatch_db, hlease.row, hold, Option.map_some]
    split_ifs with hin
    · obtain ⟨ev, hev, hid⟩ := List.mem_map.mp hin
      obtain ⟨x, e, hx, ⟨hclaim, -⟩, -⟩ := hlease.old ev hev
      rw [hid, hold] at hx
      obtain rfl := Option.some.inj hx
      exact .inr (.inl ⟨hclaim.not_delivered, _, rfl⟩)
    · exact .inl rfl
  | began _ _ hheld _ _ htouch =>
    exact (htouch.toRewrites.row_cases hold (by rw [EventRow.status_of_heldBy hheld]; decide)).imp_right .inl
  | marked _ _ hheld _ hrow _ _ =>
    exact (hrow.row_cases hold (by rw [EventRow.status_of_heldBy hheld]; decide)).imp_right .inl
  | revived hdead _ htouch =>
    exact (htouch.toRewrites.row_cases hold (by rw [hdead]; decide)).imp_right .inl
  | @deleted retention limit locked db hrow _ =>
    rcases hrow r.id with hsame | ⟨hnone, hpos, x, hx, hexp⟩
    · exact .inl (hsame.trans hold)
    · rw [hold] at hx
      obtain rfl := Option.some.inj hx
      exact .inr (.inr ⟨hnone, retention, limit, locked, rfl, hpos, hexp⟩)
  | owned hevents _ _ _ => exact .inl ((Db.row_congr hevents r.id).trans hold)
  | tick d => exact .inl hold
  | failed _ _ => exact .inl hold
  | published _ _ _ _ => exact .inl hold
  | acked _ _ => exact .inl hold
  | dropped k => exact .inl hold
  | effect _ => exact .inl hold

/-- A row of the new state has the envelope of an old row, or was enqueued by the step. -/
theorem Next.row_origin {a : Action ι} (hs : Next cfg s a s') {id : Uuid} {r : EventRow}
    (hr : s'.db.row id = some r) :
    (∃ r₀, s.db.row id = some r₀ ∧ r₀.toEnvelope = r.toEnvelope) ∨ Obs.enqueued r ∈ s'.hist := by
  have hrewrite : ∀ {db : Db} {x : EventRow} {f : Progress → Progress}, s.db.Rewrites db x f →
    db.row id = some r →
      ∃ r₀, s.db.row id = some r₀ ∧ r₀.toEnvelope = r.toEnvelope := by
    intro db x f hrow hr
    rw [hrow.row] at hr
    split_ifs at hr with hid
    · obtain rfl := Option.some.inj hr
      exact ⟨x, hid ▸ hrow.old, rfl⟩
    · exact ⟨r, hr, rfl⟩
  cases hs with
  | insert hrows =>
    rcases (hrows.adds.row id r).mp hr with hold | ⟨hnew, -⟩
    · exact .inl ⟨r, hold, rfl⟩
    · exact .inr (List.mem_append_left _ (List.mem_map_of_mem (List.mem_reverse.mpr hnew)))
  | lease _ hlease =>
    rw [State.dispatch_db, hlease.row] at hr
    obtain ⟨r₀, hr₀, rfl⟩ := Option.map_eq_some_iff.mp hr
    refine .inl ⟨r₀, hr₀, ?_⟩
    split_ifs
    · rfl
    · rfl
  | began _ _ _ _ _ htouch => exact .inl (hrewrite htouch.toRewrites hr)
  | marked _ _ _ _ hrow _ _ => exact .inl (hrewrite hrow hr)
  | revived _ _ htouch => exact .inl (hrewrite htouch.toRewrites hr)
  | deleted hrow _ =>
    rcases hrow id with hsame | ⟨hnone, -⟩
    · exact .inl ⟨r, hsame ▸ hr, rfl⟩
    · have hr : Db.row _ id = some r := hr
      rw [hnone] at hr
      cases hr
  | owned hevents _ _ _ => exact .inl ⟨r, (Db.row_congr hevents id).symm.trans hr, rfl⟩
  | tick d => exact .inl ⟨r, hr, rfl⟩
  | failed _ _ => exact .inl ⟨r, hr, rfl⟩
  | published _ _ _ _ => exact .inl ⟨r, hr, rfl⟩
  | acked _ _ => exact .inl ⟨r, hr, rfl⟩
  | dropped k => exact .inl ⟨r, hr, rfl⟩
  | effect _ => exact .inl ⟨r, hr, rfl⟩

/-! ## What a step does to one handler -/

/-- `h` is `h₀` some steps later: the same relay with the same copy, up to the attempts. -/
def Handler.Continues (h h₀ : Handler ι) : Prop :=
  h.relay = h₀.relay ∧ ∃ n, h.event = { h₀.event with attempts := n }

theorem Handler.Continues.refl (h : Handler ι) : h.Continues h := ⟨rfl, h.event.attempts, rfl⟩

theorem Handler.Continues.id {h h₀ : Handler ι} (hc : h.Continues h₀) : h.event.id = h₀.event.id := by
  obtain ⟨-, n, heq⟩ := hc
  rw [heq]

/-- A handler of the new state continues an old one, or is of a claim that the step made. -/
theorem Next.handler_origin {a : Action ι} (hs : Next cfg s a s') {k : Nat} {h : Handler ι}
    (hk : s'.handlers k = some h) :
    (∃ h₀, s.handlers k = some h₀ ∧ h.Continues h₀) ∨
      ∃ i db evs, claimResult cfg s a = some (i, db, evs) ∧ s' = s.dispatch i db evs ∧ s.next ≤ k ∧
        ∃ ev ∈ evs, h = ⟨i, ev, .start⟩ := by
  -- the handler of the step, and all others
  have hone : ∀ {k₀ : Nat} {h₀ h₁ : Handler ι}, s.handlers k₀ = some h₀ →
      Function.update s.handlers k₀ (some h₁) k = some h → h₁.Continues h₀ →
      ∃ h₂, s.handlers k = some h₂ ∧ h.Continues h₂ := by
    intro k₀ h₀ h₁ hk₀ hk hc
    rcases Runs.of_update hk with ⟨rfl, hnew⟩ | ⟨-, hold⟩
    · exact ⟨h₀, hk₀, Option.some.inj hnew ▸ hc⟩
    · exact ⟨h, hold, .refl h⟩
  have hend : ∀ {k₀ : Nat}, Function.update s.handlers k₀ none k = some h →
      ∃ h₂, s.handlers k = some h₂ ∧ h.Continues h₂ := by
    intro k₀ hk
    rcases Runs.of_update hk with ⟨-, hnone⟩ | ⟨-, hold⟩
    · cases hnone
    · exact ⟨h, hold, .refl h⟩
  cases hs with
  | lease hresult hlease =>
    rename_i i db evs
    have hk : (if k < s.next then s.handlers k else evs[k - s.next]?.map fun ev => ⟨i, ev, .start⟩) = some h := hk
    split_ifs at hk with hlt
    · exact .inl ⟨h, hk, .refl h⟩
    · obtain ⟨ev, hev, rfl⟩ := Option.map_eq_some_iff.mp hk
      exact .inr ⟨i, db, evs, hresult, rfl, by omega, ev, List.mem_of_getElem? hev, rfl⟩
  | began hk₀ _ _ _ _ _ => exact .inl (hone hk₀ hk ⟨rfl, _, rfl⟩)
  | marked _ _ _ _ _ _ _ => exact .inl (hend hk)
  | failed hk₀ _ => exact .inl (hone hk₀ hk ⟨rfl, _, rfl⟩)
  | published _ _ hk₀ _ => exact .inl (hone hk₀ hk ⟨rfl, _, rfl⟩)
  | acked hk₀ _ => exact .inl (hone hk₀ hk ⟨rfl, _, rfl⟩)
  | dropped k₀ => exact .inl (hend hk)
  | tick d => exact .inl ⟨h, hk, .refl h⟩
  | insert _ => exact .inl ⟨h, hk, .refl h⟩
  | revived _ _ _ => exact .inl ⟨h, hk, .refl h⟩
  | deleted _ _ => exact .inl ⟨h, hk, .refl h⟩
  | owned _ _ _ _ => exact .inl ⟨h, hk, .refl h⟩
  | effect _ => exact .inl ⟨h, hk, .refl h⟩

/-- A step that makes no claim makes no handler. -/
theorem Next.handler_continues {a : Action ι} (hs : Next cfg s a s') (hnext : s'.next = s.next) {k : Nat}
    {h : Handler ι} (hk : s'.handlers k = some h) : ∃ h₀, s.handlers k = some h₀ ∧ h.Continues h₀ := by
  rcases hs.handler_origin hk with hold | ⟨i, db, evs, -, rfl, -, ev, hev, -⟩
  · exact hold
  · have hlen : s.next + evs.length = s.next := hnext
    have hpos := List.length_pos_of_mem hev
    omega

/-! ## Time and partitions over a step -/

theorem Next.clock_le {a : Action ι} (hs : Next cfg s a s') : s.clock ≤ s'.clock := by
  cases hs with
  | tick d =>
    show s.clock ≤ s.clock + d
    omega
  | _ => exact le_rfl

theorem Next.move {a : Action ι} (hs : Next cfg s a s') : PartitionMove cfg s.clock s.db s'.db := by
  cases hs with
  | insert hrows => exact .inl hrows.partitions
  | lease _ hlease => exact hlease.frame.move
  | began _ _ _ _ _ htouch => exact htouch.frame.move
  | marked _ _ _ _ _ hordering _ =>
    rcases hordering with ⟨-, hkeep⟩ | ⟨-, -, hadv⟩
    · exact hkeep.move
    · exact .inl hadv.partitions
  | revived _ _ htouch => exact htouch.frame.move
  | deleted _ hkeep => exact hkeep.move
  | owned _ _ hparts _ => exact hparts
  | tick d => exact .inl rfl
  | failed _ _ => exact .inl rfl
  | published _ _ _ _ => exact .inl rfl
  | acked _ _ => exact .inl rfl
  | dropped k => exact .inl rfl
  | effect _ => exact .inl rfl

/-- No step adds or removes a row of the runtime control. -/
theorem Next.control {a : Action ι} (hs : Next cfg s a s') :
    s'.db.control.rows.length = s.db.control.rows.length := by
  have hlen : ∀ {db : Db}, db.control = s.db.control → db.control.rows.length = s.db.control.rows.length :=
    fun heq => by rw [heq]
  cases hs with
  | insert hrows => exact hlen hrows.control
  | lease _ hlease => exact hlen hlease.frame.control
  | began _ _ _ _ _ htouch => exact hlen htouch.frame.control
  | marked _ _ _ _ _ hordering _ =>
    rcases hordering with ⟨-, hkeep⟩ | ⟨-, -, hadv⟩
    · exact hlen hkeep.control
    · exact hlen hadv.control
  | revived _ _ htouch => exact hlen htouch.frame.control
  | deleted _ hkeep => exact hlen hkeep.control
  | owned _ _ _ hcontrol => exact hcontrol
  | tick d => rfl
  | failed _ _ => rfl
  | published _ _ _ _ => rfl
  | acked _ _ => rfl
  | dropped k => rfl
  | effect _ => rfl

/-! ## What a step records -/

/-- What holds in the state `s` in which an observation is made. -/
def Fact (cfg : ι → Config) (s : State ι) : Obs ι → Prop
  | .enqueued row => row.New ∧ s.db.row row.id = none
  | .claimed k i ev => s.next ≤ k ∧ ∃ r epoch, s.db.row ev.id = some r ∧ Claims cfg s i r epoch ∧
      ev = scanEvent (r.progress (leaseTo (cfg i).instanceID (addMS s.clock (intervalMS (cfg i).leaseDuration)))) epoch
  | .began k i ev row instant => instant = s.clock ∧ s.db.row row.id = some row ∧
      ∃ h, s.handlers k = some h ∧ h.pc = .start ∧ h.relay = i ∧
      ev = { h.event with attempts := row.attempts + 1 } ∧
        row.heldBy h.event.id (cfg i).instanceID = true ∧ row.attempts < (cfg i).maxAttempts ∧
        BeginFence cfg s h row
  | .published k msg => ∃ h traceparent tracestate, s.handlers k = some h ∧ h.pc = .began ∧
      msg = publishMessage h.event traceparent tracestate
  | .acked k id => ∃ h, s.handlers k = some h ∧ h.pc = .publishing ∧ id = h.event.id
  | .marked k i m ordered row => s.db.row row.id = some row ∧
      ∃ h, s.handlers k = some h ∧ h.relay = i ∧ ordered = isOrdered h.event ∧
        row.heldBy h.event.id (cfg i).instanceID = true ∧ ∃ db, MarkOrdering cfg s h m row db
  | .revived row => row.status = .dead ∧ s.db.row row.id = some row
  | .deleted row => row.status = .delivered ∧ s.db.row row.id = some row
  | .effect k instant => instant = s.clock ∧ canTakeEffect cfg s.hist k s.clock = true

/-- The observations a step can make several of. -/
def Obs.batched : Obs ι → Bool
  | .enqueued _ | .claimed _ _ _ | .deleted _ => true
  | _ => false

/-- The history only grows, and each new observation is a fact of the state before. -/
theorem Next.news {a : Action ι} (hs : Next cfg s a s') :
    ∃ new, s'.hist = new ++ s.hist ∧ ∀ o ∈ new, Fact cfg s o ∧ (o.batched = false → new = [o]) := by
  have hone : ∀ {o : Obs ι}, Fact cfg s o →
      ∃ new, o :: s.hist = new ++ s.hist ∧ ∀ o ∈ new, Fact cfg s o ∧ (o.batched = false → new = [o]) := by
    intro o ho
    refine ⟨[o], rfl, fun x hx => ?_⟩
    obtain rfl := List.mem_singleton.mp hx
    exact ⟨ho, fun _ => rfl⟩
  have hnil : ∃ new, s.hist = new ++ s.hist ∧ ∀ o ∈ new, Fact cfg s o ∧ (o.batched = false → new = [o]) :=
    ⟨[], rfl, fun x hx => by cases hx⟩
  cases hs with
  | insert hrows =>
    refine ⟨_, rfl, fun o ho => ?_⟩
    obtain ⟨row, hrow, rfl⟩ := List.mem_map.mp ho
    have hrow := List.mem_reverse.mp hrow
    exact ⟨⟨(hrows.new row hrow).1, hrows.adds.fresh row hrow⟩, fun h => by cases h⟩
  | lease _ hlease =>
    refine ⟨_, rfl, fun o ho => ?_⟩
    obtain ⟨⟨ev, k⟩, hx, rfl⟩ := List.mem_map.mp ho
    have hx := List.mem_reverse.mp hx
    have hle := (List.mk_mem_zipIdx_iff_le_and_getElem?_sub.mp hx).1
    exact ⟨⟨hle, hlease.old ev (List.fst_mem_of_mem_zipIdx hx)⟩, fun h => by cases h⟩
  | deleted hrow _ =>
    refine ⟨_, rfl, fun o ho => ?_⟩
    obtain ⟨row, hr, rfl⟩ := List.mem_map.mp ho
    obtain ⟨hmem, hnone⟩ := List.mem_filter.mp hr
    have hold := s.db.row_mem hmem
    rw [Option.isNone_iff_eq_none] at hnone
    rcases hrow row.id with hsame | ⟨-, -, x, hx, hexp⟩
    · rw [hnone, hold] at hsame
      cases hsame
    · rw [hold] at hx
      obtain rfl := Option.some.inj hx
      exact ⟨⟨of_decide_eq_true (Bool.and_eq_true_iff.mp hexp).1, hold⟩, fun h => by cases h⟩
  | began hk hpc hheld hlt hfence htouch =>
    exact hone ⟨rfl, htouch.old, _, hk, hpc, rfl, rfl, hheld, hlt, hfence⟩
  | marked hk _ hheld _ hrow hordering _ => exact hone ⟨hrow.old, _, hk, rfl, rfl, hheld, _, hordering⟩
  | revived hdead _ htouch => exact hone ⟨hdead, htouch.old⟩
  | published traceparent tracestate hk hpc => exact hone ⟨_, traceparent, tracestate, hk, hpc, rfl⟩
  | acked hk hpc => exact hone ⟨_, hk, hpc, rfl⟩
  | effect hcan => exact hone ⟨rfl, hcan⟩
  | tick d => exact hnil
  | owned _ _ _ _ => exact hnil
  | failed _ _ => exact hnil
  | dropped k => exact hnil

/-- An observation of the new history was made before, or is a fact of the state before. -/
theorem Next.mem_hist {a : Action ι} (hs : Next cfg s a s') {o : Obs ι} (ho : o ∈ s'.hist) :
    o ∈ s.hist ∨ Fact cfg s o := by
  obtain ⟨new, hhist, hnew⟩ := hs.news
  rw [hhist] at ho
  rcases List.mem_append.mp ho with ho | ho
  · exact .inr (hnew o ho).1
  · exact .inl ho

/-- The same with what came before the observation. -/
theorem Next.suffix_hist {a : Action ι} (hs : Next cfg s a s') {o : Obs ι} {pre : List (Obs ι)}
    (hsuf : (o :: pre) <:+ s'.hist) (ho : o.batched = false) :
    (o :: pre) <:+ s.hist ∨ (pre = s.hist ∧ Fact cfg s o) := by
  obtain ⟨new, hhist, hnew⟩ := hs.news
  rw [hhist] at hsuf
  by_cases hmem : o ∈ new
  · obtain ⟨hfact, hone⟩ := hnew o hmem
    rw [hone ho] at hsuf
    rcases List.suffix_cons_iff.mp hsuf with heq | hsuf
    · exact .inr ⟨(List.cons.inj heq).2, hfact⟩
    · exact .inl hsuf
  · exact .inl (Runs.suffix_of_not_mem hmem hsuf)

/-! ## Rules for reachable states -/

theorem Reachable.init (clock : Int) : Reachable cfg (State.init ι clock) := ⟨clock, Runs.Reach.refl _⟩

theorem Reachable.step {a : Action ι} (h : Reachable cfg s) (hs : Emitlane.step cfg s a = some s') :
    Reachable cfg s' := by
  obtain ⟨clock, hrun⟩ := h
  exact ⟨clock, hrun.tail trivial hs⟩

/-- An invariant kept by every step holds in every reachable state. -/
theorem Reachable.inv {I : State ι → Prop} (hinit : ∀ clock, I (State.init ι clock))
    (hnext : ∀ s a s', Reachable cfg s → I s → Next cfg s a s' → I s') (h : Reachable cfg s) : I s := by
  obtain ⟨clock, hrun⟩ := h
  refine (hrun.inv (I := fun s => Reachable cfg s ∧ I s) ?_ ⟨.init clock, hinit clock⟩).2
  rintro s a s' ⟨hreach, hi⟩ - hs
  exact ⟨hreach.step hs, hnext s a s' hreach hi (next_of_step hs)⟩

theorem Reachable.control (h : Reachable cfg s) : s.db.control.rows.length = 1 :=
  h.inv (I := fun s => s.db.control.rows.length = 1) (fun _ => rfl) fun _ _ _ _ hi hs => hs.control.trans hi

/-- A property of observations that holds when they are made, and that later observations leave, holds of all. -/
theorem Reachable.obs {P : List (Obs ι) → Obs ι → Prop} (hmono : ∀ new hist o, P hist o → P (new ++ hist) o)
    (hP : ∀ s o, Reachable cfg s → Fact cfg s o → P s.hist o) (h : Reachable cfg s) :
    ∀ o ∈ s.hist, P s.hist o := by
  refine h.inv (I := fun s => ∀ o ∈ s.hist, P s.hist o) (fun clock o ho => by cases ho) ?_
  intro s a s' hreach hi hs o ho
  obtain ⟨new, hhist, -⟩ := hs.news
  have hold : P s.hist o := (hs.mem_hist ho).elim (hi o) (hP s o hreach)
  rw [hhist]
  exact hmono new s.hist o hold

end

end Emitlane
