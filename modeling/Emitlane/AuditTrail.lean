import Emitlane.Delivery
import Emitlane.System.Origin

/-!
# AuditTrail — the audit log and what it accounts for

The audited operator calls of the outbox (pause and resume, the audited retry, the replays) write a record in the
transaction of the change, and no other call of the outbox touches `admin_audit_log` or `runtime_control`; the plain
RetryDead changes a row without a record.  So the control row can be computed from the log, and every replayed event
leads to the record of the call that made it.  The Inbox writes to the same log: `Journal` is about both.

* `Db.Unaudited`: what every other statement leaves alone.
* `Recorded`: what a step adds to the log, what it does to the control row, and where the rows it inserts come from.
* `Lineage`: the chain of replays from a producer's event to an event.
-/

namespace Emitlane

open Relay Outbox Rel

/-! ## Statements that leave no record -/

/-- The audit log and the runtime control are as they were. -/
structure Db.Unaudited (db db' : Db) : Prop where
  audit : db'.audit = db.audit
  control : db'.control = db.control

section Statements

variable {db db' : Db} {now : Int}

theorem Db.Unaudited.refl (db : Db) : db.Unaudited db := ⟨rfl, rfl⟩

theorem Db.Unaudited.trans {db'' : Db} (h : db.Unaudited db') (h' : db'.Unaudited db'') : db.Unaudited db'' :=
  ⟨h'.audit.trans h.audit, h'.control.trans h.control⟩

theorem Db.Unaudited.of_relays {t : Table relaysSchema} (h : db' = { db with relays := t }) : db.Unaudited db' :=
  ⟨by rw [h], by rw [h]⟩

theorem Db.updateEvents_unaudited {p : EventRow → Bool} {f : Progress → Progress} {out : List EventRow}
    (h : db.updateEvents now p f = some (db', out)) : db.Unaudited db' := by
  obtain ⟨t, -, heq⟩ := Option.map_eq_some_iff.mp h
  obtain ⟨rfl, -⟩ := Prod.mk.inj heq
  exact ⟨rfl, rfl⟩

theorem Db.exec_unaudited {what : String} {affected : Nat → Bool} {missing : StoreError} {p : EventRow → Bool}
    {f : Progress → Progress} (h : db.exec now what affected missing p f = .ok db') : db.Unaudited db' := by
  unfold Db.exec at h
  split at h
  · cases h
  · rename_i db₁ out hu
    split_ifs at h
    obtain rfl := Except.ok.inj h
    exact Db.updateEvents_unaudited hu

theorem Db.claim_unaudited {locked : Uuid → Bool} {owner : String} {limit lease : Int} {evs : List RelayEvent}
    (h : db.claim now locked owner limit lease = .ok (db', evs)) : db.Unaudited db' := by
  unfold Db.claim at h
  split_ifs at h
  · obtain ⟨rfl, -⟩ := Prod.mk.inj (Except.ok.inj h)
    exact .refl db
  · dsimp only at h
    split at h
    · cases h
    · rename_i db₁ out hu
      obtain ⟨rfl, -⟩ := Prod.mk.inj (Except.ok.inj h)
      exact Db.updateEvents_unaudited hu

theorem Db.claimOrdered_unaudited {locked : Uuid → Bool} {owner : String}
    {limit eventLease minimumPartitionLease : Int}
    {evs : List RelayEvent} (h : db.claimOrdered now locked owner limit eventLease minimumPartitionLease =
      .ok (db', evs)) :
    db.Unaudited db' := by
  unfold Db.claimOrdered at h
  split_ifs at h
  · obtain ⟨rfl, -⟩ := Prod.mk.inj (Except.ok.inj h)
    exact .refl db
  · dsimp only at h
    split at h
    · cases h
    · rename_i db₁ out hu
      obtain ⟨rfl, -⟩ := Prod.mk.inj (Except.ok.inj h)
      exact Db.updateEvents_unaudited hu

theorem beginAttempt_unaudited {c : Config} {ev : RelayEvent} {n : Int} (h : beginAttempt c db now ev = .ok (db', n)) :
    db.Unaudited db' := by
  unfold beginAttempt Db.beginOrderedAttempt Db.beginAttempt at h
  split_ifs at h
  all_goals
    split at h
    · cases h
    · cases h
    · rename_i db₁ r rest hu
      obtain ⟨rfl, -⟩ := Prod.mk.inj (Except.ok.inj h)
      exact Db.updateEvents_unaudited hu

theorem Db.markOrderedDelivered_unaudited {ev : RelayEvent} {owner : String}
    (h : db.markOrderedDelivered now ev owner = .ok db') : db.Unaudited db' := by
  unfold Db.markOrderedDelivered at h
  dsimp only at h
  split at h
  · cases h
  split_ifs at h
  split at h
  · rename_i streams db₁ out _ hu
    split_ifs at h
    obtain rfl := Except.ok.inj h
    have hsame := Db.updateEvents_unaudited hu
    exact ⟨hsame.audit, hsame.control⟩
  · cases h

theorem markDelivered_unaudited {c : Config} {ev : RelayEvent} (h : markDelivered c db now ev = .ok db') :
    db.Unaudited db' := by
  unfold markDelivered Db.markDelivered at h
  split_ifs at h
  · exact Db.markOrderedDelivered_unaudited h
  · exact Db.exec_unaudited h

theorem markRetry_unaudited {c : Config} {ev : RelayEvent} {delay : Int} {e : Bytes}
    (h : markRetry c db now ev delay e = .ok db') : db.Unaudited db' := by
  unfold markRetry Db.markRetry at h
  split_ifs at h <;> exact Db.exec_unaudited h

theorem markDead_unaudited {c : Config} {ev : RelayEvent} {e : Bytes} (h : markDead c db now ev e = .ok db') :
    db.Unaudited db' := by
  unfold markDead Db.markDead at h
  split_ifs at h <;> exact Db.exec_unaudited h

theorem onPublishFailure_unaudited {c : Config} {ctxDone : Bool} {ev : RelayEvent} {err : PublishError} {delay : Int}
    {m : Mark} (h : onPublishFailure c db now ctxDone ev err delay = some (m, .ok db')) : db.Unaudited db' := by
  unfold onPublishFailure at h
  split_ifs at h
  · exact markDead_unaudited (Prod.mk.inj (Option.some.inj h)).2
  · exact markRetry_unaudited (Prod.mk.inj (Option.some.inj h)).2

theorem Db.cleanupDelivered_unaudited {locked : Uuid → Bool} {retention limit n : Int}
    (h : db.cleanupDelivered now locked retention limit = .ok (db', n)) : db.Unaudited db' := by
  unfold Db.cleanupDelivered at h
  split_ifs at h
  · obtain ⟨rfl, -⟩ := Prod.mk.inj (Except.ok.inj h)
    exact .refl db
  · dsimp only at h
    split at h
    · cases h
    · obtain ⟨rfl, -⟩ := Prod.mk.inj (Except.ok.inj h)
      exact ⟨rfl, rfl⟩

theorem Db.reconcile_unaudited {a : ReconcileArgs} {result : List OrderingPartition}
    (h : db.reconcileOrderingPartitions now a = .ok (db', result)) : db.Unaudited db' := by
  have hframe := (Db.reconcileWith_ok h).2
  exact ⟨by rw [hframe], by rw [hframe]⟩

theorem Db.release_unaudited {owner : String} {margin : Int}
    (h : db.releaseOrderingPartitions now owner margin = .ok db') : db.Unaudited db' := by
  have hframe := (Db.releaseOrderingPartitions_ok h).2
  exact ⟨by rw [hframe], by rw [hframe]⟩

/-! ## Producers -/

/-- The new row of a producer has no history. -/
structure EventRow.Original (r : EventRow) : Prop where
  source : r.replayedFromEventID = none
  batch : r.replayBatchID = none

theorem enqueueRow_unaudited {c : Call} {row : EventRow} (h : enqueueRow db now c = .ok db' row) :
    db.Unaudited db' ∧ row.Original := by
  unfold enqueueRow insertEvent at h
  split at h
  · cases h
  split at h
  · cases h
  · rename_i db₁ hinsert
    obtain ⟨rfl, rfl⟩ := Outcome.ok.inj h
    split at hinsert
    · obtain rfl := Except.ok.inj hinsert
      exact ⟨⟨rfl, rfl⟩, rfl, rfl⟩
    · dsimp only at hinsert
      split_ifs at hinsert

theorem insertStream_unaudited {e : Event} {partition start : Int}
    (h : insertStream db now e partition start = some db') : db.Unaudited db' := by
  unfold insertStream at h
  split at h
  · obtain rfl := Option.some.inj h
    exact .refl db
  · obtain ⟨t, -, rfl⟩ := Option.map_eq_some_iff.mp h
    exact ⟨rfl, rfl⟩

theorem initializeOrderingStream_unaudited {e : Event} {partition start : Int}
    (h : initializeOrderingStream db now e partition start = .ok db' ∨
      ∃ err, initializeOrderingStream db now e partition start = .rejected db' err) : db.Unaudited db' := by
  unfold initializeOrderingStream at h
  cases hins : insertStream db now e partition start with
  | none => simp [hins] at h
  | some db₁ =>
    have hsame : db₁ = db' := by
      simp only [hins] at h
      split at h
      · simp at h
      · split at h <;> simpa using h
    exact hsame ▸ insertStream_unaudited hins

theorem enqueueRow_rejected {c : Call} {err : Error} (h : enqueueRow db now c = .rejected db' err) : db' = db := by
  unfold enqueueRow at h
  split at h
  · exact (Outcome.rejected.inj h).1.symm
  · split at h <;> cases h

theorem enqueue_ok_unaudited {c : Call} {row : EventRow} (h : enqueue db now c = .ok db' row) :
    db.Unaudited db' ∧ row.Original := by
  unfold enqueue at h
  split at h
  · cases h
  split_ifs at h
  · exact enqueueRow_unaudited h
  · dsimp only at h
    split at h
    · cases h
    · cases h
    · rename_i db₁ hinit
      obtain ⟨hrow, horiginal⟩ := enqueueRow_unaudited h
      exact ⟨(initializeOrderingStream_unaudited (.inl hinit)).trans hrow, horiginal⟩

theorem enqueue_rejected_unaudited {c : Call} {err : Error} (h : enqueue db now c = .rejected db' err) :
    db.Unaudited db' := by
  unfold enqueue at h
  split at h
  · exact (Outcome.rejected.inj h).1 ▸ .refl db
  split_ifs at h
  · exact enqueueRow_rejected h ▸ .refl db
  · dsimp only at h
    split at h
    · cases h
    · rename_i db₁ err₁ hinit
      obtain ⟨rfl, -⟩ := Outcome.rejected.inj h
      exact initializeOrderingStream_unaudited (.inr ⟨err₁, hinit⟩)
    · rename_i db₁ hinit
      exact enqueueRow_rejected h ▸ initializeOrderingStream_unaudited (.inl hinit)

theorem enqueueAll_unaudited : ∀ {calls : List Call} {db : Db} {rows : List EventRow},
    enqueueAll now db calls = some (db', rows) → db.Unaudited db' ∧ ∀ r ∈ rows, r.Original
  | [], db, rows, h => by
    obtain ⟨rfl, rfl⟩ := Prod.mk.inj (Option.some.inj h)
    exact ⟨.refl db, fun r hr => by cases hr⟩
  | c :: cs, db, rows, h => by
    cases hc : enqueue db now c with
    | ok db₁ row =>
      simp only [enqueueAll, hc] at h
      obtain ⟨x, hx, heq⟩ := Option.map_eq_some_iff.mp h
      obtain ⟨hdb, rfl⟩ := Prod.mk.inj heq
      have hcs : enqueueAll now db₁ cs = some (db', x.2) := by rw [hx, ← hdb]
      obtain ⟨hsame, horiginal⟩ := enqueue_ok_unaudited hc
      obtain ⟨hsame', horiginals⟩ := enqueueAll_unaudited hcs
      exact ⟨hsame.trans hsame', List.forall_mem_cons.mpr ⟨horiginal, horiginals⟩⟩
    | rejected db₁ err =>
      simp only [enqueueAll, hc] at h
      obtain ⟨hsame', horiginals⟩ := enqueueAll_unaudited h
      exact ⟨(enqueue_rejected_unaudited hc).trans hsame', horiginals⟩
    | aborted err =>
      simp only [enqueueAll, hc] at h
      cases h

/-! ## Operators -/

theorem Db.insertAudit_rows {id : Uuid} {action : String} {m : Mutation} {target batch : Option Uuid}
    (h : db.insertAudit now id action m target batch = .ok db') :
    db'.events = db.events ∧ db'.control = db.control ∧ db'.audit.rows = db.audit.rows ++
      [{ id := id, action := action, actor := m.actor, reason := nullString m.reason,
         requestID := nullString m.requestID, targetEventID := target, replayBatchID := batch, createdAt := now }] := by
  unfold Db.insertAudit at h
  split at h
  · cases h
  · rename_i t ht
    obtain rfl := Except.ok.inj h
    exact ⟨rfl, rfl, Table.write_rows ht⟩

/-- What SetPaused writes to the control row. -/
def ControlRow.set (paused : Bool) (reason : Option String) (updatedAt : Int) (updatedBy : String) (r : ControlRow) :
    ControlRow :=
  { r with paused := paused, reason := reason, updatedAt := updatedAt, updatedBy := updatedBy }

/-- The clones of a replay. -/
theorem Db.cloneReplay_rows {source : EventRow} {eventID batchID : Uuid} {m : Mutation}
    (h : db.cloneReplay now source eventID batchID m = .ok db') :
    db.Unaudited db' ∧ ∀ r ∈ db'.events.rows, r ∈ db.events.rows ∨
      r = replayRow now source eventID batchID m (replayHeaders source) := by
  unfold Db.cloneReplay at h
  split_ifs at h
  split at h
  · cases h
  · rename_i t ht
    obtain rfl := Except.ok.inj h
    exact ⟨⟨rfl, rfl⟩, fun r hr => (Table.mem_insert ht).mp hr⟩

theorem Db.cloneAll_rows {batchID : Uuid} {m : Mutation} : ∀ {sources : List (EventRow × Uuid)} {db : Db},
    db.cloneAll now batchID m sources = .ok db' →
      db.Unaudited db' ∧ ∀ r ∈ db'.events.rows, r ∈ db.events.rows ∨
        ∃ x ∈ sources, r = replayRow now x.1 x.2 batchID m (replayHeaders x.1)
  | [], db, h => by
    obtain rfl : db = db' := Except.ok.inj h
    exact ⟨.refl db, fun r hr => .inl hr⟩
  | (source, eventID) :: rest, db, h => by
    obtain ⟨db₁, hclone, hrest⟩ := bind_eq_ok.mp h
    obtain ⟨hsame, hrows⟩ := Db.cloneReplay_rows hclone
    obtain ⟨hsame', hrows'⟩ := Db.cloneAll_rows hrest
    refine ⟨hsame.trans hsame', fun r hr => ?_⟩
    rcases hrows' r hr with hr | ⟨x, hx, rfl⟩
    · rcases hrows r hr with hr | rfl
      · exact .inl hr
      · exact .inr ⟨(source, eventID), List.mem_cons_self, rfl⟩
    · exact .inr ⟨x, List.mem_cons_of_mem _ hx, rfl⟩

end Statements

/-! ## What a step records -/

/-- The record of the call that cloned `source` into `row`. -/
structure AuditRow.Accounts (x : AuditRow) (source row : EventRow) : Prop where
  clone : ∃ batch m, row = replayRow x.createdAt source row.id batch m (replayHeaders source) ∧
    x.replayBatchID = some batch ∧ x.actor = m.actor
  call : (x.action = "event.replay" ∧ x.targetEventID = some source.id) ∨
    (x.action = "replay.batch" ∧ x.targetEventID = none)

section Steps

variable {ι : Type} {cfg : ι → Config} {s s' : State ι} {a : Action ι}

/-- The audit record of an operator call at `now`. -/
def auditRecord (now : Int) : Action ι → Option AuditRow
  | .setPaused paused m auditID => some (record auditID (if paused then "relay.pause" else "relay.resume") m none none)
  | .retryDeadAudited id m auditID => some (record auditID "event.retry" m (some id) none)
  | .replayEvent sourceID m _ batchID auditID => some (record auditID "event.replay" m (some sourceID) (some batchID))
  | .replayBatch _ m _ batchID auditID _ => some (record auditID "replay.batch" m none (some batchID))
  | _ => none
where
  record (id : Uuid) (action : String) (m : Mutation) (target batch : Option Uuid) : AuditRow :=
    { id := id, action := action, actor := m.actor, reason := nullString m.reason,
      requestID := nullString m.requestID, targetEventID := target, replayBatchID := batch, createdAt := now }

/-- What a call does to the control row. -/
def controlWrite (now : Int) : Action ι → ControlRow → ControlRow
  | .setPaused paused m _ => ControlRow.set paused (nullString m.reason) now m.actor
  | _ => id

/-- The log, the control row and the new events after a step. -/
structure Recorded (s : State ι) (a : Action ι) (s' : State ι) : Prop where
  audit : s'.db.audit.rows = s.db.audit.rows ++ (auditRecord s.clock a).toList
  control : s'.db.control.rows = s.db.control.rows.map fun r => if r.singleton then controlWrite s.clock a r else r
  enqueued : ∀ row, Obs.enqueued row ∈ s'.hist → Obs.enqueued row ∈ s.hist ∨ row.Original ∨
    ∃ source ∈ s.db.events.rows, ∃ x ∈ auditRecord s.clock a, x.Accounts source row

theorem controlWrite_of_unaudited (ha : auditRecord s.clock a = none) (r : ControlRow) :
    controlWrite s.clock a r = r := by
  cases a with
  | setPaused => cases ha
  | _ => rfl

theorem map_control_id {f : ControlRow → ControlRow} (hf : ∀ r, f r = r) (rows : List ControlRow) :
    (rows.map fun r => if r.singleton then f r else r) = rows := by
  simp [hf]

theorem Recorded.of_unaudited (ha : auditRecord s.clock a = none) (h : s.db.Unaudited s'.db)
    (hhist : ∀ row, Obs.enqueued row ∈ s'.hist → Obs.enqueued row ∈ s.hist ∨ row.Original) :
    Recorded s a s' where
  audit := by rw [ha, h.audit, Option.toList_none, List.append_nil]
  control := by rw [h.control, map_control_id (controlWrite_of_unaudited ha)]
  enqueued row hrow := (hhist row hrow).imp_right .inl

/-- A step of a handler. -/
theorem Recorded.of_handler (ha : auditRecord s.clock a = none) (hdb : s'.db = s.db)
    (hhist : ∀ row, Obs.enqueued row ∈ s'.hist → Obs.enqueued row ∈ s.hist) : Recorded s a s' :=
  .of_unaudited ha (hdb ▸ .refl s.db) fun row hrow => .inl (hhist row hrow)

theorem Recorded.finish (ha : auditRecord s.clock a = none) {k : Nat} {hd : Handler ι} {m : Mark}
    {result : Except StoreError Db} (hresult : ∀ db, result = .ok db → s.db.Unaudited db) :
    Recorded s a (s.finish k hd m result) := by
  unfold State.finish
  split
  · exact .of_handler ha rfl fun row hrow => hrow
  · exact .of_unaudited ha (hresult _ rfl) fun row hrow => .inl (by simpa using hrow)

theorem Recorded.withDb (ha : auditRecord s.clock a = none) {result : Except StoreError Db}
    (hresult : ∀ db, result = .ok db → s.db.Unaudited db) (h : s.withDb result = some s') : Recorded s a s' := by
  obtain ⟨db, hdb, rfl⟩ := State.withDb_eq_some h
  exact .of_unaudited ha (hresult db hdb) fun row hrow => .inl hrow

theorem recorded_begin {k : Nat} {hd : Handler ι} : Recorded s (.begin k) (s.begin cfg k hd) := by
  unfold State.begin
  dsimp only
  split_ifs
  · exact .finish rfl fun db hdb => markDead_unaudited hdb
  · split
    · exact .of_handler rfl rfl fun row hrow => hrow
    · rename_i db n hbegin
      exact .of_unaudited rfl (beginAttempt_unaudited hbegin) fun row hrow => .inl (by simpa using hrow)

theorem recorded_settle {k : Nat} {hd : Handler ι} {ctxDone : Bool} {delay : Int}
    (h : s.settle cfg k hd ctxDone delay = some s') : Recorded s (.settle k ctxDone delay) s' := by
  unfold State.settle at h
  split at h
  · obtain rfl := Option.some.inj h
    exact .finish rfl fun db hdb => markDelivered_unaudited hdb
  · split at h
    · obtain rfl := Option.some.inj h
      exact .of_handler rfl rfl fun row hrow => hrow
    · rename_i m result hfail
      obtain rfl := Option.some.inj h
      refine .finish rfl fun db hdb => ?_
      rw [hdb] at hfail
      exact onPublishFailure_unaudited hfail
  · cases h

theorem claimResult_unaudited {i : ι} {db : Db} {evs : List RelayEvent} (h : claimResult cfg s a = some (i, db, evs)) :
    s.db.Unaudited db := by
  unfold claimResult at h
  split at h
  · split at h
    · cases h
    · rename_i hclaim
      obtain ⟨-, rfl, rfl⟩ := Option.some.inj h
      exact Db.claim_unaudited hclaim
  · split at h
    · cases h
    · rename_i hclaim
      obtain ⟨-, rfl, rfl⟩ := Option.some.inj h
      exact Db.claimOrdered_unaudited hclaim
  · cases h

theorem recorded_claim (ha : auditRecord s.clock a = none)
    (h : ((claimResult cfg s a).map fun x => s.dispatch x.1 x.2.1 x.2.2) = some s') : Recorded s a s' := by
  obtain ⟨⟨i, db, evs⟩, hresult, rfl⟩ := Option.map_eq_some_iff.mp h
  exact .of_unaudited ha (claimResult_unaudited hresult) fun row hrow => .inl (by simpa [State.dispatch] using hrow)

theorem recorded_setPaused {paused : Bool} {m : Mutation} {auditID : Uuid} {db : Db}
    (h : s.db.setPaused s.clock paused m auditID = .ok db) :
    Recorded s (.setPaused paused m auditID) { s with db := db } := by
  unfold Db.setPaused at h
  split at h
  · cases h
  rename_i t ht
  split_ifs at h with hrow hpaused
  all_goals
    obtain ⟨-, hcontrol, haudit⟩ := Db.insertAudit_rows h
    refine ⟨?_, ?_, fun row hrow => .inl hrow⟩
    · simpa [auditRecord, auditRecord.record, hpaused] using haudit
    · show db.control.rows = _
      rw [hcontrol]
      exact Table.write_rows ht

theorem recorded_retry {id auditID : Uuid} {m : Mutation} {db : Db}
    (h : s.db.retryDeadAudited s.clock id m auditID = .ok db) {obs : List EventRow} :
    Recorded s (.retryDeadAudited id m auditID) { s with db := db, hist := obs.map .revived ++ s.hist } := by
  unfold Db.retryDeadAudited at h
  split at h
  · cases h
  split_ifs at h
  split at h
  · cases h
  · rename_i db₁ out hupdate
    have hsame := Db.updateEvents_unaudited hupdate
    obtain ⟨-, hcontrol, haudit⟩ := Db.insertAudit_rows h
    refine ⟨?_, ?_, fun row hrow => .inl (by simpa using hrow)⟩
    · rw [haudit, hsame.audit]
      rfl
    · show db.control.rows = _
      rw [hcontrol, hsame.control]
      exact (map_control_id (fun _ => rfl) _).symm

/-- The rows a replay inserts are those the clones put there. -/
theorem recorded_replay {x : Except StoreError Db} {m : Mutation} {auditID batchID : Uuid} {action : String}
    {target : Option Uuid} {created result : ReplayResult} {db : Db}
    (ha : auditRecord s.clock a = some (auditRecord.record s.clock auditID action m target (some batchID)))
    (hwrite : ∀ r, controlWrite s.clock a r = r)
    (hx : ∀ db₁, x = .ok db₁ → s.db.Unaudited db₁ ∧ ∀ r ∈ db₁.events.rows, r ∈ s.db.events.rows ∨
      ∃ source ∈ s.db.events.rows, r = replayRow s.clock source r.id batchID m (replayHeaders source) ∧
        ((action = "event.replay" ∧ target = some source.id) ∨ (action = "replay.batch" ∧ target = none)))
    (h : ((x.bind fun db₁ => db₁.insertAudit s.clock auditID action m target (some batchID)).map
      fun db₂ => (db₂, created)) = .ok (db, result)) : Recorded s a (s.insert db (db.rowsNotIn s.db)) := by
  obtain ⟨db₂, hbind, heq⟩ := map_eq_ok.mp h
  obtain ⟨db₁, hclone, hinsert⟩ := bind_eq_ok.mp hbind
  obtain ⟨rfl, -⟩ := Prod.mk.inj heq
  obtain ⟨hevents, hcontrol, haudit⟩ := Db.insertAudit_rows hinsert
  obtain ⟨hsame, hrows⟩ := hx db₁ hclone
  refine ⟨?_, ?_, fun row hrow => ?_⟩
  · rw [ha, State.insert_db, haudit, hsame.audit]
    rfl
  · rw [State.insert_db, hcontrol, hsame.control, map_control_id hwrite]
  · have hcases : row ∈ db₂.rowsNotIn s.db ∨ Obs.enqueued row ∈ s.hist := by simpa [State.insert] using hrow
    rcases hcases with hnew | hold
    · obtain ⟨hmem, hnone⟩ := List.mem_filter.mp hnew
      rw [hevents] at hmem
      rcases hrows row hmem with hmem | ⟨source, hsource, hrow, hcall⟩
      · rw [s.db.row_mem hmem] at hnone
        cases hnone
      · exact .inr (.inr ⟨source, hsource, _, ha, ⟨batchID, m, hrow, rfl, rfl⟩, hcall⟩)
    · exact .inl hold

theorem recorded_replayEvent {sourceID eventID batchID auditID : Uuid} {m : Mutation} {db : Db} {result : ReplayResult}
    (h : s.db.replayEvent s.clock sourceID m eventID batchID auditID = .ok (db, result)) :
    Recorded s (.replayEvent sourceID m eventID batchID auditID) (s.insert db (db.rowsNotIn s.db)) := by
  unfold Db.replayEvent at h
  split at h
  · cases h
  rename_i source hsource
  split_ifs at h
  refine recorded_replay rfl (fun _ => rfl) (fun db₁ hclone => ?_) h
  obtain ⟨hsame, hrows⟩ := Db.cloneReplay_rows hclone
  refine ⟨hsame, fun r hr => (hrows r hr).imp_right fun heq => ?_⟩
  have hmem := lookup_mem hsource
  have hid := lookup_key hsource
  subst heq
  exact ⟨source, hmem, rfl, .inl ⟨rfl, by rw [hid]⟩⟩

theorem recorded_replayBatch {filter : EventFilter} {m : Mutation} {limit : Int} {batchID auditID : Uuid}
    {newID : Nat → Uuid} {db : Db} {result : ReplayResult}
    (h : s.db.replayBatch s.clock filter m limit batchID auditID newID = .ok (db, result)) :
    Recorded s (.replayBatch filter m limit batchID auditID newID) (s.insert db (db.rowsNotIn s.db)) := by
  unfold Db.replayBatch at h
  dsimp only at h
  split_ifs at h
  refine recorded_replay rfl (fun _ => rfl) (fun db₁ hclone => ?_) h
  obtain ⟨hsame, hrows⟩ := Db.cloneAll_rows hclone
  refine ⟨hsame, fun r hr => (hrows r hr).imp_right ?_⟩
  rintro ⟨⟨source, eventID⟩, hx, rfl⟩
  have hsource : source ∈ s.db.replaySources filter limit := (List.of_mem_zip hx).1
  have hmem := (List.mem_insertionSort _).mp (List.mem_of_mem_take hsource)
  exact ⟨source, (List.mem_filter.mp hmem).1, rfl, .inr ⟨rfl, rfl⟩⟩

theorem recorded_of_step (h : step cfg s a = some s') : Recorded s a s' := by
  cases a with
  | tick d =>
    obtain rfl := Option.some.inj h
    exact .of_handler rfl rfl fun row hrow => hrow
  | produce started calls commit =>
    simp only [step] at h
    split_ifs at h
    · obtain ⟨⟨db, rows⟩, hall, rfl⟩ := Option.map_eq_some_iff.mp h
      obtain ⟨hsame, horiginal⟩ := enqueueAll_unaudited hall
      refine .of_unaudited rfl hsame fun row hrow => ?_
      have hcases : row ∈ rows ∨ Obs.enqueued row ∈ s.hist := by simpa [State.insert] using hrow
      exact hcases.symm.imp_right (horiginal row)
    · obtain rfl := Option.some.inj h
      exact .of_handler rfl rfl fun row hrow => hrow
  | claim i limit locked => exact recorded_claim rfl h
  | claimOrdered i limit locked => exact recorded_claim rfl h
  | begin k =>
    simp only [step] at h
    split at h
    · split_ifs at h
      obtain rfl := Option.some.inj h
      exact recorded_begin
    · cases h
  | interrupt k err =>
    simp only [step] at h
    split at h
    · split_ifs at h
      obtain rfl := Option.some.inj h
      exact .of_handler rfl rfl fun row hrow => hrow
    · cases h
  | publish k traceparent tracestate =>
    simp only [step] at h
    split at h
    · split_ifs at h
      obtain rfl := Option.some.inj h
      exact .of_handler rfl rfl fun row hrow => by simpa [State.setHandler] using hrow
    · cases h
  | ack k =>
    simp only [step] at h
    split at h
    · split_ifs at h
      obtain rfl := Option.some.inj h
      exact .of_handler rfl rfl fun row hrow => by simpa [State.setHandler] using hrow
    · cases h
  | fail k err =>
    simp only [step] at h
    split at h
    · split_ifs at h
      obtain rfl := Option.some.inj h
      exact .of_handler rfl rfl fun row hrow => hrow
    · cases h
  | settle k ctxDone delay =>
    simp only [step] at h
    split at h
    · exact recorded_settle h
    · cases h
  | crash k =>
    obtain rfl := Option.some.inj h
    exact .of_handler rfl rfl fun row hrow => hrow
  | effect k =>
    simp only [step] at h
    split_ifs at h
    obtain rfl := Option.some.inj h
    exact .of_handler rfl rfl fun row hrow => by simpa using hrow
  | retryDead id =>
    obtain ⟨s₁, hs₁, rfl⟩ := Option.map_eq_some_iff.mp h
    obtain ⟨db, hdb, rfl⟩ := State.withDb_eq_some hs₁
    exact .of_unaudited rfl (Db.exec_unaudited hdb) fun row hrow => .inl (by simpa using hrow)
  | retryDeadAudited id m auditID =>
    obtain ⟨s₁, hs₁, rfl⟩ := Option.map_eq_some_iff.mp h
    obtain ⟨db, hdb, rfl⟩ := State.withDb_eq_some hs₁
    exact recorded_retry hdb
  | replayEvent sourceID m eventID batchID auditID =>
    simp only [step] at h
    split at h
    · cases h
    · rename_i hreplay
      obtain rfl := Option.some.inj h
      exact recorded_replayEvent hreplay
  | replayBatch filter m limit batchID auditID newID =>
    simp only [step] at h
    split at h
    · cases h
    · rename_i hreplay
      obtain rfl := Option.some.inj h
      exact recorded_replayBatch hreplay
  | cleanup retention limit locked =>
    simp only [step] at h
    split at h
    · cases h
    · rename_i hcleanup
      obtain rfl := Option.some.inj h
      exact .of_unaudited rfl (Db.cleanupDelivered_unaudited hcleanup) fun row hrow => .inl (by simpa using hrow)
  | setPaused paused m auditID =>
    obtain ⟨db, hdb, rfl⟩ := State.withDb_eq_some h
    exact recorded_setPaused hdb
  | reconcile i =>
    refine .withDb rfl (fun db hdb => ?_) h
    obtain ⟨⟨db₁, parts⟩, hrec, rfl⟩ := map_eq_ok.mp hdb
    exact Db.reconcile_unaudited hrec
  | release i => exact .withDb rfl (fun db hdb => Db.release_unaudited hdb) h
  | register presence => exact .withDb rfl (fun db hdb => .of_relays (Db.registerRelay_ok hdb)) h
  | heartbeat i => exact .withDb rfl (fun db hdb => .of_relays (Db.touchRelay_ok hdb)) h
  | markStopped i => exact .withDb rfl (fun db hdb => .of_relays (Db.touchRelay_ok hdb)) h

/-! ## Whole runs -/

/-- The control row after the recorded call. -/
def AuditRow.apply (c : ControlRow) (x : AuditRow) : ControlRow :=
  if x.action = "relay.pause" then c.set true x.reason x.createdAt x.actor
  else if x.action = "relay.resume" then c.set false x.reason x.createdAt x.actor
  else c

/-- The control row the log tells. -/
def controlRow (log : List AuditRow) : ControlRow := log.foldl AuditRow.apply seedControl

theorem apply_record (now : Int) (a : Action ι) (c : ControlRow) :
    (auditRecord now a).toList.foldl AuditRow.apply c = controlWrite now a c := by
  cases a with
  | setPaused paused m auditID => cases paused <;> rfl
  | _ => rfl

theorem AuditRow.apply_singleton (c : ControlRow) (x : AuditRow) : (x.apply c).singleton = c.singleton := by
  unfold AuditRow.apply
  split_ifs <;> rfl

theorem controlRow_singleton (log : List AuditRow) : (controlRow log).singleton = true := by
  refine List.foldlRecOn log _ (motive := fun c : ControlRow => c.singleton = true) rfl fun c hc x _ => ?_
  rw [AuditRow.apply_singleton]
  exact hc

/-- The columns a replay keeps. -/
structure EventRow.SameContent (r row : EventRow) : Prop where
  destination : row.destination = r.destination
  eventType : row.eventType = r.eventType
  messageKey : row.messageKey = r.messageKey
  payload : row.payload = r.payload
  contentType : row.contentType = r.contentType
  schemaVersion : row.schemaVersion = r.schemaVersion
  correlationID : row.correlationID = r.correlationID
  causationID : row.causationID = r.causationID

theorem EventRow.SameContent.refl (r : EventRow) : r.SameContent r := ⟨rfl, rfl, rfl, rfl, rfl, rfl, rfl, rfl⟩

theorem AuditRow.Accounts.content {x : AuditRow} {r source row : EventRow} (h : x.Accounts source row)
    (hr : r.SameContent source) : r.SameContent row := by
  obtain ⟨batch, m, hrow, -, -⟩ := h.clone
  rw [hrow]
  exact ⟨hr.destination, hr.eventType, hr.messageKey, hr.payload, hr.contentType, hr.schemaVersion, hr.correlationID,
    hr.causationID⟩

/-- The clone is a function of the envelope alone. -/
theorem AuditRow.Accounts.envelope {x : AuditRow} {r source row : EventRow} (h : x.Accounts source row)
    (hr : r.toEnvelope = source.toEnvelope) : x.Accounts r row := by
  obtain ⟨⟨batch, m, hrow, hbatch, hactor⟩, hcall⟩ := h
  have hid : r.id = source.id := congrArg Envelope.id hr
  have hclone : replayRow x.createdAt source row.id batch m (replayHeaders source) =
      replayRow x.createdAt r row.id batch m (replayHeaders r) := by
    unfold replayRow replayHeaders
    rw [hr]
  exact ⟨⟨batch, m, hrow.trans hclone, hbatch, hactor⟩, by rw [hid]; exact hcall⟩

/-- A producer enqueued the event, or a recorded call cloned it from such an event, over any number of replays. -/
inductive Lineage (s : State ι) : EventRow → Prop
  | original {row : EventRow} (henqueued : Obs.enqueued row ∈ s.hist) (horiginal : row.Original) : Lineage s row
  | replay {source row : EventRow} {x : AuditRow} (hsource : Lineage s source) (hx : x ∈ s.db.audit.rows)
      (haccounts : x.Accounts source row) : Lineage s row

theorem Lineage.mono {row : EventRow} (h : Lineage s row) (hhist : s.hist ⊆ s'.hist)
    (haudit : s.db.audit.rows ⊆ s'.db.audit.rows) : Lineage s' row := by
  induction h with
  | original henqueued horiginal => exact .original (hhist henqueued) horiginal
  | replay _ hx haccounts ih => exact .replay ih (haudit hx) haccounts

/-- The event a chain of replays begins with. -/
theorem Lineage.origin {row : EventRow} (h : Lineage s row) :
    ∃ origin, Obs.enqueued origin ∈ s.hist ∧ origin.Original ∧ origin.SameContent row := by
  induction h with
  | @original row henqueued horiginal => exact ⟨row, henqueued, horiginal, .refl row⟩
  | replay _ _ haccounts ih =>
    obtain ⟨origin, henqueued, horiginal, hcontent⟩ := ih
    exact ⟨origin, henqueued, horiginal, haccounts.content hcontent⟩

theorem Reachable.step_inv {I : State ι → Prop} (hinit : ∀ clock, I (State.init ι clock))
    (hstep : ∀ s a s', Reachable cfg s → I s → Emitlane.step cfg s a = some s' → I s') (h : Reachable cfg s) :
    I s := by
  obtain ⟨clock, hrun⟩ := h
  refine (hrun.inv (I := fun s => Reachable cfg s ∧ I s) ?_ ⟨.init clock, hinit clock⟩).2
  rintro s a s' ⟨hreach, hi⟩ - hs
  exact ⟨hreach.step hs, hstep s a s' hreach hi hs⟩

theorem Reachable.control_rows (h : Reachable cfg s) : s.db.control.rows = [controlRow s.db.audit.rows] := by
  refine h.step_inv (I := fun s => s.db.control.rows = [controlRow s.db.audit.rows]) (fun _ => rfl) ?_
  intro s a s' _ hi hs
  have hrecorded := recorded_of_step hs
  rw [hrecorded.control, hrecorded.audit, hi, List.map_singleton, if_pos (controlRow_singleton _), controlRow,
    controlRow, List.foldl_append, apply_record]

/-- A step keeps the lineages if the rows of the table are enqueued ones: the source of a clone is such a row. -/
theorem Recorded.lineage (h : Recorded s a s') (hhist : s.hist ⊆ s'.hist)
    (hrows : ∀ id r, s.db.row id = some r → Enqueued s.hist r.toEnvelope)
    (hi : ∀ row, Obs.enqueued row ∈ s.hist → Lineage s row) :
    ∀ row, Obs.enqueued row ∈ s'.hist → Lineage s' row := by
  intro row hrow
  have hmono : ∀ {row}, Lineage s row → Lineage s' row := fun hl =>
    hl.mono hhist (h.audit ▸ List.subset_append_left _ _)
  rcases h.enqueued row hrow with hold | horiginal | ⟨source, hsource, x, hx, haccounts⟩
  · exact hmono (hi row hold)
  · exact .original hrow horiginal
  · obtain ⟨r, hr, henv⟩ := hrows source.id source (s.db.row_mem hsource)
    refine .replay (hmono (hi r hr)) ?_ (haccounts.envelope henv)
    rw [h.audit]
    exact List.mem_append_right _ (Option.mem_toList.mpr hx)

end Steps

/-- The mutation of the operator. -/
def exampleMutation : Mutation where
  actor := "ops"
  reason := "rerun"
  requestID := ""
  traceparent := ""
  tracestate := ""
  orderingMode := ""

end Emitlane
