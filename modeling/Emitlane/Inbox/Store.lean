import Emitlane.Schema

/-!
# Inbox.Store — the table of migration 4 and the calls of `storage/postgres/inbox.go`

`inbox_events` has one row for each (consumer, event_id).  The managed calls take a row through its lifecycle: `claim`
creates it and leases it under a token, `renew`, `markProcessed`, `markRetry` and `markDead` ask for this token, and
the operator's `retryDead` opens a dead row again.

Each call is one atomic step at the database instant `now`, and one that returns an error leaves the tables as they
were.  `markProcessed` runs inside the transaction of the handler, so it is given here on one row.
-/

namespace Emitlane.Inbox

open Rel

/-! ## inbox_events -/

inductive Status
  | pending
  | inflight
  | retryWait
  | processed
  | dead
  deriving DecidableEq, Repr

def Status.text : Status → String
  | .pending => "pending"
  | .inflight => "inflight"
  | .retryWait => "retry_wait"
  | .processed => "processed"
  | .dead => "dead"

/-- The columns fixed at insert. -/
structure Origin where
  consumer : String
  eventID : Uuid
  firstSeenAt : Int
  sourceTopic : Option String
  sourcePartition : Option Int
  sourceOffset : Option Int
  sourceTimestamp : Option Int
  deriving DecidableEq

structure Row extends Origin where
  status : Status
  attempts : Int
  availableAt : Int
  leaseOwner : Option String
  leaseToken : Option Uuid
  leaseUntil : Option Int
  lastError : Option Bytes
  updatedAt : Int
  processedAt : Option Int
  deriving DecidableEq

abbrev Key := String × Uuid

/-- The primary key. -/
def Origin.key (o : Origin) : Key := (o.consumer, o.eventID)

/-- `inbox_lease_state_check`. -/
def Row.leaseStateCheck (r : Row) : Bool :=
  (r.status = .inflight && r.leaseOwner.any (btrim · ≠ "") && r.leaseToken.isSome && r.leaseUntil.isSome) ||
    (r.status ≠ .inflight && r.leaseOwner.isNone && r.leaseToken.isNone && r.leaseUntil.isNone)

/-- `inbox_source_metadata_check` with the ranges of its columns; a comparison with NULL does not fail a CHECK. -/
def Row.sourceMetadataCheck (r : Row) : Bool :=
  (r.sourceTopic.isNone && r.sourcePartition.isNone && r.sourceOffset.isNone && r.sourceTimestamp.isNone &&
      r.status = .processed) ||
    (r.sourceTopic.any (btrim · ≠ "") && r.sourcePartition.all (fun p => 0 ≤ p && p ≤ maxInt32) &&
      r.sourceOffset.all (fun o => 0 ≤ o && o ≤ maxInt64))

def Row.check (r : Row) : Bool :=
  textOk r.consumer && r.leaseOwner.all textOk && r.sourceTopic.all textOk && btrim r.consumer ≠ "" &&
    0 ≤ r.attempts && r.attempts ≤ maxInt32 && r.leaseStateCheck &&
    decide (r.status = .processed) == r.processedAt.isSome && r.sourceMetadataCheck

/-- The rows `inbox_source_unique_idx` does not allow together; NULLs are distinct. -/
def Row.sameSource (a b : Row) : Bool :=
  a.sourceTopic.isSome && a.sourcePartition.isSome && a.sourceOffset.isSome && a.consumer = b.consumer &&
    a.sourceTopic = b.sourceTopic && a.sourcePartition = b.sourcePartition && a.sourceOffset = b.sourceOffset

def inboxSchema : Schema Row where
  Ok rows := (rows.map (·.key)).Nodup ∧ (∀ r ∈ rows, r.check = true) ∧
    rows.Pairwise (fun a b => a.sameSource b = false)
  dec _ := inferInstance

/-- The tables the Inbox calls touch. -/
structure Db where
  inbox : Table inboxSchema
  audit : Table auditSchema

def Db.empty : Db where
  inbox := ⟨[], by decide⟩
  audit := ⟨[], auditSchema_nil⟩

def Db.row (db : Db) (k : Key) : Option Row := lookup (fun r : Row => r.key) db.inbox.rows k

/-! ## Errors -/

/-- The errors of `inbox/errors.go`. -/
inductive Sentinel
  | errAlreadyProcessed
  | errInvalidRequest
  | errLifecycleConflict
  | errLeaseLost
  | errNotFound
  deriving DecidableEq, Repr

def Sentinel.text : Sentinel → String
  | .errAlreadyProcessed => "inbox: event already processed"
  | .errInvalidRequest => "inbox: invalid request"
  | .errLifecycleConflict => "inbox: lifecycle conflict"
  | .errLeaseLost => "inbox: lease lost"
  | .errNotFound => "inbox: event not found"

/-- An error of a call.  Where a statement fails, `text` is the text in front of the driver's. -/
structure Error where
  sentinel : Option Sentinel
  text : String
  deriving DecidableEq, Repr

def Error.sql (what : String) : Error := ⟨none, what⟩

/-- The sentinel itself. -/
def Error.of (e : Sentinel) : Error := ⟨some e, e.text⟩

/-- `fmt.Errorf("%w: detail", e)`. -/
def Error.wrap (e : Sentinel) (detail : String) : Error := ⟨some e, s!"{e.text}: {detail}"⟩

/-! ## Claim -/

/-- `inbox.Source`; a zero timestamp is stored as NULL. -/
structure Source where
  topic : String
  partition : Int
  offset : Int
  timestamp : Option Int
  deriving DecidableEq

structure ClaimRequest where
  consumer : String
  eventID : Uuid
  source : Source
  leaseOwner : String
  leaseDuration : Int

def ClaimRequest.key (req : ClaimRequest) : Key := (req.consumer, req.eventID)

/-- `inbox.Event`. -/
structure Event where
  consumer : String
  eventID : Uuid
  status : Status
  attempts : Int
  availableAt : Int
  leaseOwner : String
  leaseToken : Uuid
  leaseUntil : Option Int
  lastError : Bytes
  firstSeenAt : Int
  updatedAt : Int
  processedAt : Option Int
  source : Option Source

def scanInboxEvent (r : Row) : Event where
  consumer := r.consumer
  eventID := r.eventID
  status := r.status
  attempts := r.attempts
  availableAt := r.availableAt
  leaseOwner := deref r.leaseOwner
  leaseToken := r.leaseToken.getD 0
  leaseUntil := r.leaseUntil
  lastError := r.lastError.getD []
  firstSeenAt := r.firstSeenAt
  updatedAt := r.updatedAt
  processedAt := r.processedAt
  source :=
    match r.sourceTopic, r.sourcePartition, r.sourceOffset with
    | some topic, some partition, some offset => some ⟨topic, partition, offset, r.sourceTimestamp⟩
    | _, _, _ => none

inductive ClaimDisposition
  | claimed
  | alreadyProcessed
  | claimWaiting
  | claimDead
  deriving DecidableEq, Repr

structure ClaimResult where
  disposition : ClaimDisposition
  event : Event

def validateClaim (req : ClaimRequest) : Except Error Unit :=
  if trimSpace req.consumer = "" || req.eventID = 0 || trimSpace req.source.topic = "" || req.source.partition < 0 ||
      req.source.offset < 0 || trimSpace req.leaseOwner = "" || req.leaseDuration ≤ 0 then
    .error (.wrap .errInvalidRequest "complete consumer, event, source, owner, and positive lease are required")
  else .ok ()

/-- The row the INSERT of Claim writes. -/
def pendingRow (now : Int) (req : ClaimRequest) : Row where
  consumer := req.consumer
  eventID := req.eventID
  firstSeenAt := now
  sourceTopic := some req.source.topic
  sourcePartition := some req.source.partition
  sourceOffset := some req.source.offset
  sourceTimestamp := req.source.timestamp
  status := .pending
  attempts := 0
  availableAt := now
  leaseOwner := none
  leaseToken := none
  leaseUntil := none
  lastError := none
  updatedAt := now
  processedAt := none

/-- `INSERT … ON CONFLICT DO NOTHING`; the CHECKs of the new row come before the conflict. -/
def Db.insertIgnore (db : Db) (r : Row) : Option Db :=
  if r.check = false then none
  else if db.inbox.rows.any fun x => x.key = r.key || r.sameSource x then some db
  else (db.inbox.insert r).map fun t => { db with inbox := t }

/-- The event the source coordinates of a request belong to. -/
def Db.coordinateEvent (db : Db) (req : ClaimRequest) : Option Uuid :=
  (db.inbox.rows.find? fun r => r.consumer = req.consumer && r.sourceTopic = some req.source.topic &&
    r.sourcePartition = some req.source.partition && r.sourceOffset = some req.source.offset).map (·.eventID)

/-- The rows the UPDATE of Claim takes. -/
def Row.claimable (now : Int) (r : Row) : Bool :=
  ((r.status = .pending || r.status = .retryWait) && r.availableAt ≤ now) ||
    (r.status = .inflight && r.leaseUntil.any (· ≤ now))

/-- The columns the UPDATE of Claim sets. -/
def Row.lease (now : Int) (req : ClaimRequest) (token : Uuid) (r : Row) : Row :=
  { r with status := .inflight, attempts := r.attempts + 1, leaseOwner := some req.leaseOwner, leaseToken := some token,
           leaseUntil := some (addMS now (intervalMS req.leaseDuration)), lastError := none, updatedAt := now }

def Status.disposition : Status → ClaimDisposition
  | .processed => .alreadyProcessed
  | .dead => .claimDead
  | _ => .claimWaiting

theorem Status.disposition_ne_claimed (s : Status) : s.disposition ≠ .claimed := by
  cases s <;> decide

def Db.claim (db : Db) (now : Int) (req : ClaimRequest) (token : Uuid) : Except Error (Db × ClaimResult) :=
  match validateClaim req with
  | .error e => .error e
  | .ok () =>
  match db.insertIgnore (pendingRow now req) with
  | none => .error (.sql "inbox claim: create lifecycle")
  | some db =>
  if db.coordinateEvent req ∉ [none, some req.eventID] then
    let source := req.source
    let event := ((db.coordinateEvent req).getD 0).text
    .error (.wrap .errLifecycleConflict
      s!"Kafka source {source.topic}[{source.partition}]@{source.offset} maps to event {event}, not {req.eventID.text}")
  else
  match db.inbox.update (fun r => r.key = req.key && r.claimable now) (Row.lease now req token) with
  | none => .error (.sql "inbox claim: update")
  | some t =>
  match db.row req.key with
  | none => .error (.sql "inbox claim: inspect lifecycle")
  | some r =>
    if r.claimable now then .ok ({ db with inbox := t }, ⟨.claimed, scanInboxEvent (r.lease now req token)⟩)
    else .ok (db, ⟨r.status.disposition, scanInboxEvent r⟩)

/-! ## The calls that ask for the lease token -/

/-- `status='inflight' AND lease_token=$3`. -/
def Row.holds (token : Uuid) (r : Row) : Bool := r.status = .inflight && r.leaseToken = some token

/-- The common form of Renew, MarkRetry and MarkDead. -/
def Db.updateLease (db : Db) (what : String) (k : Key) (token : Uuid) (f : Row → Row) : Except Error Db :=
  match db.inbox.update (fun r => r.key = k && r.holds token) f with
  | none => .error (.sql what)
  | some t => if (db.row k).any (Row.holds token) then .ok { db with inbox := t } else .error (.of .errLeaseLost)

def Row.renewed (now lease : Int) (r : Row) : Row :=
  { r with leaseUntil := some (addMS now (intervalMS lease)), updatedAt := now }

def Row.processed (now : Int) (r : Row) : Row :=
  { r with status := .processed, processedAt := some now, availableAt := now, leaseOwner := none, leaseToken := none,
           leaseUntil := none, lastError := none, updatedAt := now }

def Row.retried (now delay : Int) (lastError : Bytes) (r : Row) : Row :=
  { r with status := .retryWait, processedAt := none, availableAt := addMS now (intervalMS delay), leaseOwner := none,
           leaseToken := none, leaseUntil := none, lastError := some (sanitizeError lastError), updatedAt := now }

def Row.killed (now : Int) (lastError : Bytes) (r : Row) : Row :=
  { r with status := .dead, processedAt := none, availableAt := now, leaseOwner := none, leaseToken := none,
           leaseUntil := none, lastError := some (sanitizeError lastError), updatedAt := now }

def Db.renew (db : Db) (now : Int) (k : Key) (token : Uuid) (lease : Int) : Except Error Db :=
  if lease ≤ 0 then .error (.wrap .errInvalidRequest "positive lease duration is required")
  else db.updateLease "inbox renew" k token (Row.renewed now lease)

def Db.markRetry (db : Db) (now : Int) (k : Key) (token : Uuid) (delay : Int) (lastError : Bytes) : Except Error Db :=
  if delay < 0 then .error (.wrap .errInvalidRequest "retry delay must not be negative")
  else db.updateLease "inbox mark retry" k token (Row.retried now delay lastError)

def Db.markDead (db : Db) (now : Int) (k : Key) (token : Uuid) (lastError : Bytes) : Except Error Db :=
  db.updateLease "inbox mark dead" k token (Row.killed now lastError)

/-- MarkProcessed on the row its transaction sees; the caller keeps the result until the commit. -/
def markProcessed (now : Int) (token : Uuid) (r : Option Row) : Except Error Row :=
  match r with
  | some r => if r.holds token then .ok (r.processed now) else .error (.of .errLeaseLost)
  | none => .error (.of .errLeaseLost)

/-! ## RetryDead -/

structure RetryRequest where
  consumer : String
  eventID : Uuid
  actor : String
  reason : String
  requestID : String

def RetryRequest.trim (r : RetryRequest) : RetryRequest :=
  { r with consumer := trimSpace r.consumer, actor := trimSpace r.actor, reason := trimSpace r.reason,
           requestID := trimSpace r.requestID }

def RetryRequest.validate (r : RetryRequest) : Except Error Unit :=
  if r.consumer = "" || r.eventID = 0 || r.actor = "" || r.reason = "" then
    .error (.wrap .errInvalidRequest "consumer, event ID, actor, and retry reason are required")
  else if 256 < (bytes r.actor).length || 4096 < (bytes r.reason).length || 256 < (bytes r.requestID).length then
    .error (.wrap .errInvalidRequest "retry audit fields exceed their bounds")
  else .ok ()

/-- The columns RetryDead sets; the attempts and the error stay. -/
def Row.reopened (now : Int) (r : Row) : Row :=
  { r with status := .retryWait, processedAt := none, availableAt := now, leaseOwner := none, leaseToken := none,
           leaseUntil := none, updatedAt := now }

/-- The record RetryDead writes. -/
def RetryRequest.auditRow (r : RetryRequest) (now : Int) (auditID : Uuid) : AuditRow where
  id := auditID
  action := "inbox.retry"
  actor := r.actor
  reason := some r.reason
  requestID := nullString r.requestID
  targetEventID := some r.eventID
  replayBatchID := none
  createdAt := now

def Db.retryDead (db : Db) (now : Int) (request : RetryRequest) (auditID : Uuid) : Except Error Db :=
  let request := request.trim
  match request.validate with
  | .error e => .error e
  | .ok () =>
  match db.row (request.consumer, request.eventID) with
  | none => .error (.of .errNotFound)
  | some r =>
  if r.status ≠ .dead then .error (.wrap .errLifecycleConflict s!"Inbox event is {r.status.text}, not dead") else
  match db.inbox.update (fun x => x.key = (request.consumer, request.eventID) && x.status = .dead)
    (Row.reopened now) with
  | none => .error (.sql "inbox retry dead: update")
  | some t =>
  match db.audit.insert (request.auditRow now auditID) with
  | none => .error (.sql "inbox retry dead: audit")
  | some audit => .ok { inbox := t, audit := audit }

/-! ## What the calls do -/

section Spec

variable {db db' : Db} {now : Int} {k : Key} {token : Uuid}

theorem Db.row_eq_some {r : Row} : db.row k = some r ↔ r ∈ db.inbox.rows ∧ r.key = k :=
  lookup_eq_some db.inbox.ok.1

theorem Row.holds_iff {r : Row} : r.holds token = true ↔ r.status = .inflight ∧ r.leaseToken = some token := by
  simp [Row.holds]

/-- An UPDATE of one row that keeps its key. -/
theorem Db.row_update {t : Table inboxSchema} {p : Row → Bool} {f : Row → Row} (hf : ∀ r, (f r).key = r.key)
    (h : db.inbox.update (fun r => r.key = k && p r) f = some t) (hdb : db'.inbox = t) (k' : Key) :
    db'.row k' = if k' = k then (db.row k).map fun r => if p r then f r else r else db.row k' := by
  subst hdb
  rw [Db.row, Table.lookup_update (fun r _ => hf r) h]
  split_ifs with hk
  · subst hk
    cases hr : lookup (fun r : Row => r.key) db.inbox.rows k' with
    | none => simp [Db.row, hr]
    | some r => simp [Db.row, hr, lookup_key hr]
  · cases hr : lookup (fun r : Row => r.key) db.inbox.rows k' with
    | none => simp [Db.row, hr]
    | some r =>
      have hne : r.key ≠ k := fun h => hk ((lookup_key hr).symm.trans h)
      simp [Db.row, hr, hne]

theorem Db.insertIgnore_ok {r : Row} (h : db.insertIgnore r = some db') :
    db' = db ∨ (db.row r.key = none ∧ ∀ k', db'.row k' = if k' = r.key then some r else db.row k') := by
  unfold Db.insertIgnore at h
  split_ifs at h with hcheck hconflict
  · exact .inl (Option.some.inj h).symm
  · obtain ⟨t, ht, rfl⟩ := Option.map_eq_some_iff.mp h
    have hnone : db.row r.key = none := by
      refine lookup_eq_none.mpr fun x hx hk => hconflict ?_
      exact List.any_eq_true.mpr ⟨x, hx, by simp [hk]⟩
    refine .inr ⟨hnone, fun k' => ?_⟩
    rw [Db.row, Table.lookup_insert ht]
    split_ifs with hk hk' hk'
    · rw [hk']
      exact (congrArg (Option.or · (some r)) hnone).trans Option.none_or
    · exact absurd hk.symm hk'
    · exact absurd hk'.symm hk
    · exact Option.or_none

/-- A token call rewrites the row that holds the token. -/
theorem Db.updateLease_ok {what : String} {f : Row → Row} (hf : ∀ r, (f r).key = r.key)
    (h : db.updateLease what k token f = .ok db') :
    ∃ r, db.row k = some r ∧ r.holds token = true ∧ 
      ∀ k', db'.row k' = if k' = k then some (f r) else db.row k' := by
  unfold Db.updateLease at h
  split at h
  · cases h
  · rename_i t ht
    split_ifs at h with hany
    cases h
    obtain ⟨r, hr, hholds⟩ := (Option.any_eq_true ..).mp hany
    refine ⟨r, hr, hholds, fun k' => ?_⟩
    rw [Db.row_update hf ht rfl, hr, Option.map_some, if_pos hholds]

theorem Db.renew_ok {lease : Int} (h : db.renew now k token lease = .ok db') :
    ∃ r, db.row k = some r ∧ r.holds token = true ∧
      ∀ k', db'.row k' = if k' = k then some (r.renewed now lease) else db.row k' := by
  unfold Db.renew at h
  split_ifs at h
  exact Db.updateLease_ok (fun _ => rfl) h

/-- Renew reports a lost lease only if the row has another token or none. -/
theorem Db.renew_leaseLost {lease : Int} {e : Error} (h : db.renew now k token lease = .error e)
    (he : e.sentinel = some .errLeaseLost) {r : Row} (hr : db.row k = some r) : r.holds token = false := by
  unfold Db.renew at h
  split_ifs at h
  · cases h
    cases he
  unfold Db.updateLease at h
  split at h
  · cases h
    cases he
  · split_ifs at h with hany
    rw [hr, Option.any_some] at hany
    simpa using hany

theorem Db.markRetry_ok {delay : Int} {lastError : Bytes} (h : db.markRetry now k token delay lastError = .ok db') :
    ∃ r, db.row k = some r ∧ r.holds token = true ∧
      ∀ k', db'.row k' = if k' = k then some (r.retried now delay lastError) else db.row k' := by
  unfold Db.markRetry at h
  split_ifs at h
  exact Db.updateLease_ok (fun _ => rfl) h

theorem Db.markDead_ok {lastError : Bytes} (h : db.markDead now k token lastError = .ok db') :
    ∃ r, db.row k = some r ∧ r.holds token = true ∧
      ∀ k', db'.row k' = if k' = k then some (r.killed now lastError) else db.row k' :=
  Db.updateLease_ok (fun _ => rfl) h

/-- An UPDATE that leaves the key and the source of its rows fails only on a check. -/
theorem inbox_update {t : Table inboxSchema} {p : Row → Bool} {f : Row → Row} (hkey : ∀ r, (f r).key = r.key)
    (hsource : ∀ r, (f r).sourceTopic = r.sourceTopic ∧ (f r).sourcePartition = r.sourcePartition ∧
      (f r).sourceOffset = r.sourceOffset) (hcheck : ∀ r ∈ t.rows, p r = true → (f r).check = true) :
    ∃ t', t.update p f = some t' := by
  obtain ⟨hnodup, hchecks, hsources⟩ := t.ok
  refine ⟨_, Table.update_of_ok (S := inboxSchema) ⟨?_, fun x hx => ?_, ?_⟩⟩
  · rw [List.map_map, List.map_congr_left (g := (·.key)) fun r _ => ?_]
    · exact hnodup
    · simp only [Function.comp]
      split_ifs
      · exact hkey r
      · rfl
  · obtain ⟨r, hr, rfl⟩ := List.mem_map.mp hx
    split_ifs with hp
    · exact hcheck r hr hp
    · exact hchecks r hr
  · have hsame : ∀ a b : Row, Row.sameSource (if p a then f a else a) (if p b then f b else b) = a.sameSource b := by
      intro a b
      have hcols : ∀ r : Row, (if p r then f r else r).consumer = r.consumer ∧
          (if p r then f r else r).sourceTopic = r.sourceTopic ∧
          (if p r then f r else r).sourcePartition = r.sourcePartition ∧
          (if p r then f r else r).sourceOffset = r.sourceOffset := by
        intro r
        split_ifs
        · exact ⟨congrArg Prod.fst (hkey r), hsource r⟩
        · exact ⟨rfl, rfl, rfl, rfl⟩
      obtain ⟨ha1, ha2, ha3, ha4⟩ := hcols a
      obtain ⟨hb1, hb2, hb3, hb4⟩ := hcols b
      unfold Row.sameSource
      rw [ha1, ha2, ha3, ha4, hb1, hb2, hb3, hb4]
    exact List.pairwise_map.mpr (hsources.imp fun {a b} hab => (hsame a b).trans hab)

/-- MarkDead succeeds on a row that has its token. -/
theorem Db.markDead_of_holds {lastError : Bytes} {r : Row} (hr : db.row k = some r) (hholds : r.holds token = true) :
    ∃ db', db.markDead now k token lastError = .ok db' := by
  have hcheck : ∀ x ∈ db.inbox.rows, (decide (x.key = k) && x.holds token) = true →
      (x.killed now lastError).check = true := by
    intro x hx hp
    have hstatus := (Row.holds_iff.mp (Bool.and_eq_true_iff.mp hp).2).1
    have hok := db.inbox.ok.2.1 x hx
    simp only [Row.check, Row.sourceMetadataCheck, hstatus, Bool.and_eq_true] at hok
    obtain ⟨⟨⟨⟨⟨⟨⟨⟨hconsumer, -⟩, htopic⟩, hname⟩, hnonneg⟩, hmax⟩, -⟩, -⟩,
      hsource⟩ := hok
    have hsource := (Bool.or_eq_true_iff.mp hsource).resolve_left (by simp)
    simp only [Row.check, Row.killed, Row.sourceMetadataCheck, Bool.and_eq_true]
    exact ⟨⟨⟨⟨⟨⟨⟨⟨hconsumer, rfl⟩, htopic⟩, hname⟩, hnonneg⟩, hmax⟩, rfl⟩, rfl⟩,
      Bool.or_eq_true_iff.mpr (.inr hsource)⟩
  obtain ⟨t, ht⟩ := inbox_update (t := db.inbox) (f := Row.killed now lastError) (fun _ => rfl)
    (fun _ => ⟨rfl, rfl, rfl⟩) hcheck
  refine ⟨{ db with inbox := t }, ?_⟩
  unfold Db.markDead Db.updateLease
  rw [ht, hr]
  exact if_pos hholds

theorem markProcessed_ok {r : Option Row} {r' : Row} (h : markProcessed now token r = .ok r') :
    ∃ x, r = some x ∧ x.holds token = true ∧ r' = x.processed now := by
  cases r with
  | none => cases h
  | some x =>
    simp only [markProcessed] at h
    split_ifs at h with hx
    cases h
    exact ⟨x, rfl, hx, rfl⟩

/-- A claim leases the row, which it creates if there is none, or reports why it may not. -/
theorem Db.claim_ok {req : ClaimRequest} {result : ClaimResult} (h : db.claim now req token = .ok (db', result)) :
    ∃ r, (db.row req.key = some r ∨ (db.row req.key = none ∧ r = pendingRow now req)) ∧
      ((r.claimable now = true ∧ result = ⟨.claimed, scanInboxEvent (r.lease now req token)⟩ ∧
          ∀ k', db'.row k' = if k' = req.key then some (r.lease now req token) else db.row k') ∨
        (r.claimable now = false ∧ db.row req.key = some r ∧ db' = db ∧
          result = ⟨r.status.disposition, scanInboxEvent r⟩)) := by
  unfold Db.claim at h
  split at h
  · cases h
  split at h
  · cases h
  rename_i db1 hinsert
  split_ifs at h
  split at h
  · cases h
  rename_i t ht
  split at h
  · cases h
  rename_i r hr
  have hbefore : (db.row req.key = some r ∧ db1 = db) ∨
      (db.row req.key = none ∧ r = pendingRow now req ∧
        ∀ k', db1.row k' = if k' = req.key then some r else db.row k') := by
    rcases Db.insertIgnore_ok hinsert with rfl | ⟨hnone, hrows⟩
    · exact .inl ⟨hr, rfl⟩
    · have hkey : (pendingRow now req).key = req.key := rfl
      rw [hkey] at hnone hrows
      rw [hrows, if_pos rfl, Option.some.injEq] at hr
      rw [hr] at hrows
      exact .inr ⟨hnone, hr.symm, hrows⟩
  refine ⟨r, ?_, ?_⟩
  · rcases hbefore with ⟨hrow, -⟩ | ⟨hrow, hnew, -⟩
    · exact .inl hrow
    · exact .inr ⟨hrow, hnew⟩
  split_ifs at h with hclaim
  · cases h
    refine .inl ⟨hclaim, rfl, fun k' => ?_⟩
    rw [Db.row_update (f := Row.lease now req token) (fun _ => rfl) ht rfl, hr, Option.map_some, if_pos hclaim]
    split_ifs with hk
    · rfl
    · rcases hbefore with ⟨-, rfl⟩ | ⟨-, -, hrows⟩
      · rfl
      · rw [hrows, if_neg hk]
  · cases h
    rcases hbefore with ⟨hrow, rfl⟩ | ⟨-, rfl, -⟩
    · exact .inr ⟨by simpa using hclaim, hrow, rfl, rfl⟩
    -- a row that is created now is due now
    · exact absurd (by simp [Row.claimable, pendingRow]) hclaim

theorem Db.retryDead_ok {request : RetryRequest} {auditID : Uuid} (h : db.retryDead now request auditID = .ok db') :
    ∃ r, db.row (trimSpace request.consumer, request.eventID) = some r ∧ r.status = .dead ∧
      ∀ k', db'.row k' = if k' = (trimSpace request.consumer, request.eventID) then some (r.reopened now)
        else db.row k' := by
  unfold Db.retryDead at h
  dsimp only at h
  split at h
  · cases h
  split at h
  · cases h
  rename_i r hr
  split_ifs at h with hdead
  split at h
  · cases h
  rename_i t ht
  split at h
  · cases h
  cases h
  have hstatus : r.status = .dead := not_not.mp hdead
  refine ⟨r, hr, hstatus, fun k' => ?_⟩
  rw [Db.row_update (f := Row.reopened now) (fun _ => rfl) ht rfl, hr, Option.map_some,
    if_pos (decide_eq_true hstatus)]
  rfl

end Spec

end Emitlane.Inbox
