import Emitlane.Outbox.Event
import Emitlane.Store.Admin

/-!
# Outbox.Writer — Enqueue in the caller's transaction (`outbox/writer.go`)

A call ends in one of three ways: the row is inserted; the writer refuses the event and the transaction goes on, with
a stream the call may have initialised; or a statement fails, after which the transaction can only roll back.

Enqueue locks the row of its stream until the transaction ends, so no other transaction sees or moves the stream in
between, and a committed transaction is one step (`enqueueAll`).  `now` is the start of the transaction.
-/

namespace Emitlane.Outbox

open Rel

/-- What one call of Enqueue gets: the event, the trace context and the id the generator would give. -/
structure Call where
  event : Event
  traceparent : String
  tracestate : String
  /-- `w.idFn()`; `none` is an error. -/
  generated : Option Uuid

inductive Outcome
  | ok (db : Db) (row : EventRow)
  | rejected (db : Db) (err : Error)
  | aborted (err : Error)

/-! ## initializeOrderingStream -/

/-- INSERT … ON CONFLICT DO NOTHING. -/
def insertStream (db : Db) (now : Int) (e : Event) (partition start : Int) : Option Db :=
  match db.stream e.destination e.orderingKey with
  | some _ => some db
  | none =>
    (db.streams.insert
      { destination := e.destination, orderingKey := e.orderingKey, partitionID := partition, startSequence := start,
        nextSequence := start, createdAt := now, updatedAt := now }).map fun t => { db with streams := t }

/-- The checks on the stored stream row. -/
def checkStream (e : Event) (partition : Int) (st : StreamRow) : Except Error Unit :=
  let stream := s!"destination {quote (bytes e.destination)} key {quote (bytes e.orderingKey)}"
  if st.partitionID ≠ partition then
    .error (Sentinel.errOrderingConflict.error s!"{stream} partition is {st.partitionID}, calculated {partition}")
  else if 0 < e.orderingStartSequence ∧ st.startSequence ≠ e.orderingStartSequence then
    .error (Sentinel.errOrderingConflict.error
      s!"{stream} starts at {st.startSequence}, requested {e.orderingStartSequence}")
  else if e.sequence < st.nextSequence then
    .error (Sentinel.errSequenceAlreadyPassed.error s!"{stream} expects {st.nextSequence}, received {e.sequence}")
  else .ok ()

inductive StreamInit
  | ok (db : Db)
  | rejected (db : Db) (err : Error)
  | aborted (err : Error)

def initializeOrderingStream (db : Db) (now : Int) (e : Event) (partition start : Int) : StreamInit :=
  match insertStream db now e partition start with
  | none => .aborted ⟨none, "outbox: initialize ordering stream"⟩
  | some db' =>
    match db'.stream e.destination e.orderingKey with
    | none => .aborted ⟨none, "outbox: inspect ordering stream"⟩
    | some st =>
      match checkStream e partition st with
      | .error err => .rejected db' err
      | .ok _ => .ok db'

/-! ## Enqueue -/

/-- The inserted row; columns the statement leaves out take their defaults. -/
def newRow (now : Int) (c : Call) (id : Uuid) : EventRow :=
  let e := c.event
  let ordered := e.orderingKey ≠ ""
  { id := id
    destination := e.destination
    eventType := e.type
    messageKey := if ordered ∧ e.key.getD [] = [] then some (bytes e.orderingKey) else e.key
    payload := e.payload
    contentType := if e.contentType = "" then defaultContentType else e.contentType
    headers := e.headers
    schemaVersion := if e.schemaVersion = 0 then defaultSchemaVersion else e.schemaVersion
    correlationID := nullString e.correlationID
    causationID := nullString e.causationID
    traceparent := nullString c.traceparent
    tracestate := nullString c.tracestate
    createdAt := now
    replayedFromEventID := none
    replayBatchID := none
    orderingKey := nullString e.orderingKey
    orderingSequence := if ordered then some e.sequence else none
    orderingPartition := if ordered then some (Ordering.partition e.destination e.orderingKey) else none
    status := .pending
    attempts := 0
    availableAt := e.availableAt.getD now
    leaseOwner := none
    leaseUntil := none
    lastError := none
    deliveredAt := none }

/-- The INSERT and its error: CHECK constraints come first, then the primary key, then the sequence index. -/
def insertEvent (db : Db) (row : EventRow) : Except Error Db :=
  match db.events.insert row with
  | some t => .ok { db with events := t }
  | none =>
    let what := s!"outbox: insert event {row.id.text}"
    if row.check && (db.row row.id).isNone && db.events.rows.any (·.sameSequence row) then
      .error ⟨some .errDuplicateSequence,
        s!"{what}: {Sentinel.errDuplicateSequence.text}: destination {quote (bytes row.destination)} key " ++
        s!"{quote (bytes (deref row.orderingKey))} sequence {row.orderingSequence.getD 0}"⟩
    else .error ⟨none, what⟩

/-- The id of the row: the caller's, or a generated one. -/
def Call.rowID (c : Call) : Except Error Uuid :=
  if c.event.id = "" then
    match c.generated with
    | some id => .ok id
    | none => .error ⟨none, "outbox: generate event id"⟩
  else
    match uuidParse c.event.id with
    | .ok id => .ok id
    | .error _ => .ok ⟨0, by decide⟩

/-- The part of Enqueue behind the stream: the id and the INSERT. -/
def enqueueRow (db : Db) (now : Int) (c : Call) : Outcome :=
  match c.rowID with
  | .error err => .rejected db err
  | .ok id =>
    match insertEvent db (newRow now c id) with
    | .error err => .aborted err
    | .ok db' => .ok db' (newRow now c id)

/-- Zero defaults a new stream to start at 1. -/
def Event.start (e : Event) : Int := if e.orderingStartSequence = 0 then 1 else e.orderingStartSequence

/-- `Writer.Enqueue`. -/
def enqueue (db : Db) (now : Int) (c : Call) : Outcome :=
  match c.event.validate with
  | .error err => .rejected db err
  | .ok _ =>
    if c.event.orderingKey = "" then enqueueRow db now c
    else
      let partition := Ordering.partition c.event.destination c.event.orderingKey
      match initializeOrderingStream db now c.event partition c.event.start with
      | .aborted err => .aborted err
      | .rejected db' err => .rejected db' err
      | .ok db' => enqueueRow db' now c

/-- A transaction of Enqueue calls that commits: the new database and the inserted rows.  An aborted transaction has
no effect (`none`). -/
def enqueueAll (now : Int) : Db → List Call → Option (Db × List EventRow)
  | db, [] => some (db, [])
  | db, c :: cs =>
    match enqueue db now c with
    | .ok db' row => (enqueueAll now db' cs).map fun x => (x.1, row :: x.2)
    | .rejected db' _ => enqueueAll now db' cs
    | .aborted _ => none

/-! ## What a transaction does -/

/-- A stream as Enqueue initialises it: at its start, in the partition of its key. -/
structure Initial (st : StreamRow) : Prop where
  cursor : st.nextSequence = st.startSequence
  partition : st.partitionID = Ordering.partition st.destination st.orderingKey
  key : trimSpace st.orderingKey ≠ ""

/-- `db'` is `db` with the new events `rows`, the ordered ones at or behind the cursor of their stream, and possibly
with new streams that stand at their start. -/
structure Enqueues (db db' : Db) (rows : List EventRow) : Prop where
  adds : db.Adds db' rows
  stays : ∀ d k st, db.stream d k = some st → db'.stream d k = some st
  starts : ∀ d k st, db'.stream d k = some st →
    db.stream d k = some st ∨ (db.stream d k = none ∧ Initial st)
  new : ∀ r ∈ rows, r.New ∧ ∀ k, r.orderingKey = some k →
    ∃ st n, db'.stream r.destination k = some st ∧ r.orderingSequence = some n ∧ st.nextSequence ≤ n ∧
      r.orderingPartition = some st.partitionID
  partitions : db'.partitions = db.partitions
  relays : db'.relays = db.relays
  control : db'.control = db.control

section Spec

variable {db db' : Db} {now : Int} {c : Call}

theorem Enqueues.refl (db : Db) : Enqueues db db [] :=
  ⟨Db.Adds.nil rfl, fun _ _ _ h => h, fun _ _ _ h => .inl h, by simp, rfl, rfl, rfl⟩

theorem Enqueues.append {db'' : Db} {rows rows' : List EventRow} (h : Enqueues db db' rows)
    (h' : Enqueues db' db'' rows') : Enqueues db db'' (rows ++ rows') where
  adds := h.adds.append h'.adds
  stays d k st hst := h'.stays d k st (h.stays d k st hst)
  starts d k st hst := by
    rcases h'.starts d k st hst with hst | ⟨hnone, hinit⟩
    · exact h.starts d k st hst
    · refine .inr ⟨?_, hinit⟩
      cases hd : db.stream d k with
      | none => rfl
      | some x => rw [h.stays d k x hd] at hnone; cases hnone
  new r hr := by
    rcases List.mem_append.mp hr with hr | hr
    · obtain ⟨hnew, hord⟩ := h.new r hr
      refine ⟨hnew, fun k hk => ?_⟩
      obtain ⟨st, n, hst, hn⟩ := hord k hk
      exact ⟨st, n, h'.stays _ _ _ hst, hn⟩
    · exact h'.new r hr
  partitions := h'.partitions.trans h.partitions
  relays := h'.relays.trans h.relays
  control := h'.control.trans h.control

theorem insertStream_ok {e : Event} {start : Int} (hkey : trimSpace e.orderingKey ≠ "")
    (h : insertStream db now e (Ordering.partition e.destination e.orderingKey) start = some db') :
    Enqueues db db' [] := by
  unfold insertStream at h
  cases hs : db.stream e.destination e.orderingKey with
  | some st =>
    rw [hs] at h
    obtain rfl := Option.some.inj h
    exact Enqueues.refl db
  | none =>
    rw [hs] at h
    obtain ⟨t, ht, rfl⟩ := Option.map_eq_some_iff.mp h
    refine ⟨Db.Adds.nil rfl, ?_, ?_, by simp, rfl, rfl, rfl⟩
    · intro d k st hst
      show lookup StreamRow.key t.rows (d, k) = some st
      rw [Table.lookup_insert ht]
      have hst : lookup StreamRow.key db.streams.rows (d, k) = some st := hst
      rw [hst, Option.some_or]
    · intro d k st hst
      have hst : lookup StreamRow.key t.rows (d, k) = some st := hst
      rw [Table.lookup_insert ht] at hst
      cases hd : db.stream d k with
      | some x =>
        have hx : lookup StreamRow.key db.streams.rows (d, k) = some x := hd
        rw [hx, Option.some_or] at hst
        exact .inl hst
      | none =>
        have hx : lookup StreamRow.key db.streams.rows (d, k) = none := hd
        rw [hx, Option.none_or] at hst
        split_ifs at hst
        obtain rfl := Option.some.inj hst
        exact .inr ⟨rfl, rfl, rfl, hkey⟩

theorem checkStream_ok {e : Event} {partition : Int} {st : StreamRow} {u : Unit}
    (h : checkStream e partition st = .ok u) : st.partitionID = partition ∧ st.nextSequence ≤ e.sequence := by
  unfold checkStream at h
  simp only at h
  split_ifs at h with h1 h2 h3
  exact ⟨not_not.mp h1, by omega⟩

/-- The row of a call fits its stream, once the stream is checked. -/
theorem enqueueRow_ok {row : EventRow}
    (hord : c.event.orderingKey ≠ "" → ∃ st, db.stream c.event.destination c.event.orderingKey = some st ∧
      st.partitionID = Ordering.partition c.event.destination c.event.orderingKey ∧
      st.nextSequence ≤ c.event.sequence)
    (h : enqueueRow db now c = .ok db' row) : Enqueues db db' [row] := by
  unfold enqueueRow at h
  cases hid : c.rowID with
  | error err => rw [hid] at h; cases h
  | ok id =>
    rw [hid] at h
    simp only [insertEvent] at h
    cases hi : db.events.insert (newRow now c id) with
    | none =>
      rw [hi] at h
      simp only at h
      split_ifs at h
    | some t =>
      rw [hi] at h
      obtain ⟨rfl, rfl⟩ := Outcome.ok.inj h
      refine ⟨Db.adds_insert hi rfl, fun _ _ _ hst => hst, fun _ _ _ hst => .inl hst, ?_, rfl, rfl, rfl⟩
      intro r hr
      obtain rfl := List.mem_singleton.mp hr
      refine ⟨⟨rfl, rfl⟩, fun k hk => ?_⟩
      have hne : c.event.orderingKey ≠ "" := by
        intro he
        simp [newRow, nullString, he] at hk
      have hk : c.event.orderingKey = k := by
        simpa [newRow, nullString, hne] using hk
      obtain ⟨st, hst, hpart, hn⟩ := hord hne
      refine ⟨st, c.event.sequence, hk ▸ hst, ?_, hn, ?_⟩
      · simp [newRow, hne]
      · simp [newRow, hne, hpart]

theorem enqueueRow_rejected {err : Error} (h : enqueueRow db now c = .rejected db' err) : db' = db := by
  unfold enqueueRow at h
  cases hid : c.rowID with
  | error e =>
    rw [hid] at h
    exact (Outcome.rejected.inj h).1.symm
  | ok id =>
    rw [hid] at h
    simp only at h
    split at h <;> cases h

/-- The two ways initializeOrderingStream lets the transaction go on. -/
theorem initializeOrderingStream_spec {e : Event} {partition start : Int} (hkey : trimSpace e.orderingKey ≠ "")
    (hpart : partition = Ordering.partition e.destination e.orderingKey) :
    (∀ db', initializeOrderingStream db now e partition start = .ok db' → Enqueues db db' [] ∧
      ∃ st, db'.stream e.destination e.orderingKey = some st ∧ st.partitionID = partition ∧
        st.nextSequence ≤ e.sequence) ∧
    (∀ db' err, initializeOrderingStream db now e partition start = .rejected db' err → Enqueues db db' []) := by
  subst hpart
  unfold initializeOrderingStream
  cases hi : insertStream db now e (Ordering.partition e.destination e.orderingKey) start with
  | none => exact ⟨fun _ h => (by cases h), fun _ _ h => (by cases h)⟩
  | some db₁ =>
    have henq := insertStream_ok hkey hi
    simp only
    cases hs : db₁.stream e.destination e.orderingKey with
    | none => exact ⟨fun _ h => (by cases h), fun _ _ h => (by cases h)⟩
    | some st =>
      simp only
      cases hc : checkStream e (Ordering.partition e.destination e.orderingKey) st with
      | error err =>
        refine ⟨fun _ h => (by cases h), fun db' err' h => ?_⟩
        obtain ⟨rfl, -⟩ := StreamInit.rejected.inj h
        exact henq
      | ok u =>
        refine ⟨fun db' h => ?_, fun _ _ h => (by cases h)⟩
        obtain rfl := StreamInit.ok.inj h
        exact ⟨henq, st, hs, checkStream_ok hc⟩

/-- An accepted ordering key is not blank. -/
theorem orderingKey_of_validate {e : Event} {u : Unit} (h : e.validate = .ok u) (hkey : e.orderingKey ≠ "") :
    trimSpace e.orderingKey ≠ "" := by
  intro hblank
  unfold Event.validate invalid at h
  rw [if_neg hkey, if_pos hblank] at h
  split_ifs at h
  all_goals split at h <;> cases h

theorem enqueue_ok {row : EventRow} (h : enqueue db now c = .ok db' row) : Enqueues db db' [row] := by
  unfold enqueue at h
  split at h
  · cases h
  · rename_i hvalid
    split_ifs at h with hkey
    · exact enqueueRow_ok (fun hne => absurd hkey hne) h
    · simp only at h
      split at h
      · cases h
      · cases h
      · rename_i db₁ hinit
        obtain ⟨henq, hst⟩ :=
          (initializeOrderingStream_spec (orderingKey_of_validate hvalid hkey) rfl).1 db₁ hinit
        exact henq.append (enqueueRow_ok (fun _ => hst) h)

theorem enqueue_rejected {err : Error} (h : enqueue db now c = .rejected db' err) : Enqueues db db' [] := by
  unfold enqueue at h
  split at h
  · obtain ⟨rfl, -⟩ := Outcome.rejected.inj h
    exact Enqueues.refl db
  · rename_i hvalid
    split_ifs at h with hkey
    · rw [enqueueRow_rejected h]
      exact Enqueues.refl db
    · have hblank := orderingKey_of_validate hvalid hkey
      simp only at h
      split at h
      · cases h
      · rename_i db₁ err₁ hinit
        obtain ⟨rfl, -⟩ := Outcome.rejected.inj h
        exact (initializeOrderingStream_spec hblank rfl).2 db₁ err₁ hinit
      · rename_i db₁ hinit
        rw [enqueueRow_rejected h]
        exact ((initializeOrderingStream_spec hblank rfl).1 db₁ hinit).1

/-- A committed transaction, by induction on its calls. -/
theorem enqueueAll_ok : ∀ {cs : List Call} {db db' : Db} {rows : List EventRow},
    enqueueAll now db cs = some (db', rows) → Enqueues db db' rows
  | [], db, db', rows, h => by
    obtain ⟨rfl, rfl⟩ := Prod.mk.inj (Option.some.inj h)
    exact Enqueues.refl db
  | c :: cs, db, db', rows, h => by
    unfold enqueueAll at h
    split at h
    · rename_i db₁ row hc
      obtain ⟨⟨db₂, rows₂⟩, hrest, h⟩ := Option.map_eq_some_iff.mp h
      obtain ⟨rfl, rfl⟩ := Prod.mk.inj h
      exact (enqueue_ok hc).append (enqueueAll_ok hrest)
    · rename_i db₁ err hc
      exact (enqueue_rejected hc).append (enqueueAll_ok h)
    · cases h

/-- An ordered sequence below the cursor is refused, and the refusal changes nothing. -/
theorem enqueue_below_cursor {st : StreamRow} (hst : db.stream c.event.destination c.event.orderingKey = some st)
    (hkey : c.event.orderingKey ≠ "") (hseq : c.event.sequence < st.nextSequence) :
    ∃ err, enqueue db now c = .rejected db err := by
  unfold enqueue
  split
  · exact ⟨_, rfl⟩
  · rw [if_neg hkey]
    have hi : ∀ p n, insertStream db now c.event p n = some db := by
      intro p n
      rw [insertStream, hst]
    have hc : ∀ p, ∃ err, checkStream c.event p st = .error err := by
      intro p
      unfold checkStream
      simp only
      split_ifs
      all_goals exact ⟨_, rfl⟩
    obtain ⟨err, herr⟩ := hc (Ordering.partition c.event.destination c.event.orderingKey)
    refine ⟨err, ?_⟩
    simp only [initializeOrderingStream, hi, hst, herr]

end Spec

end Emitlane.Outbox
