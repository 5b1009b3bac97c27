import Emitlane.Integrity.Verifier
import Emitlane.Lib.Listing

/-!
# Integrity.Stream — `Verifier.InspectStream` of `integrity/stream.go`

The stream mode reads the cursor row of one stream, the aggregates of the cursor, a selection of the retained events
and the partition row.  It makes its own findings, with the ordering key.

* `foldl_examine`: the loop over the events examines the first ones, up to the bound.
* `Target.Readable`: the streams whose events it can read; on another one it fails (`readable_of_ok`).
* `inspect_spec`: what InspectStream returns for a cursor row, and the violations it counts.
-/

namespace Emitlane.Integrity

/-! ## The code -/

structure StreamEvent where
  id : String
  sequence : Int
  partitionID : Int
  status : String
  attempts : Int
  availableAt : Int
  leaseOwner : String
  leaseUntil : Option Int
  createdAt : Int

structure StreamInspection where
  report : Report
  destination : String
  orderingKey : String
  expectedPartition : Int
  /-- `none` is the empty text. -/
  blockingCondition : Option StreamState
  stream : Option StreamRow
  partition : Option PartitionRow
  events : List StreamEvent
  eventsTruncated : Bool

def maxStreamEvents : Nat := 200

def safeDiagnosticText (value : String) : Bool := !value.toList.contains '\x00'

/-- `status = "pending" || "inflight" || "dead"`. -/
def StreamEvent.active (x : StreamEvent) : Bool :=
  x.status = "pending" || x.status = "inflight" || x.status = "dead"

def StreamEvent.leaseExpired (now : Int) (x : StreamEvent) : Bool :=
  x.status = "inflight" && x.leaseUntil.any (· ≤ now)

/-- The row with its sequence and its partition. -/
def streamEvent (r : RetainedEvent) (sequence partition : Int) : StreamEvent where
  id := r.id.text
  sequence := sequence
  partitionID := partition
  status := r.status
  attempts := r.attempts
  availableAt := r.availableAt
  leaseOwner := r.leaseOwner.getD ""
  leaseUntil := r.leaseUntil
  createdAt := r.createdAt

/-- A NULL does not scan into an integer. -/
def scanStreamEvent (r : RetainedEvent) : Except String StreamEvent :=
  match r.orderingSequence, r.orderingPartition with
  | some sequence, some partition => .ok (streamEvent r sequence partition)
  | _, _ => .error "integrity: scan retained stream event"

/-- The stream that is inspected: the trimmed arguments. -/
structure Target where
  destination : String
  orderingKey : String

/-- The target of a stream whose destination and key are trimmed. -/
def target (st : StreamRow) : Target := ⟨st.destination, st.orderingKey⟩

def Target.expectedPartition (t : Target) : Int := Ordering.partition t.destination t.orderingKey

def Target.finding (t : Target) (code : Code) (severity : Severity) (message : String) (expected observed : Detail) :
    Finding :=
  { code := code, severity := severity, message := message, destination := t.destination,
    orderingKey := t.orderingKey, expected := expected, observed := observed }

/-- `WHERE destination=$1 AND ordering_key=$2`. -/
def Target.owns (t : Target) (r : RetainedEvent) : Bool :=
  r.destination = t.destination && r.orderingKey = some t.orderingKey

def Target.cursorFindings (t : Target) (st : StreamRow) : List Finding :=
  Integrity.finding (st.partitionID ≠ t.expectedPartition)
      { t.finding .streamPartitionMismatch .violation "stream partition differs from the deterministic mapping"
          (.scalar (.int t.expectedPartition)) (.scalar (.int st.partitionID)) with
        partitionID := some st.partitionID } ++
    Integrity.finding (st.startSequence ≤ 0 || st.nextSequence < st.startSequence)
      (t.finding .streamCursorInvalid .violation "stream cursor is outside its valid range" .nil
        (.fields [("start_sequence", .int st.startSequence), ("next_sequence", .int st.nextSequence)]))

/-- The aggregates over the active events. -/
def Target.observe (t : Target) (db : Tables) (st : StreamRow) : CursorObservation :=
  let active := db.events.rows.filter fun r => t.owns r && r.active
  let expected := active.filter fun r => r.orderingSequence = some st.nextSequence
  { startSequence := st.startSequence
    nextSequence := st.nextSequence
    expectedCount := expected.length
    expectedStatus := (least id (expected.map (·.status))).getD ""
    expectedAvailableAt := least id (expected.map (·.availableAt))
    expectedLeaseUntil := least id (expected.filterMap (·.leaseUntil))
    lowestFutureSequence :=
      least id (active.filterMap fun r => r.orderingSequence.filter (st.nextSequence < ·)) }

/-- The counters of addStreamStateFinding. -/
def setState (s : Summary) : StreamState → Summary
  | .idle => s
  | .ready => { s with readyStreams := 1 }
  | .inflight => { s with inflightStreams := 1, blockedStreams := 1 }
  | .retryWait => { s with retryWaitStreams := 1, blockedStreams := 1 }
  | .gap => { s with gapStreams := 1, blockedStreams := 1 }
  | .deadBlocked => { s with deadBlockedStreams := 1, blockedStreams := 1 }

/-- The findings of addStreamStateFinding. -/
def Target.stateFindings (t : Target) (o : CursorObservation) (state : StreamState) : List Finding :=
  (match state with
    | .idle | .ready | .inflight => []
    | .retryWait =>
      [t.finding .streamRetryWait .warning "expected stream sequence is waiting for its retry time"
        (.scalar (.int o.nextSequence)) (.scalar (.time (o.expectedAvailableAt.getD 0)))]
    | .gap =>
      [t.finding .streamGap .warning "expected stream sequence is absent while a future sequence is retained"
        (.scalar (.int o.nextSequence)) (.scalar (.int (o.lowestFutureSequence.getD 0)))]
    | .deadBlocked =>
      [t.finding .streamDeadBlocked .warning "dead event blocks the expected stream sequence"
        (.scalar (.int o.nextSequence)) (.scalar (.text "dead"))]) ++
    Integrity.finding (1 < o.expectedCount)
      (t.finding .expectedSequenceDuplicate .violation "multiple active events occupy the expected sequence"
        (.scalar (.int 1)) (.scalar (.int o.expectedCount)))

/-- The active events, and all those from five sequences below the cursor on. -/
def Target.selects (t : Target) (next : Int) (r : RetainedEvent) : Bool :=
  t.owns r && (r.active || r.orderingSequence.any (next - 5 ≤ ·))

/-- `ORDER BY ordering_sequence, id`. -/
def inSequence (a b : RetainedEvent) : Prop :=
  a.orderingSequence.getD 0 < b.orderingSequence.getD 0 ∨
    (a.orderingSequence.getD 0 = b.orderingSequence.getD 0 ∧ a.id ≤ b.id)

instance decidableInSequence : DecidableRel inSequence := fun _ _ => by
  unfold inSequence
  infer_instance

/-- The values of an `integer`. -/
def isInt4 (n : Int) : Bool := -maxInt32 - 1 ≤ n && n ≤ maxInt32

/-- The rows of the query on the retained events.  PostgreSQL takes the parameter of `$3 - 5` for an `integer`, like the
literal: a cursor beyond one is refused. -/
def Target.list (t : Target) (db : Tables) (next : Int) : Except String (List RetainedEvent) :=
  if isInt4 next && isInt4 (next - 5) then
    .ok ((db.events.rows.filter (t.selects next)).insertionSort inSequence)
  else .error "integrity: list retained stream events"

def Target.eventFindings (t : Target) (now next : Int) (x : StreamEvent) : List Finding :=
  Integrity.finding (x.partitionID ≠ t.expectedPartition)
      { t.finding .orderingPartitionMismatch .violation
          "ordered event partition differs from the deterministic mapping" (.scalar (.int t.expectedPartition))
          (.scalar (.int x.partitionID)) with
        eventID := x.id, partitionID := some x.partitionID } ++
    Integrity.finding (x.active && x.sequence < next)
      { t.finding .activeSequenceBehindCursor .violation "active ordered event is below the durable stream cursor"
          (.scalar (.int next)) (.scalar (.int x.sequence)) with eventID := x.id } ++
    Integrity.finding (x.leaseExpired now)
      { t.finding .staleEventLease .warning "inflight event lease has expired and awaits recovery" .nil
          (.scalar (.time (x.leaseUntil.getD 0))) with eventID := x.id }

def countStale (now : Int) (x : StreamEvent) (s : Summary) : Summary :=
  { s with staleEventLeases := s.staleEventLeases + if x.leaseExpired now then 1 else 0 }

/-- What the loop over the events carries. -/
structure Examination where
  acc : Accumulator
  events : List StreamEvent
  truncated : Bool

/-- The body of the loop. -/
def Target.examine (t : Target) (now next : Int) (v : Examination) (x : StreamEvent) : Examination :=
  if v.events.length = maxStreamEvents then { v with truncated := true }
  else
    { v with
      acc := (v.acc.count (countStale now x)).addAll (t.eventFindings now next x)
      events := v.events ++ [x] }

/-- A partition row that is missing. -/
def Target.partitionFindings (t : Target) (db : Tables) (st : StreamRow) : List Finding :=
  Integrity.finding (db.partition st.partitionID).isNone
    { t.finding .partitionIDInvalid .violation "stream partition metadata row is missing"
        (.scalar (.int st.partitionID)) (.scalar (.text "missing")) with partitionID := some st.partitionID }

/-- InspectStream from the cursor row on; `a` has the findings on the schema. -/
def Target.inspect (t : Target) (db : Tables) (now finishedAt : Int) (a : Accumulator) (st : StreamRow) :
    Except String StreamInspection := do
  let a := (a.count fun s => { s with orderedStreams := 1 }).addAll (t.cursorFindings st)
  let o := t.observe db st
  let state := classifyCursor now o
  let a := (a.count (setState · state)).addAll (t.stateFindings o state)
  let rows ← t.list db st.nextSequence
  let events ← rows.mapM scanStreamEvent
  let v := events.foldl (t.examine now st.nextSequence) ⟨a, [], false⟩
  .ok
    { report := (v.acc.addAll (t.partitionFindings db st)).finish finishedAt
      destination := t.destination
      orderingKey := t.orderingKey
      expectedPartition := t.expectedPartition
      blockingCondition := some state
      stream := some st
      partition := db.partition st.partitionID
      events := v.events
      eventsTruncated := v.truncated }

/-- Verifier.InspectStream on the snapshot of a transaction that began at `now`. -/
def inspectStream (config : Config) (startedAt finishedAt now : Int) (snapshot : Snapshot)
    (destination orderingKey : String) : Except String StreamInspection :=
  let t : Target := ⟨trimSpace destination, trimSpace orderingKey⟩
  if t.destination = "" || t.orderingKey = "" || !safeDiagnosticText t.destination ||
      !safeDiagnosticText t.orderingKey then
    .error "integrity: destination and ordering key are required and must be valid UTF-8 without NUL"
  else
    let (a, runtimeReady) :=
      checkSchema snapshot.catalog (newAccumulator .stream config.maxFindings.toNat startedAt)
    if !runtimeReady then
      .ok
        { report := a.finish finishedAt, destination := t.destination, orderingKey := t.orderingKey,
          expectedPartition := t.expectedPartition, blockingCondition := none, stream := none, partition := none,
          events := [], eventsTruncated := false }
    else
      match snapshot.outbox.stream t.destination t.orderingKey with
      | none => .error s!"integrity: ordered stream not found: destination {quote (bytes t.destination)}"
      | some st => t.inspect snapshot.outbox now finishedAt a st

/-! ## What it returns -/

section

variable {t : Target} {now next : Int} {db : Tables} {st : StreamRow}

/-- The loop examines the first events, up to the bound. -/
theorem foldl_examine (xs : List StreamEvent) (a : Accumulator) (seen : List StreamEvent) (truncated : Bool)
    (h : seen.length ≤ maxStreamEvents) :
    xs.foldl (t.examine now next) ⟨a, seen, truncated⟩ =
      ⟨a.visit (countStale now) (t.eventFindings now next) (xs.take (maxStreamEvents - seen.length)),
        seen ++ xs.take (maxStreamEvents - seen.length),
        truncated || decide (maxStreamEvents - seen.length < xs.length)⟩ := by
  induction xs generalizing a seen truncated with
  | nil => simp [Accumulator.visit]
  | cons x xs ih =>
    rw [List.foldl_cons]
    by_cases hfull : seen.length = maxStreamEvents
    · have hstep : t.examine now next ⟨a, seen, truncated⟩ x = ⟨a, seen, true⟩ := if_pos hfull
      rw [hstep, ih a seen true h, hfull, Nat.sub_self]
      simp
    · have hstep : t.examine now next ⟨a, seen, truncated⟩ x =
          ⟨(a.count (countStale now x)).addAll (t.eventFindings now next x), seen ++ [x], truncated⟩ := if_neg hfull
      have hlength : (seen ++ [x]).length = seen.length + 1 := List.length_append
      obtain ⟨room, hroom⟩ : ∃ room, maxStreamEvents - seen.length = room + 1 :=
        ⟨maxStreamEvents - seen.length - 1, by omega⟩
      have hrest : maxStreamEvents - (seen ++ [x]).length = room := by omega
      rw [hstep, ih _ (seen ++ [x]) truncated (by omega), hrest, hroom, List.take_succ_cons, List.append_assoc,
        List.singleton_append, List.length_cons]
      simp only [Nat.add_lt_add_iff_right]
      rfl

/-- The row as InspectStream reads it, where it is no NULL. -/
def toStreamEvent (r : RetainedEvent) : StreamEvent :=
  streamEvent r (r.orderingSequence.getD 0) (r.orderingPartition.getD 0)

/-- The rows the loop examines. -/
def Target.examined (t : Target) (db : Tables) (next : Int) : List RetainedEvent :=
  Listing.top inSequence maxStreamEvents (db.events.rows.filter (t.selects next))

/-- The queries on the events of the stream succeed: the cursor is an `integer`, and no NULL is scanned. -/
structure Target.Readable (t : Target) (db : Tables) (next : Int) : Prop where
  cursor : isInt4 next = true ∧ isInt4 (next - 5) = true
  events : ∀ r ∈ db.events.rows, t.selects next r = true →
    r.orderingSequence ≠ none ∧ r.orderingPartition ≠ none

theorem scanStreamEvent_eq {r : RetainedEvent} (h : r.orderingSequence ≠ none ∧ r.orderingPartition ≠ none) :
    scanStreamEvent r = .ok (toStreamEvent r) := by
  obtain ⟨n, hn⟩ := Option.ne_none_iff_exists'.mp h.1
  obtain ⟨p, hp⟩ := Option.ne_none_iff_exists'.mp h.2
  simp [scanStreamEvent, toStreamEvent, hn, hp]

theorem scanStreamEvent_ok {r : RetainedEvent} {x : StreamEvent} (h : scanStreamEvent r = .ok x) :
    r.orderingSequence ≠ none ∧ r.orderingPartition ≠ none := by
  unfold scanStreamEvent at h
  cases hn : r.orderingSequence <;> cases hp : r.orderingPartition <;> simp [hn, hp] at h ⊢

theorem mapM_ok {α β ε : Type} {f : α → Except ε β} {g : α → β} {xs : List α}
    (h : ∀ x ∈ xs, f x = .ok (g x)) : xs.mapM f = .ok (xs.map g) := by
  induction xs with
  | nil => rfl
  | cons x xs ih =>
    rw [List.mapM_cons, h x (by simp), ih fun y hy => h y (List.mem_cons_of_mem _ hy)]
    rfl

theorem ok_of_mapM {α β ε : Type} {f : α → Except ε β} {xs : List α} {ys : List β} (h : xs.mapM f = .ok ys) :
    ∀ x ∈ xs, ∃ y, f x = .ok y := by
  induction xs generalizing ys with
  | nil => exact fun x hx => by cases hx
  | cons x xs ih =>
    rw [List.mapM_cons] at h
    cases hx : f x with
    | error e => rw [hx] at h; cases h
    | ok y =>
      cases hxs : xs.mapM f with
      | error e => rw [hx, hxs] at h; cases h
      | ok zs => exact List.forall_mem_cons.mpr ⟨⟨y, hx⟩, ih hxs⟩

theorem Target.Readable.scan (h : t.Readable db next) : t.list db next =
      .ok ((db.events.rows.filter (t.selects next)).insertionSort inSequence) ∧
    ((db.events.rows.filter (t.selects next)).insertionSort inSequence).mapM scanStreamEvent =
      .ok (((db.events.rows.filter (t.selects next)).insertionSort inSequence).map toStreamEvent) := by
  refine ⟨if_pos (Bool.and_eq_true_iff.mpr h.cursor), mapM_ok fun r hr => scanStreamEvent_eq ?_⟩
  obtain ⟨hmem, hselected⟩ := List.mem_filter.mp ((List.mem_insertionSort _).mp hr)
  exact h.events r hmem hselected

/-- InspectStream returns no result from a stream it cannot read. -/
theorem readable_of_ok {finishedAt : Int} {a : Accumulator} {inspection : StreamInspection}
    (h : t.inspect db now finishedAt a st = .ok inspection) : t.Readable db st.nextSequence := by
  unfold Target.inspect Target.list at h
  by_cases hcursor : (isInt4 st.nextSequence && isInt4 (st.nextSequence - 5)) = true
  · rw [if_pos hcursor] at h
    cases hscan : ((db.events.rows.filter (t.selects st.nextSequence)).insertionSort inSequence).mapM
        scanStreamEvent with
    | error e =>
      simp only [bind, Except.bind, hscan] at h
      cases h
    | ok events =>
      refine ⟨Bool.and_eq_true_iff.mp hcursor, fun r hr hselected => ?_⟩
      obtain ⟨x, hx⟩ := ok_of_mapM hscan r ((List.mem_insertionSort _).mpr
        (List.mem_filter.mpr ⟨hr, hselected⟩))
      exact scanStreamEvent_ok hx
  · rw [if_neg hcursor] at h
    cases h

/-- What InspectStream returns for a stream row, and the violations it counts. -/
theorem inspect_spec (now finishedAt : Int) (a : Accumulator) (h : t.Readable db st.nextSequence) :
    ∃ inspection, t.inspect db now finishedAt a st = .ok inspection ∧ inspection.stream = some st ∧
      inspection.blockingCondition = some (classifyCursor now (t.observe db st)) ∧
      inspection.events = (t.examined db st.nextSequence).map toStreamEvent ∧
      inspection.report.clean = decide (a.violations + violationsIn (t.cursorFindings st) +
        violationsIn (t.stateFindings (t.observe db st) (classifyCursor now (t.observe db st))) +
        violationsIn (((t.examined db st.nextSequence).map toStreamEvent).flatMap
          (t.eventFindings now st.nextSequence)) +
        violationsIn (t.partitionFindings db st) = 0) := by
  have htake : ∀ l : List RetainedEvent, (l.map toStreamEvent).take
    (maxStreamEvents - ([] : List StreamEvent).length) =
      (l.take maxStreamEvents).map toStreamEvent := fun l => List.map_take.symm
  unfold Target.inspect
  simp only [bind, Except.bind, h.scan.1, h.scan.2]
  refine ⟨_, rfl, rfl, rfl, ?_, ?_⟩
  · rw [foldl_examine _ _ _ _ (Nat.zero_le _), htake]
    rfl
  · rw [foldl_examine _ _ _ _ (Nat.zero_le _), htake]
    show decide (Accumulator.violations _ = 0) = _
    rw [violations_addAll, violations_visit (by intros; rfl), violations_addAll,
      violations_count (fun s => by cases classifyCursor now (t.observe db st) <;> rfl), violations_addAll]
    rfl

end

end Emitlane.Integrity
