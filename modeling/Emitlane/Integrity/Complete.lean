import Emitlane.Integrity.Verifier

/-!
# Integrity.Complete — what a full check without violations says of the ordered streams

`checkEvents` compares each ordered event with the cursor of its stream, `checkStreams` the events at the cursor and the
stream row itself.  Their violations are characterised for tables of any content (`quiet_eventFindings_iff`,
`quiet_streamFindings_iff`).  In tables that satisfy their constraints they tell events below the cursor that are not
delivered, and delivered events at the cursor or above it.

They do not look at the status of the other events above the cursor: one that is inflight or dead there is no finding
(`ahead_of_cursor_unnoticed`).
-/

namespace Emitlane.Integrity

section

variable {db : Tables} {now : Int} {st : StreamRow} {r : RetainedEvent}

/-- The event is in another partition than the key of its stream. -/
def Misplaced (st : StreamRow) (r : RetainedEvent) : Prop :=
  r.orderingPartition ≠ some (Ordering.partition st.destination st.orderingKey)

/-- The event is active below the cursor. -/
def Behind (st : StreamRow) (r : RetainedEvent) : Prop :=
  r.active = true ∧ ∃ n, r.orderingSequence = some n ∧ n < st.nextSequence

/-- The event is delivered at the cursor or above it. -/
def Ahead (st : StreamRow) (r : RetainedEvent) : Prop :=
  r.status = "delivered" ∧ ∃ n, r.orderingSequence = some n ∧ st.nextSequence ≤ n

/-- No violation against the cursor: delivered events are below it, and active ones are not. -/
theorem quiet_cursorFindings {n next : Int} : Quiet (cursorFindings r n (some next)) ↔
    ¬ (r.active = true ∧ n < next) ∧ ¬ (r.status = "delivered" ∧ next ≤ n) := by
  unfold cursorFindings
  dsimp only
  split_ifs with hbehind
  · simp [eventFinding, hbehind]
  · simp only [quiet_finding, eventFinding, Bool.and_eq_true, decide_eq_true_eq]
    tauto

/-- The violations of an event of a stream. -/
theorem quiet_eventFindings_iff (hst : st ∈ db.streams.rows) (hd : r.destination = st.destination)
    (hk : r.orderingKey = some st.orderingKey) :
    Quiet (eventFindings db now r) ↔
      r.fieldsInvalid = false ∧ ¬ Misplaced st r ∧ ¬ Behind st r ∧ ¬ Ahead st r := by
  unfold eventFindings
  cases hfields : r.fieldsInvalid with
  | true => simp [eventFinding]
  | false =>
    obtain ⟨-, hp, n, hn, -⟩ := (RetainedEvent.fieldsInvalid_eq_false hk).mp hfields
    obtain ⟨p, hp⟩ := Option.ne_none_iff_exists'.mp hp
    have hstream : db.stream r.destination st.orderingKey = some st := db.stream_eq_some.mpr ⟨hst, hd.symm, rfl⟩
    have hnext : nextSequenceOf db r = some st.nextSequence := by
      rw [nextSequenceOf, hk, Option.bind_some, hstream, Option.map_some]
    rw [hk, hn, hp, hnext, quiet_append]
    simp only [Bool.false_eq_true, reduceIte, quiet_append, quiet_cursorFindings, quiet_finding, eventFinding,
      Misplaced,
      Behind, Ahead, hn, hp, hd]
    simp

/-- The numbers of the cursor row are in no order a cursor can have. -/
def OutOfRange (st : StreamRow) : Prop := st.startSequence ≤ 0 ∨ st.nextSequence < st.startSequence

/-- The violations of a cursor row. -/
theorem quiet_streamFindings_iff : Quiet (streamFindings db now st) ↔
    st.partitionID = Ordering.partition st.destination st.orderingKey ∧ ¬ OutOfRange st ∧
      (observeCursor db st).expectedCount ≤ 1 := by
  have hstate : ∀ o x, Quiet (stateFindings st o x) := by
    intro o x
    cases x <;> simp [stateFindings, streamFinding]
  have hrange : OutOfRange st ↔ ((observeCursor db st).startSequence ≤ 0 ∨
      (observeCursor db st).nextSequence < (observeCursor db st).startSequence) := Iff.rfl
  simp only [streamFindings, quiet_append, quiet_finding, Bool.or_eq_true, decide_eq_true_eq, hstate, hrange]
  simp [streamFinding, and_assoc]

end

section

variable {db : Db} {now : Int} {st : StreamRow} {r : EventRow}

/-- The constraint on the ordering columns leaves a key of other white space than blanks. -/
theorem fieldsInvalid_iff (hr : r ∈ db.events.rows) {k : String} (hk : r.orderingKey = some k) :
    r.retained.fieldsInvalid = false ↔ trimSpace k ≠ "" := by
  obtain ⟨n, p, hn, hp, -, hpos, -⟩ := EventRow.ordering_of_key (db.event_ordering hr) hk
  have hpartition : r.retained.orderingPartition ≠ none := by
    show r.orderingPartition ≠ none
    rw [hp]
    exact Option.some_ne_none p
  rw [RetainedEvent.fieldsInvalid_eq_false hk]
  exact ⟨And.left, fun h => ⟨h, hpartition, n, hn, hpos⟩⟩

/-- The one violation that the constraints leave possible of a cursor row. -/
theorem quiet_streamFindings_of_constraints (hst : st ∈ db.streams.rows) :
    Quiet (streamFindings db now st) ↔ st.partitionID = Ordering.partition st.destination st.orderingKey := by
  obtain ⟨hstart, hnext⟩ := db.stream_cursor hst
  have hrange : ¬ OutOfRange st := by
    unfold OutOfRange
    omega
  rw [quiet_streamFindings_iff]
  exact ⟨And.left, fun h => ⟨h, hrange, expectedCount_le_one db st⟩⟩

/-- **A full check without violations**: every event of a stream lies in the deterministic partition, it is delivered if
it is below the cursor, and it is pending, inflight or dead if it is at the cursor or above it. -/
theorem full_mode_complete (db : Db) (now : Int) (a : Accumulator)
    (h : (checkStreams db now (checkEvents db now .full a)).violations = a.violations) :
    ∀ st ∈ db.streams.rows, st.partitionID = Ordering.partition st.destination st.orderingKey ∧
      ∀ r ∈ db.events.rows, r.destination = st.destination → r.orderingKey = some st.orderingKey →
        r.orderingPartition = some (Ordering.partition st.destination st.orderingKey) ∧
        ∃ n, r.orderingSequence = some n ∧ (n < st.nextSequence → r.status = .delivered) ∧
          (n = st.nextSequence → r.status ≠ .delivered) ∧
          (st.nextSequence < n → r.status = .pending ∨ r.status = .inflight ∨ r.status = .dead) := by
  rw [violations_checkStreams, violations_checkEvents] at h
  have hevents := quiet_flatMap.mp (violationsIn_eq_zero.mp (by omega :
    violationsIn ((db.tables.events.rows.filter (inspected .full)).flatMap (eventFindings db now)) = 0))
  have hstreams := quiet_flatMap.mp (violationsIn_eq_zero.mp (by omega :
    violationsIn (db.tables.streams.rows.flatMap (streamFindings db now)) = 0))
  intro st hst
  refine ⟨(quiet_streamFindings_of_constraints hst).mp (hstreams st hst), fun r hr hd hk => ?_⟩
  have hkey : r.retained.orderingKey = some st.orderingKey := hk
  have hinspected : inspected .full r.retained = true := by simp [inspected, hkey]
  obtain ⟨-, hplaced, hbehind, hahead⟩ := (quiet_eventFindings_iff hst hd hk).mp
    (hevents _ (List.mem_filter.mpr ⟨Db.mem_retained.mpr ⟨r, hr, rfl⟩, hinspected⟩))
  obtain ⟨n, -, hn, -⟩ := EventRow.ordering_of_key (db.event_ordering hr) hk
  have hactive : st.nextSequence ≤ n → r.status ≠ .delivered := fun hle hs =>
    hahead ⟨EventRow.retained_status.mpr hs, n, hn, hle⟩
  refine ⟨not_not.mp hplaced, n, hn, fun hlt => ?_, fun heq => hactive heq.ge, fun hlt => ?_⟩
  · by_contra hne
    exact hbehind ⟨EventRow.retained_active.mpr hne, n, hn, hlt⟩
  · cases hstatus : r.status with
    | pending => exact .inl rfl
    | inflight => exact .inr (.inl rfl)
    | dead => exact .inr (.inr rfl)
    | delivered => exact absurd hstatus (hactive hlt.le)

end

/-! ## Examples -/

/-- An event of the stream (orders, a). -/
def exampleEvent (id : Uuid) (sequence : Int) (status : Status) : EventRow :=
  { exampleEventRow id with
    orderingKey := some "a"
    orderingSequence := some sequence
    orderingPartition := some (Ordering.partition "orders" "a")
    status := status
    leaseOwner := if status = .inflight then some "relay-a" else none
    leaseUntil := if status = .inflight then some 30000000 else none
    deliveredAt := if status = .delivered then some 0 else none }

def exampleStream (next : Int) : StreamRow where
  destination := "orders"
  orderingKey := "a"
  partitionID := Ordering.partition "orders" "a"
  startSequence := 1
  nextSequence := next
  createdAt := 0
  updatedAt := 0

/-- The stream at its second sequence: one event delivered, two pending. -/
def exampleInOrder : List EventRow :=
  [exampleEvent 1 1 .delivered, exampleEvent 2 2 .pending, exampleEvent 3 3 .pending]

/-- The stream at its first sequence, which is absent: the second one is inflight, the third one dead. -/
def exampleAhead : List EventRow := [exampleEvent 2 2 .inflight, exampleEvent 3 3 .dead]

theorem exampleInOrder_ok : eventsSchema.Ok exampleInOrder := by decide +kernel

theorem exampleAhead_ok : eventsSchema.Ok exampleAhead := by decide +kernel

theorem exampleStream_ok : streamsSchema.Ok [exampleStream 1] ∧ streamsSchema.Ok [exampleStream 2] := by
  decide +kernel

def exampleInOrderDb : Db :=
  { Db.empty with
    events := ⟨exampleInOrder, exampleInOrder_ok⟩
    streams := ⟨[exampleStream 2], exampleStream_ok.2⟩ }

def exampleAheadDb : Db :=
  { Db.empty with
    events := ⟨exampleAhead, exampleAhead_ok⟩
    streams := ⟨[exampleStream 1], exampleStream_ok.1⟩ }

theorem full_mode_complete_in_order :
    (checkStreams exampleInOrderDb 0
      (checkEvents exampleInOrderDb 0 .full (newAccumulator .full 100 0))).violations = 0 ∧
      ∀ r ∈ exampleInOrder, r.orderingPartition = some (exampleStream 2).partitionID ∧
        ∃ n, r.orderingSequence = some n ∧ (n < 2 → r.status = .delivered) ∧
        (n = 2 → r.status ≠ .delivered) ∧
          (2 < n → r.status = .pending ∨ r.status = .inflight ∨ r.status = .dead) := by
  have hquiet : (checkStreams exampleInOrderDb 0
      (checkEvents exampleInOrderDb 0 .full (newAccumulator .full 100 0))).violations = 0 := by decide +kernel
  have hstream : ∀ r ∈ exampleInOrder, r.destination = "orders" ∧ r.orderingKey = some "a" := by
    simp [exampleInOrder, exampleEvent, exampleEventRow]
  refine ⟨hquiet, fun r hr => ?_⟩
  obtain ⟨hpartition, hevents⟩ := full_mode_complete exampleInOrderDb 0 (newAccumulator .full 100 0) hquiet
    (exampleStream 2) (List.mem_singleton_self _)
  rw [hpartition]
  exact hevents r hr (hstream r hr).1 (hstream r hr).2

/-- An event above the cursor that is inflight, and one that is dead: a full check adds no violation. -/
theorem ahead_of_cursor_unnoticed :
    (checkStreams exampleAheadDb 0 (checkEvents exampleAheadDb 0 .full (newAccumulator .full 100 0))).violations = 0 ∧
      exampleStream 1 ∈ exampleAheadDb.streams.rows ∧
      ∃ r ∈ exampleAheadDb.events.rows, ∃ r' ∈ exampleAheadDb.events.rows,
        r.destination = "orders" ∧ r.orderingKey = some "a" ∧ r.orderingSequence = some 2 ∧
        r.status = .inflight ∧
        r'.destination = "orders" ∧ r'.orderingKey = some "a" ∧ r'.orderingSequence = some 3 ∧
        r'.status = .dead :=
  ⟨by decide +kernel, List.mem_singleton_self _, exampleEvent 2 2 .inflight, List.mem_cons_self,
    exampleEvent 3 3 .dead,
    List.mem_cons_of_mem _ (List.mem_singleton_self _), rfl, rfl, rfl, rfl, rfl, rfl, rfl, rfl⟩

end Emitlane.Integrity
