import Emitlane.Integrity.Sound
import Emitlane.Integrity.Stream
import Emitlane.Store.OrderingAdmin

/-!
# Integrity.Classifiers — the state of a stream in the admin query and in `ClassifyCursor`

The admin query joins a stream with the event at its cursor and with the first one behind it, of whatever status.
`ClassifyCursor` is given aggregates over the active events.  In a reachable state the events above the cursor are all
active (`above_active`), so that both see the same future; at the cursor they may see different things if the event
there is delivered (`state_eq_iff`).
-/

namespace Emitlane.Integrity

/-- The state the admin query shows; it has no idle streams. -/
def StreamState.shown : StreamState → OrderingState
  | .idle | .ready => .ready
  | .inflight => .inflight
  | .retryWait => .retryWait
  | .gap => .gap
  | .deadBlocked => .deadBlocked

section

variable {db : Db} {now : Int} {st : StreamRow} {r : EventRow}

theorem least_eq_none {l : List Int} : least id l = none ↔ l = [] := by
  cases l with
  | nil => simp [least]
  | cons x xs =>
    simp only [least, reduceCtorEq, iff_false]
    cases least id xs with
    | none => simp
    | some y =>
      dsimp only
      split_ifs <;> simp

theorem least_eq_some {l : List Int} {m : Int} : least id l = some m ↔ m ∈ l ∧ ∀ x ∈ l, m ≤ x := by
  induction l generalizing m with
  | nil => simp [least]
  | cons x xs ih =>
    cases hrest : least id xs with
    | none =>
      obtain rfl := least_eq_none.mp hrest
      simp only [least, Option.some.injEq, List.mem_singleton, forall_eq]
      omega
    | some y =>
      obtain ⟨hy, hle⟩ := ih.mp hrest
      simp only [least, hrest, id_eq, List.mem_cons, forall_eq_or_imp]
      split_ifs with hlt
      · rw [Option.some.injEq]
        constructor
        · rintro rfl
          exact ⟨.inr hy, by omega, hle⟩
        · rintro ⟨rfl | hm, h1, h2⟩
          · exact absurd (h2 y hy) (by omega)
          · exact le_antisymm (hle m hm) (h2 y hy)
      · rw [Option.some.injEq]
        constructor
        · rintro rfl
          exact ⟨.inl rfl, le_refl _, fun z hz => by have := hle z hz; omega⟩
        · rintro ⟨rfl | hm, h1, h2⟩
          · rfl
          · have := hle m hm
            omega

theorem mem_streamEvents : r ∈ db.streamEvents st ↔
    r ∈ db.events.rows ∧ r.destination = st.destination ∧ r.orderingKey = some st.orderingKey := by
  simp [Db.streamEvents]

/-- The unique index: two events of a stream with one sequence are the same. -/
theorem streamEvents_ext {r' : EventRow} (hr : r ∈ db.streamEvents st) (hr' : r' ∈ db.streamEvents st)
    (hn : r.orderingSequence = r'.orderingSequence) : r = r' := by
  obtain ⟨hmem, hd, hk⟩ := mem_streamEvents.mp hr
  obtain ⟨hmem', hd', hk'⟩ := mem_streamEvents.mp hr'
  refine db.event_sequence_ext hmem hmem' ?_
  simp [EventRow.sameSequence, hd, hd', hk, hk', hn]

/-- The events that the query takes as future ones. -/
def above (db : Db) (st : StreamRow) : List EventRow :=
  (db.streamEvents st).filter fun r => r.orderingSequence.any (st.nextSequence < ·)

theorem mem_above : r ∈ above db st ↔
    r ∈ db.streamEvents st ∧ ∃ n, r.orderingSequence = some n ∧ st.nextSequence < n := by
  simp [above, Option.any_eq_true]

/-- The first of the future events has the least sequence of them. -/
theorem futureEvent_eq_some (h : db.futureEvent st = some r) :
    r ∈ above db st ∧ ∀ x ∈ above db st, r.orderingSequence.getD 0 ≤ x.orderingSequence.getD 0 := by
  have hsorted := List.pairwise_insertionSort
    (fun a b : EventRow => a.orderingSequence.getD 0 ≤ b.orderingSequence.getD 0) (above db st)
  have hperm := List.perm_insertionSort
    (fun a b : EventRow => a.orderingSequence.getD 0 ≤ b.orderingSequence.getD 0) (above db st)
  change ((above db st).insertionSort _).head? = some r at h
  obtain ⟨rest, hrest⟩ := List.head?_eq_some_iff.mp h
  rw [hrest] at hsorted hperm
  refine ⟨hperm.mem_iff.mp List.mem_cons_self, fun x hx => ?_⟩
  rcases List.mem_cons.mp (hperm.mem_iff.mpr hx) with rfl | hx
  · exact le_refl _
  · exact (List.pairwise_cons.mp hsorted).1 x hx

theorem futureEvent_eq_none (h : db.futureEvent st = none) : above db st = [] := by
  have hperm := List.perm_insertionSort
    (fun a b : EventRow => a.orderingSequence.getD 0 ≤ b.orderingSequence.getD 0) (above db st)
  change ((above db st).insertionSort _).head? = none at h
  rw [List.head?_eq_none_iff.mp h] at hperm
  exact hperm.nil_eq.symm

/-- The sequences of the observation, if all events above the cursor are active. -/
theorem mem_future (habove : ∀ r ∈ above db st, r.status ≠ .delivered) {n : Int} :
    n ∈ ((joinedEvents db st).filterMap fun r => r.orderingSequence.filter (st.nextSequence < ·)) ↔
      ∃ r ∈ above db st, r.orderingSequence = some n := by
  rw [List.mem_filterMap, joinedEvents_eq]
  constructor
  · rintro ⟨x, hx, hn⟩
    obtain ⟨r, hr, rfl⟩ := List.mem_map.mp hx
    obtain ⟨hseq, hlt⟩ := Option.filter_eq_some_iff.mp hn
    exact ⟨r, mem_above.mpr ⟨(List.mem_filter.mp hr).1, n, hseq, of_decide_eq_true hlt⟩, hseq⟩
  · rintro ⟨r, hr, hn⟩
    obtain ⟨hmem, m, hm, hlt⟩ := mem_above.mp hr
    obtain rfl : m = n := Option.some.inj (hm.symm.trans hn)
    exact ⟨r.retained, List.mem_map_of_mem (List.mem_filter.mpr ⟨hmem, decide_eq_true (habove r hr)⟩),
      Option.filter_eq_some_iff.mpr ⟨hn, decide_eq_true hlt⟩⟩

theorem lowestFutureSequence_eq (habove : ∀ r ∈ above db st, r.status ≠ .delivered) :
    (db.futureEvent st).bind (·.orderingSequence) = (observeCursor db st).lowestFutureSequence := by
  show _ = least id ((joinedEvents db st).filterMap fun r => r.orderingSequence.filter (st.nextSequence < ·))
  cases hfuture : db.futureEvent st with
  | none =>
    have hnil : ((joinedEvents db st).filterMap fun r => r.orderingSequence.filter (st.nextSequence < ·)) = [] := by
      refine List.eq_nil_iff_forall_not_mem.mpr fun n hn => ?_
      obtain ⟨r, hr, -⟩ := (mem_future habove).mp hn
      rw [futureEvent_eq_none hfuture] at hr
      cases hr
    rw [hnil]
    rfl
  | some r =>
    obtain ⟨hr, hleast⟩ := futureEvent_eq_some hfuture
    obtain ⟨-, n, hn, -⟩ := mem_above.mp hr
    rw [Option.bind_some, hn, eq_comm, least_eq_some]
    refine ⟨(mem_future habove).mpr ⟨r, hr, hn⟩, fun m hm => ?_⟩
    obtain ⟨x, hx, hxm⟩ := (mem_future habove).mp hm
    have := hleast x hx
    rwa [hn, hxm] at this

theorem futureEvent_isSome (habove : ∀ r ∈ above db st, r.status ≠ .delivered) :
    (db.futureEvent st).isSome = (observeCursor db st).lowestFutureSequence.isSome := by
  rw [← lowestFutureSequence_eq habove]
  cases hfuture : db.futureEvent st with
  | none => rfl
  | some r =>
    obtain ⟨-, n, hn, -⟩ := mem_above.mp (futureEvent_eq_some hfuture).1
    rw [Option.bind_some, hn]
    rfl

/-- The events at the cursor that ClassifyCursor sees. -/
def expectedEvents (db : Db) (st : StreamRow) : List EventRow :=
  ((db.streamEvents st).filter fun r => r.status ≠ .delivered).filter fun r =>
    r.orderingSequence = some st.nextSequence

theorem expected_eq (db : Db) (st : StreamRow) :
    (joinedEvents db st).filter (fun x => x.orderingSequence = some st.nextSequence) =
      (expectedEvents db st).map EventRow.retained := by
  rw [joinedEvents_eq, List.filter_map]
  rfl

theorem mem_expectedEvents : r ∈ expectedEvents db st ↔
    r ∈ db.streamEvents st ∧ r.status ≠ .delivered ∧ r.orderingSequence = some st.nextSequence := by
  rw [expectedEvents, List.mem_filter, List.mem_filter, decide_eq_true_iff, decide_eq_true_iff, and_assoc]

theorem nextEvent_eq_some (h : db.nextEvent st = some r) :
    r ∈ db.streamEvents st ∧ r.orderingSequence = some st.nextSequence := by
  unfold Db.nextEvent at h
  have hn := List.find?_some h
  exact ⟨List.mem_of_find?_eq_some h, of_decide_eq_true hn⟩

/-- No event at the cursor is active. -/
theorem expectedEvents_eq_nil (h : ∀ r, db.nextEvent st = some r → r.status = .delivered) :
    expectedEvents db st = [] := by
  refine List.eq_nil_iff_forall_not_mem.mpr fun r hr => ?_
  obtain ⟨hmem, hactive, hn⟩ := mem_expectedEvents.mp hr
  cases hnext : db.nextEvent st with
  | none => exact List.find?_eq_none.mp hnext r hmem (decide_eq_true hn)
  | some x =>
    obtain ⟨hx, hxn⟩ := nextEvent_eq_some hnext
    obtain rfl := streamEvents_ext hx hmem (hxn.trans hn.symm)
    exact hactive (h x hnext)

theorem expectedEvents_eq_singleton (h : db.nextEvent st = some r) (hactive : r.status ≠ .delivered) :
    expectedEvents db st = [r] := by
  obtain ⟨hr, hn⟩ := nextEvent_eq_some h
  have hmem : r ∈ expectedEvents db st := mem_expectedEvents.mpr ⟨hr, hactive, hn⟩
  have hone : (expectedEvents db st).length ≤ 1 := by
    have hcount : ((joinedEvents db st).filter fun x => x.orderingSequence = some st.nextSequence).length ≤ 1 :=
      expectedCount_le_one db st
    rwa [expected_eq, List.length_map] at hcount
  obtain ⟨x, hx⟩ := List.length_eq_one_iff.mp (le_antisymm hone (List.length_pos_of_mem hmem))
  rw [hx] at hmem ⊢
  rw [List.mem_singleton.mp hmem]

/-- Where no event at the cursor is active, ClassifyCursor looks for a future one. -/
theorem classifyCursor_of_nil (h : expectedEvents db st = []) : classifyCursor now (observeCursor db st) =
    if (observeCursor db st).lowestFutureSequence.isSome then .gap else .idle := by
  have hcount : (observeCursor db st).expectedCount = 0 := by
    show ((joinedEvents db st).filter fun x => x.orderingSequence = some st.nextSequence).length = 0
    rw [expected_eq, h]
    rfl
  unfold classifyCursor
  rw [if_pos hcount]

theorem classifyCursor_of_active (h : db.nextEvent st = some r) (hactive : r.status ≠ .delivered) :
    (classifyCursor now (observeCursor db st)).shown = orderingState now (some r) (db.futureEvent st) := by
  have hexpected : (joinedEvents db st).filter (fun x => x.orderingSequence = some st.nextSequence) = [r.retained] := by
    rw [expected_eq, expectedEvents_eq_singleton h hactive, List.map_singleton]
  have hcount : (observeCursor db st).expectedCount = 1 := congrArg List.length hexpected
  have hstatus : (observeCursor db st).expectedStatus = r.status.text :=
    congrArg (fun l : List RetainedEvent => (least id (l.map RetainedEvent.status)).getD "") hexpected
  have havailable : (observeCursor db st).expectedAvailableAt = some r.availableAt :=
    congrArg (fun l : List RetainedEvent => least id (l.map RetainedEvent.availableAt)) hexpected
  unfold classifyCursor orderingState
  rw [hcount, hstatus, havailable]
  cases hs : r.status with
  | pending => by_cases hwait : now < r.availableAt <;> simp [hs, hwait, Status.text, StreamState.shown]
  | inflight => simp [hs, Status.text, StreamState.shown]
  | dead => simp [hs, Status.text, StreamState.shown]
  | delivered => exact absurd hs hactive

/-- The two classifiers agree unless the event at the cursor is delivered and another one is behind it. -/
theorem state_eq_iff (habove : ∀ r ∈ above db st, r.status ≠ .delivered) :
    (db.orderingStream now st).state = (classifyCursor now (observeCursor db st)).shown ↔
      ¬ ((db.nextEvent st).any (·.status = .delivered) = true ∧ (db.futureEvent st).isSome = true) := by
  show orderingState now (db.nextEvent st) (db.futureEvent st) = _ ↔ _
  cases hnext : db.nextEvent st with
  | none =>
    rw [classifyCursor_of_nil (expectedEvents_eq_nil fun r hr => by rw [hnext] at hr; cases hr),
      ← futureEvent_isSome habove]
    cases db.futureEvent st <;> simp [orderingState, StreamState.shown]
  | some r =>
    by_cases hdelivered : r.status = .delivered
    · rw [classifyCursor_of_nil (expectedEvents_eq_nil fun x hx => ?_), ← futureEvent_isSome habove]
      · cases db.futureEvent st <;> simp [orderingState, hdelivered, StreamState.shown]
      · rw [hnext] at hx
        exact Option.some.inj hx ▸ hdelivered
    · rw [classifyCursor_of_active hnext hdelivered]
      simp [hdelivered]

/-- InspectStream aggregates what checkStreams aggregates. -/
theorem inspectStream_state {config : Config} {startedAt finishedAt : Int} {snapshot : Snapshot}
    {destination orderingKey : String} {inspection : StreamInspection}
    (h : inspectStream config startedAt finishedAt now snapshot destination orderingKey = .ok inspection)
    (hst : inspection.stream = some st) :
    inspection.blockingCondition = some (classifyCursor now (observeCursor snapshot.outbox st)) := by
  unfold inspectStream at h
  dsimp only at h
  split_ifs at h with hargs hready
  · obtain rfl := Except.ok.inj h
    cases hst
  · cases hfound : snapshot.outbox.stream (trimSpace destination) (trimSpace orderingKey) with
    | none =>
      rw [hfound] at h
      cases h
    | some x =>
      rw [hfound] at h
      obtain ⟨y, hy, hstream, hstate, -⟩ := inspect_spec now finishedAt
        (checkSchema snapshot.catalog (newAccumulator .stream config.maxFindings.toNat startedAt)).1 (readable_of_ok h)
      obtain rfl := Except.ok.inj (hy.symm.trans h)
      obtain rfl := Option.some.inj (hstream.symm.trans hst)
      obtain ⟨-, hd, hk⟩ := snapshot.outbox.stream_eq_some.mp hfound
      rw [hstate, ← hd, ← hk]
      rfl

end

section

variable {ι : Type} {cfg : ι → Relay.Config} {s : State ι} {st : StreamRow}

/-- In a reachable state the events above a cursor are untouched. -/
theorem above_active (h : Reachable cfg s) (hst : st ∈ s.db.streams.rows) :
    ∀ r ∈ above s.db st, r.status ≠ .delivered := by
  intro r hr
  obtain ⟨hmem, n, hn, hlt⟩ := mem_above.mp hr
  obtain ⟨hrow, hd, hk⟩ := mem_streamEvents.mp hmem
  obtain ⟨st', n', hst', hn', -, -, -, hnew⟩ := h.cursors r.id r (s.db.row_mem hrow) _ hk
  rw [hd, s.db.stream_eq_some.mpr ⟨hst, rfl, rfl⟩] at hst'
  obtain rfl := Option.some.inj hst'
  obtain rfl : n = n' := Option.some.inj (hn.symm.trans hn')
  rw [(hnew hlt).1]
  decide

/-- **Two classifiers of a stream.**  In every reachable state the admin query and the verifier have the same lowest
future sequence; their states differ exactly if the event at the cursor is delivered and another one is behind it, so
they agree if ids are fresh; and InspectStream and checkStreams see the same state. -/
theorem classifiers_agree (h : Reachable cfg s) (hst : st ∈ s.db.streams.rows) (now : Int) :
    (s.db.orderingStream now st).lowestFutureSequence = (observeCursor s.db st).lowestFutureSequence ∧
    ((s.db.orderingStream now st).state = (classifyCursor now (observeCursor s.db st)).shown ↔
      ¬ ((s.db.orderingStream now st).nextEventStatus = some .delivered ∧
        (s.db.orderingStream now st).lowestFutureSequence.isSome = true)) ∧
    (FreshIDs s.hist → (s.db.orderingStream now st).state = (classifyCursor now (observeCursor s.db st)).shown) ∧
    (target st).observe s.db st = observeCursor s.db st ∧
    ∀ config startedAt finishedAt snapshot destination orderingKey inspection, snapshot.outbox = s.db.tables →
      inspectStream config startedAt finishedAt now snapshot destination orderingKey = .ok inspection →
      inspection.stream = some st →
      inspection.blockingCondition = some (classifyCursor now (observeCursor s.db st)) := by
  have habove := above_active h hst
  have hlowest : (s.db.orderingStream now st).lowestFutureSequence = (observeCursor s.db st).lowestFutureSequence :=
    lowestFutureSequence_eq habove
  have hiff : (s.db.orderingStream now st).state = (classifyCursor now (observeCursor s.db st)).shown ↔
      ¬ ((s.db.orderingStream now st).nextEventStatus = some .delivered ∧
        (s.db.orderingStream now st).lowestFutureSequence.isSome = true) := by
    rw [state_eq_iff habove, hlowest, futureEvent_isSome habove]
    show _ ↔ ¬ ((s.db.nextEvent st).map (·.status) = some .delivered ∧ _)
    cases s.db.nextEvent st <;> simp
  refine ⟨hlowest, hiff, fun hf => hiff.mpr ?_, rfl, ?_⟩
  · rintro ⟨hdelivered, -⟩
    obtain ⟨r, hnext, hstatus⟩ := Option.map_eq_some_iff.mp hdelivered
    obtain ⟨hmem, hn⟩ := nextEvent_eq_some hnext
    obtain ⟨hrow, hd, hk⟩ := mem_streamEvents.mp hmem
    obtain ⟨st', n, hst', hn', hlt⟩ := h.delivered_below hf (s.db.row_mem hrow) hstatus hk
    rw [hd, s.db.stream_eq_some.mpr ⟨hst, rfl, rfl⟩] at hst'
    obtain rfl := Option.some.inj hst'
    obtain rfl := Option.some.inj (hn.symm.trans hn')
    exact absurd hlt (lt_irrefl _)
  · intro config startedAt finishedAt snapshot destination orderingKey inspection hdb hok hstream
    rw [← hdb]
    exact inspectStream_state hok hstream

end

/-- The second of two sequences waits for its publication. -/
theorem classifiers_agree_delivery : ∃ (s : State Unit) (st : StreamRow), Reachable exampleRelay s ∧
    s.db.stream "orders" "a" = some st ∧ (s.db.orderingStream s.clock st).state = .ready ∧
      (classifyCursor s.clock (observeCursor s.db st)).shown = .ready := by
  obtain ⟨s, hreach, hp⟩ := exists_reachable exampleRelay exampleOrderedDelivery
    (fun s => FreshIDs s.hist &&
      (s.db.stream "orders" "a").any fun st => (s.db.orderingStream s.clock st).state = .ready) (by decide +kernel)
  obtain ⟨hfresh, hstream⟩ := Bool.and_eq_true_iff.mp hp
  obtain ⟨st, hst, hstate⟩ := (Option.any_eq_true ..).mp hstream
  obtain ⟨-, -, hagree, -⟩ := classifiers_agree hreach (s.db.stream_eq_some.mp hst).1 s.clock
  exact ⟨s, st, hreach, hst, of_decide_eq_true hstate,
    (hagree (of_decide_eq_true hfresh)).symm.trans (of_decide_eq_true hstate)⟩

/-- The delivered event of a reused id stands at the cursor, and the next sequence is enqueued: the admin query shows a
ready stream, and ClassifyCursor a gap. -/
theorem reused_id_classified_apart : (∀ i, (exampleRelay i).Valid) ∧ ∃ (s : State Unit) (st : StreamRow),
    Reachable exampleRelay s ∧ st ∈ s.db.streams.rows ∧ (s.db.orderingStream s.clock st).state = .ready ∧
      classifyCursor s.clock (observeCursor s.db st) = .gap := by
  refine ⟨by decide +kernel, ?_⟩
  obtain ⟨s, hreach, hp⟩ := exists_reachable exampleRelay
    (exampleStaleHandler () ++ [.produce 0 [exampleOrderedCall "" 2 exampleOtherID] true])
    (fun s => (s.db.stream "orders" "a").any fun st => (s.db.orderingStream s.clock st).state = .ready &&
      classifyCursor s.clock (observeCursor s.db st) = .gap) (by decide +kernel)
  obtain ⟨st, hst, hstates⟩ := (Option.any_eq_true ..).mp hp
  obtain ⟨hready, hgap⟩ := Bool.and_eq_true_iff.mp hstates
  exact ⟨s, st, hreach, (s.db.stream_eq_some.mp hst).1, of_decide_eq_true hready, of_decide_eq_true hgap⟩

end Emitlane.Integrity
