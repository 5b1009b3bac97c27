import Emitlane.Delivery
import Emitlane.System.Origin

/-!
# Cursor — the cursor of an ordered stream

`next_sequence` is the only scheduling cursor.  BeginOrderedAttempt and the failing transitions do not look at it;
that they stay at the cursor follows from an invariant (`Db.Aligned`): every ordered event is delivered below the
cursor and untouched above it.  So an event that is inflight or dead stands at the cursor.

A cursor moves by MarkOrderedDelivered only, one sequence at a time (`Counted`).
-/

namespace Emitlane

open Relay Outbox Rel

/-! ## Events and their streams -/

/-- An ordered event has its stream; it is delivered below the cursor and untouched above it. -/
def Db.Aligned (db : Db) (r : EventRow) : Prop :=
  ∀ k, r.orderingKey = some k → ∃ st n, db.stream r.destination k = some st ∧ r.orderingSequence = some n ∧
    r.orderingPartition = some st.partitionID ∧ st.startSequence ≤ n ∧
    (n < st.nextSequence → r.status = .delivered) ∧ (st.nextSequence < n → r.New)

/-- All events of a database are aligned. -/
def Db.Cursors (db : Db) : Prop := ∀ id r, db.row id = some r → db.Aligned r

section

variable {db db' : Db} {r x : EventRow} {f : Progress → Progress}

theorem Db.KeepsOrdering.stream_eq (h : db.KeepsOrdering db') (d k : String) : db'.stream d k = db.stream d k := by
  unfold Db.stream
  rw [h.streams]

theorem EventRow.advances_iff {st : StreamRow} :
    r.advances st = true ↔ st.destination = r.destination ∧ some st.orderingKey = r.orderingKey ∧
      some st.partitionID = r.orderingPartition ∧ some st.nextSequence = r.orderingSequence := by
  simp only [EventRow.advances, Bool.and_eq_true, decide_eq_true_eq, and_assoc]

theorem Db.Advances.stream_eq {now : Int} {event : RelayEvent} {owner : String}
    (h : db.Advances db' now event owner r) (d k : String) :
    db'.stream d k = (db.stream d k).map fun st => if r.advances st then st.advance now else st := by
  refine Table.lookup_update (fun st _ => ?_) h.streams (d, k)
  rfl

theorem Db.Aligned.of_stream (h : db.Aligned r)
    (hst : ∀ d k st, db.stream d k = some st → db'.stream d k = some st) : db'.Aligned r := by
  intro k hk
  obtain ⟨st, n, hstream, hrest⟩ := h k hk
  exact ⟨st, n, hst _ _ _ hstream, hrest⟩

/-- An event that is inflight or dead stands at the cursor. -/
theorem Db.Aligned.at_cursor (h : db.Aligned r) (hs : r.status = .inflight ∨ r.status = .dead) {k : String}
    (hk : r.orderingKey = some k) :
    ∃ st, db.stream r.destination k = some st ∧ r.orderingSequence = some st.nextSequence ∧
      r.orderingPartition = some st.partitionID := by
  obtain ⟨st, n, hst, hn, hpart, -, hbelow, habove⟩ := h k hk
  have hnot : ¬ n < st.nextSequence := by
    intro hlt
    rw [hbelow hlt] at hs
    rcases hs with hs | hs <;> cases hs
  have hnot' : ¬ st.nextSequence < n := by
    intro hlt
    rw [(habove hlt).1] at hs
    rcases hs with hs | hs <;> cases hs
  obtain rfl : n = st.nextSequence := by omega
  exact ⟨st, hst, hn, hpart⟩

/-- An event at the cursor may be written in any way. -/
theorem Db.Aligned.progress (h : db.Aligned r)
    (hcur : ∀ k, r.orderingKey = some k → ∃ st, db.stream r.destination k = some st ∧
      r.orderingSequence = some st.nextSequence) : db.Aligned (r.progress f) := by
  intro k hk
  obtain ⟨st, n, hst, hn, hpart, hstart, -, -⟩ := h k hk
  obtain ⟨st', hst', hn'⟩ := hcur k hk
  rw [hst] at hst'
  obtain rfl := Option.some.inj hst'
  rw [hn] at hn'
  obtain rfl := Option.some.inj hn'
  exact ⟨st, st.nextSequence, hst, hn, hpart, hstart, fun hlt => absurd hlt (lt_irrefl _),
    fun hlt => absurd hlt (lt_irrefl _)⟩

theorem Db.Cursors.rewrites (h : db.Cursors) (hrow : db.Rewrites db' x f)
    (hs : x.status = .inflight ∨ x.status = .dead) (hst : ∀ d k, db'.stream d k = db.stream d k) : db'.Cursors := by
  have hstays : ∀ d k st, db.stream d k = some st → db'.stream d k = some st := fun d k st h => (hst d k).trans h
  intro id r hr
  rw [hrow.row] at hr
  split_ifs at hr with hid
  · obtain rfl := Option.some.inj hr
    have hx := h x.id x hrow.old
    refine Db.Aligned.of_stream (hx.progress fun k hk => ?_) hstays
    obtain ⟨st, hst, hn, -⟩ := hx.at_cursor hs hk
    exact ⟨st, hst, hn⟩
  · exact (h id r hr).of_stream hstays

/-- The event that moves the cursor is delivered, and the next one is still untouched. -/
theorem Db.Cursors.advances {now : Int} {event : RelayEvent} {owner : String} (h : db.Cursors)
    (hadv : db.Advances db' now event owner x) (hrow : db.Rewrites db' x f)
    (hf : (f x.toProgress).status = .delivered) : db'.Cursors := by
  intro id r hr k hk
  rw [hrow.row] at hr
  split_ifs at hr with hid
  · obtain rfl := Option.some.inj hr
    obtain ⟨st, n, hst, hn, hpart, hstart, -, -⟩ := h x.id x hrow.old k hk
    obtain ⟨st', hst', hn', -⟩ := (h x.id x hrow.old).at_cursor
      (.inl (EventRow.heldBy_iff.mp hadv.fenced.held).2.2) hk
    rw [hst] at hst'
    obtain rfl := Option.some.inj hst'
    rw [hn] at hn'
    obtain rfl := Option.some.inj hn'
    obtain ⟨-, hd, hkey⟩ := db.stream_eq_some.mp hst
    have hmove : x.advances st = true :=
      EventRow.advances_iff.mpr ⟨hd, hkey ▸ hk.symm, hpart.symm, hn.symm⟩
    refine ⟨st.advance now, st.nextSequence, ?_, hn, hpart, hstart, fun _ => hf, fun hlt => ?_⟩
    · show db'.stream x.destination k = _
      rw [hadv.stream_eq, hst, Option.map_some, if_pos hmove]
    · have hlt : st.nextSequence + 1 < st.nextSequence := hlt
      omega
  · obtain ⟨st, n, hst, hn, hpart, hstart, hbelow, habove⟩ := h id r hr k hk
    by_cases hmove : x.advances st = true
    · refine ⟨st.advance now, n, ?_, hn, hpart, hstart, fun hlt => ?_, fun hlt => ?_⟩
      · rw [hadv.stream_eq, hst, Option.map_some, if_pos hmove]
      · have hlt : n < st.nextSequence + 1 := hlt
        refine hbelow (lt_of_le_of_ne (by omega) fun heq => ?_)
        -- the sequence of the cursor belongs to one event only
        obtain ⟨hmem, hrid⟩ := db.row_eq_some.mp hr
        obtain ⟨hxmem, -⟩ := db.row_eq_some.mp hrow.old
        obtain ⟨-, hd, hkey⟩ := db.stream_eq_some.mp hst
        obtain ⟨hd', hkey', -, hn'⟩ := EventRow.advances_iff.mp hmove
        have hsame : r.sameSequence x = true := by
          simp only [EventRow.sameSequence, hk, Option.isSome_some, Bool.true_and, Bool.and_eq_true, decide_eq_true_eq]
          exact ⟨⟨hd.symm.trans hd', by rw [← hkey', hkey]⟩, by rw [hn, heq, hn']⟩
        exact hid (by rw [← hrid, db.event_sequence_ext hmem hxmem hsame])
      · have hlt : st.nextSequence + 1 < n := hlt
        exact habove (by omega)
    · refine ⟨st, n, ?_, hn, hpart, hstart, hbelow, habove⟩
      rw [hadv.stream_eq, hst, Option.map_some, if_neg hmove]

end

section

variable {ι : Type} {cfg : ι → Config} {s s' : State ι}

theorem Db.Cursors.next {a : Action ι} (hi : s.db.Cursors) (hs : Next cfg s a s') : s'.db.Cursors := by
  cases hs with
  | insert hrows =>
    intro id r hr
    rw [State.insert_db] at hr ⊢
    rcases (hrows.adds.row id r).mp hr with hold | ⟨hnew, -⟩
    · exact (hi id r hold).of_stream hrows.stays
    · intro k hk
      obtain ⟨hn, hord⟩ := hrows.new r hnew
      obtain ⟨st, n, hst, hseq, hle, hpart⟩ := hord k hk
      have hstart := (Db.stream_cursor _ (Db.stream_eq_some _ |>.mp hst).1).2
      exact ⟨st, n, hst, hseq, hpart, by omega, fun hlt => by omega, fun _ => hn⟩
  | @lease a i db evs _ hlease =>
    have hstays : ∀ d k st, s.db.stream d k = some st → db.stream d k = some st :=
      fun d k st h => (hlease.frame.stream_eq d k).trans h
    intro id r hr
    rw [State.dispatch_db, hlease.row] at hr
    obtain ⟨r₀, hr₀, rfl⟩ := Option.map_eq_some_iff.mp hr
    split_ifs with hin
    · obtain ⟨ev, hev, hid⟩ := List.mem_map.mp hin
      obtain ⟨x, e, hx, ⟨-, hclaim⟩, -⟩ := hlease.old ev hev
      rw [hid, hr₀] at hx
      obtain rfl := Option.some.inj hx
      refine Db.Aligned.of_stream ((hi id r₀ hr₀).progress fun k hk => ?_) hstays
      -- Claim takes no ordered event, and ClaimOrdered only events at the cursor
      rcases hclaim with ⟨-, hnone⟩ | ⟨hcur, -⟩
      · rw [hnone] at hk
        cases hk
      · obtain ⟨k', st, hk', hst, hn⟩ := Db.atCursor_iff.mp hcur
        rw [hk] at hk'
        obtain rfl := Option.some.inj hk'
        exact ⟨st, hst, hn⟩
    · exact (hi id r₀ hr₀).of_stream hstays
  | began _ _ hheld _ _ htouch =>
    exact hi.rewrites htouch.toRewrites (.inl (EventRow.status_of_heldBy hheld)) htouch.frame.stream_eq
  | @marked _ _ _ m _ _ _ _ _ hheld hf hrow hordering _ =>
    rcases hordering with ⟨-, hkeep⟩ | ⟨rfl, -, hadv⟩
    · exact hi.rewrites hrow (.inl (EventRow.status_of_heldBy hheld)) hkeep.stream_eq
    · exact hi.advances hadv hrow (hf _).1
  | revived hdead _ htouch => exact hi.rewrites htouch.toRewrites (.inr hdead) htouch.frame.stream_eq
  | deleted hrow hkeep =>
    intro id r hr
    rcases hrow id with hsame | ⟨hnone, -⟩
    · exact (hi id r (hsame ▸ hr)).of_stream fun d k st h => (hkeep.stream_eq d k).trans h
    · have hr : Db.row _ id = some r := hr
      rw [hnone] at hr
      cases hr
  | owned hevents hstreams _ _ =>
    intro id r hr
    refine (hi id r ((Db.row_congr hevents id).symm.trans hr)).of_stream fun d k st h => ?_
    show lookup StreamRow.key _ _ = some st
    rw [hstreams]
    exact h
  | tick d => exact hi
  | failed _ _ => exact hi
  | published _ _ _ _ => exact hi
  | acked _ _ => exact hi
  | dropped k => exact hi
  | effect _ => exact hi

/-- **The cursor invariant**: in every reachable state the ordered events are aligned with their streams. -/
theorem Reachable.cursors (h : Reachable cfg s) : s.db.Cursors := by
  refine h.inv (I := fun s => s.db.Cursors) ?_ fun _ _ _ _ hi hs => hi.next hs
  intro clock id r hr
  cases hr

/-! ## Streams over a step -/

/-- The row is sequence `n` of the stream. -/
def EventRow.isSequence (d k : String) (n : Int) (r : EventRow) : Bool :=
  r.destination = d && r.orderingKey = some k && r.orderingSequence = some n

/-- A delivered transition of sequence `n` of the stream. -/
def Obs.delivers (d k : String) (n : Int) : Obs ι → Bool
  | .marked _ _ .delivered _ row => row.isSequence d k n
  | _ => false

/-- The same by MarkOrderedDelivered. -/
def Obs.advances (d k : String) (n : Int) : Obs ι → Bool
  | .marked _ _ .delivered true row => row.isSequence d k n
  | _ => false

/-- How often MarkOrderedDelivered passed a sequence. -/
def advanceCount (hist : List (Obs ι)) (d k : String) (n : Int) : Nat := hist.countP (Obs.advances d k n)

theorem EventRow.isSequence_iff {d k : String} {n : Int} {r : EventRow} :
    r.isSequence d k n = true ↔ r.destination = d ∧ r.orderingKey = some k ∧ r.orderingSequence = some n := by
  simp only [EventRow.isSequence, Bool.and_eq_true, decide_eq_true_eq, and_assoc]

theorem advanceCount_append {new hist : List (Obs ι)} {d k : String} {n : Int}
    (h : ∀ o ∈ new, Obs.advances d k n o = false) : advanceCount (new ++ hist) d k n = advanceCount hist d k n := by
  unfold advanceCount
  rw [List.countP_append, List.countP_eq_zero.mpr fun o ho => by rw [h o ho]; exact Bool.false_ne_true, Nat.zero_add]

/-- The streams are as they were, up to new ones that stand at their start, and no cursor has moved. -/
structure SameCursors (s s' : State ι) : Prop where
  stays : ∀ d k st, s.db.stream d k = some st → s'.db.stream d k = some st
  starts : ∀ d k st, s'.db.stream d k = some st →
    s.db.stream d k = some st ∨ (s.db.stream d k = none ∧ Initial st)
  count : ∀ d k n, advanceCount s'.hist d k n = advanceCount s.hist d k n

theorem SameCursors.of_eq {new : List (Obs ι)} (hst : ∀ d k, s'.db.stream d k = s.db.stream d k)
    (hhist : s'.hist = new ++ s.hist) (hnew : ∀ d k n, ∀ o ∈ new, Obs.advances d k n o = false) :
    SameCursors s s' where
  stays d k st h := (hst d k).trans h
  starts d k st h := .inl ((hst d k).symm.trans h)
  count d k n := by rw [hhist, advanceCount_append (hnew d k n)]

/-- A step moves no cursor, or it is a MarkOrderedDelivered and moves one by one. -/
theorem Next.streams {a : Action ι} (hs : Next cfg s a s') : SameCursors s s' ∨
    ∃ k h r, s.handlers k = some h ∧ h.pc = .acked ∧ isOrdered h.event = true ∧ s.db.row r.id = some r ∧
      s'.hist = .marked k h.relay .delivered true r :: s.hist ∧
      s.db.Advances s'.db s.clock h.event (cfg h.relay).instanceID r ∧
      (∃ ctxDone delay, a = .settle k ctxDone delay) ∧
      markDelivered (cfg h.relay) s.db s.clock h.event = .ok s'.db := by
  have hnone : ∀ d k n, ∀ o ∈ ([] : List (Obs ι)), Obs.advances d k n o = false := fun _ _ _ o ho => by cases ho
  have hone : ∀ {o : Obs ι}, (∀ d k n, Obs.advances d k n o = false) →
      ∀ d k n, ∀ x ∈ [o], Obs.advances d k n x = false := by
    intro o ho d k n x hx
    rw [List.mem_singleton.mp hx]
    exact ho d k n
  have hmap : ∀ {α : Type} {f : α → Obs ι} {l : List α}, (∀ d k n x, Obs.advances d k n (f x) = false) →
      ∀ d k n, ∀ o ∈ l.map f, Obs.advances d k n o = false := by
    intro α f l hf d k n o ho
    obtain ⟨x, -, rfl⟩ := List.mem_map.mp ho
    exact hf d k n x
  cases hs with
  | insert hrows =>
    exact .inl ⟨hrows.stays, hrows.starts, fun d k n => advanceCount_append (hmap (fun _ _ _ _ => rfl) d k n)⟩
  | lease _ hlease => exact .inl (.of_eq hlease.frame.stream_eq rfl (hmap fun _ _ _ _ => rfl))
  | began _ _ _ _ _ htouch => exact .inl (.of_eq htouch.frame.stream_eq rfl (hone fun _ _ _ => rfl))
  | @marked _ k h m db r f hk hpc _ _ hrow hordering hcall =>
    rcases hordering with ⟨hnot, hkeep⟩ | ⟨rfl, hord, hadv⟩
    · refine .inl (.of_eq hkeep.stream_eq rfl (hone fun d k n => ?_))
      cases m with
      | delivered =>
        cases hord : isOrdered h.event with
        | true => exact absurd ⟨rfl, hord⟩ hnot
        | false => rfl
      | retried => rfl
      | killed => rfl
    · exact .inr ⟨k, h, r, hk, hpc rfl, hord, hrow.old, by rw [hord], hadv, hcall rfl⟩
  | revived _ _ htouch => exact .inl (.of_eq htouch.frame.stream_eq rfl (hone fun _ _ _ => rfl))
  | deleted _ hkeep => exact .inl (.of_eq hkeep.stream_eq rfl (hmap fun _ _ _ _ => rfl))
  | owned _ hstreams _ _ =>
    refine .inl (.of_eq (fun d k => ?_) rfl hnone)
    show lookup StreamRow.key _ _ = lookup StreamRow.key _ _
    rw [hstreams]
  | published _ _ _ _ => exact .inl (.of_eq (fun _ _ => rfl) rfl (hone fun _ _ _ => rfl))
  | acked _ _ => exact .inl (.of_eq (fun _ _ => rfl) rfl (hone fun _ _ _ => rfl))
  | effect _ => exact .inl (.of_eq (fun _ _ => rfl) rfl (hone fun _ _ _ => rfl))
  | tick d => exact .inl (.of_eq (fun _ _ => rfl) rfl hnone)
  | failed _ _ => exact .inl (.of_eq (fun _ _ => rfl) rfl hnone)
  | dropped k => exact .inl (.of_eq (fun _ _ => rfl) rfl hnone)

/-- No step removes a stream, changes its start or its partition, or moves its cursor back. -/
theorem Next.stream_mono {a : Action ι} (hs : Next cfg s a s') {d k : String} {st : StreamRow}
    (hst : s.db.stream d k = some st) :
    ∃ st', s'.db.stream d k = some st' ∧ st'.startSequence = st.startSequence ∧
    st'.partitionID = st.partitionID ∧
      st.nextSequence ≤ st'.nextSequence := by
  rcases hs.streams with hsame | ⟨_, _, r, -, -, -, -, -, hadv, -⟩
  · exact ⟨st, hsame.stays d k st hst, rfl, rfl, le_rfl⟩
  · rw [hadv.stream_eq, hst, Option.map_some]
    split_ifs
    · exact ⟨_, rfl, rfl, rfl, by show st.nextSequence ≤ st.nextSequence + 1; omega⟩
    · exact ⟨st, rfl, rfl, rfl, le_rfl⟩

/-! ## Delivered transitions -/

/-- The number of times the cursor of `st` has passed `n`. -/
def StreamRow.passed (st : StreamRow) (n : Int) : Nat :=
  if st.startSequence ≤ n ∧ n < st.nextSequence then 1 else 0

/-- MarkOrderedDelivered has passed each sequence below a cursor once, and no other. -/
def Counted (s : State ι) : Prop := ∀ d k n, advanceCount s.hist d k n = (s.db.stream d k).elim 0 (·.passed n)

/-- The cursor passes the sequence of the delivered event. -/
theorem Counted.advance {h : Handler ι} {r : EventRow} {k₀ : Nat} (hc : s.db.Cursors) (hi : Counted s)
    (hr : s.db.row r.id = some r) (hhist : s'.hist = .marked k₀ h.relay .delivered true r :: s.hist)
    (hadv : s.db.Advances s'.db s.clock h.event (cfg h.relay).instanceID r) : Counted s' := by
  intro d k n
  have hcount : advanceCount s'.hist d k n = advanceCount s.hist d k n + if r.isSequence d k n then 1 else 0 := by
    rw [hhist]
    exact List.countP_cons
  rw [hcount, hi d k n, hadv.stream_eq]
  by_cases hmine : r.destination = d ∧ r.orderingKey = some k
  · obtain ⟨rfl, hk⟩ := hmine
    have hinflight := (EventRow.heldBy_iff.mp hadv.fenced.held).2.2
    obtain ⟨st, hst, hn, hpart⟩ := (hc r.id r hr).at_cursor (.inl hinflight) hk
    obtain ⟨hmem, hd, hkey⟩ := s.db.stream_eq_some.mp hst
    have hmove : r.advances st = true := EventRow.advances_iff.mpr ⟨hd, hkey ▸ hk.symm, hpart.symm, hn.symm⟩
    have hstart := (s.db.stream_cursor hmem).2
    have hseq : r.isSequence r.destination k n = true ↔ n = st.nextSequence := by
      rw [EventRow.isSequence_iff, hn]
      constructor
      · rintro ⟨-, -, heq⟩
        exact (Option.some.inj heq).symm
      · rintro rfl
        exact ⟨rfl, hk, rfl⟩
    rw [hst, Option.map_some, if_pos hmove]
    simp only [Option.elim_some, StreamRow.passed, StreamRow.advance, hseq]
    split_ifs <;> omega
  · have hseq : ¬ r.isSequence d k n = true := by
      intro heq
      obtain ⟨hd, hk, -⟩ := EventRow.isSequence_iff.mp heq
      exact hmine ⟨hd, hk⟩
    rw [if_neg hseq, Nat.add_zero]
    cases hst : s.db.stream d k with
    | none => rfl
    | some st =>
      obtain ⟨-, hd, hkey⟩ := s.db.stream_eq_some.mp hst
      have hmove : ¬ r.advances st = true := by
        intro heq
        obtain ⟨hd', hk', -⟩ := EventRow.advances_iff.mp heq
        exact hmine ⟨hd'.symm.trans hd, by rw [← hk', hkey]⟩
      rw [Option.map_some, if_neg hmove]

theorem Counted.next {a : Action ι} (hc : s.db.Cursors) (hi : Counted s) (hs : Next cfg s a s') : Counted s' := by
  rcases hs.streams with hsame | ⟨k₀, h, r, -, -, -, hr, hhist, hadv, -⟩
  · intro d k n
    rw [hsame.count, hi d k n]
    cases hst : s.db.stream d k with
    | some st => rw [hsame.stays d k st hst]
    | none =>
      cases hst' : s'.db.stream d k with
      | none => rfl
      | some st =>
        rcases hsame.starts d k st hst' with hold | ⟨-, hinit⟩
        · rw [hst] at hold
          cases hold
        · simp only [Option.elim_none, Option.elim_some, StreamRow.passed, hinit.cursor]
          rw [if_neg (by omega)]
  · exact hi.advance hc hr hhist hadv

theorem Reachable.counted (h : Reachable cfg s) : Counted s := by
  refine h.inv (I := Counted) ?_ fun _ _ _ hreach hi hs => hi.next hreach.cursors hs
  intro clock d k n
  rfl

/-! ## Fresh ids -/

theorem Db.orderingKey_ne {db : Db} {r : EventRow} {id : Uuid} (hr : db.row id = some r) {k : String}
    (hk : r.orderingKey = some k) : k ≠ "" := by
  obtain ⟨n, p, -, -, hblank, -, -⟩ := EventRow.ordering_of_key (db.event_ordering (db.row_eq_some.mp hr).1) hk
  rintro rfl
  exact hblank btrim_empty

/-- A copy of an event is ordered if the event is. -/
theorem isOrdered_of_copy {ev : RelayEvent} {r : EventRow} (hcopy : ev.CopyOf r.toEnvelope)
    (hkey : ∀ k, r.orderingKey = some k → k ≠ "") : isOrdered ev = r.orderingKey.isSome := by
  unfold isOrdered
  rw [hcopy.orderingKey]
  cases hk : r.orderingKey with
  | none => rfl
  | some k => exact decide_eq_true (hkey k hk)

/-- Where ids are fresh, the copy of a handler is ordered if the row it works on is. -/
theorem Reachable.held_ordered (h : Reachable cfg s) (hf : FreshIDs s.hist) {k : Nat} {hd : Handler ι}
    (hk : s.handlers k = some hd) {r : EventRow} (hr : s.db.row hd.event.id = some r) :
    isOrdered hd.event = r.orderingKey.isSome := by
  obtain ⟨e, he, hcopy⟩ := h.copy_enqueued hk
  obtain rfl := hf.ext he (h.row_enqueued hr) (hcopy.id.symm.trans (s.db.row_eq_some.mp hr).2.symm)
  exact isOrdered_of_copy hcopy fun k hk => Db.orderingKey_ne hr hk

/-- Where ids are fresh, an event is marked by the calls of its own kind. -/
theorem Reachable.marked_ordered (h : Reachable cfg s) (hf : FreshIDs s.hist) {k : Nat} {i : ι} {m : Mark}
    {ordered : Bool} {row : EventRow} (hmem : Obs.marked k i m ordered row ∈ s.hist) :
    ordered = row.orderingKey.isSome := by
  obtain ⟨hrow, hkey, e, ev, he, hid, hcopy, rfl⟩ := h.obs
    (P := fun hist o => ∀ k i m ordered row, o = .marked k i m ordered row →
      Enqueued hist row.toEnvelope ∧ (∀ k, row.orderingKey = some k → k ≠ "") ∧
        ∃ e ev, Enqueued hist e ∧ e.id = row.id ∧ RelayEvent.CopyOf ev e ∧ ordered = isOrdered ev)
    (fun new hist o ho k i m ordered row heq => by
      obtain ⟨hrow, hkey, e, ev, he, hrest⟩ := ho k i m ordered row heq
      exact ⟨hrow.append, hkey, e, ev, he.append, hrest⟩)
    (by
      rintro s o hreach hfact k i m ordered row rfl
      obtain ⟨hrow, h, hk, -, hord, hheld, -⟩ := hfact
      obtain ⟨e, he, hcopy⟩ := hreach.copy_enqueued hk
      exact ⟨hreach.row_enqueued hrow, fun k hk => Db.orderingKey_ne hrow hk, e, h.event, he,
        hcopy.id.symm.trans (EventRow.heldBy_iff.mp hheld).1.symm, hcopy, hord⟩)
    _ hmem k i m ordered row rfl
  obtain rfl := hf.ext he hrow hid
  exact isOrdered_of_copy hcopy hkey

theorem Reachable.count_delivers (h : Reachable cfg s) (hf : FreshIDs s.hist) (d k : String) (n : Int) :
    s.hist.countP (Obs.delivers d k n) = advanceCount s.hist d k n := by
  refine List.countP_congr fun o ho => ?_
  cases o with
  | marked k₀ i m ordered row =>
    cases m with
    | delivered =>
      have hord := h.marked_ordered hf ho
      cases ordered with
      | true => exact Iff.rfl
      | false =>
        refine ⟨fun hseq => ?_, fun hfalse => by cases hfalse⟩
        obtain ⟨-, hk, -⟩ := EventRow.isSequence_iff.mp hseq
        rw [hk] at hord
        cases hord
    | retried => exact Iff.rfl
    | killed => exact Iff.rfl
  | _ => exact Iff.rfl

/-! ## Streams and delivered events -/

/-- A stream is in the partition of its key, and its key is not blank. -/
theorem Reachable.placed (h : Reachable cfg s) {d k : String} {st : StreamRow} (hst : s.db.stream d k = some st) :
    st.partitionID = Ordering.partition st.destination st.orderingKey ∧ trimSpace st.orderingKey ≠ "" := by
  refine h.inv (I := fun s => ∀ d k st, s.db.stream d k = some st →
    st.partitionID = Ordering.partition st.destination st.orderingKey ∧
    trimSpace st.orderingKey ≠ "") ?_ ?_ d k st hst
  · intro clock d k st hst
    cases hst
  · intro s a s' _ hi hs d k st hst
    rcases hs.streams with hsame | ⟨_, _, r, -, -, -, -, -, hadv, -⟩
    · rcases hsame.starts d k st hst with hold | ⟨-, hinit⟩
      · exact hi d k st hold
      · exact ⟨hinit.partition, hinit.key⟩
    · rw [hadv.stream_eq] at hst
      obtain ⟨st₀, hst₀, rfl⟩ := Option.map_eq_some_iff.mp hst
      have hold := hi d k st₀ hst₀
      split_ifs <;> exact hold

/-- A delivered row was there before, or the step is its delivered transition. -/
theorem Next.delivered_origin {a : Action ι} (hs : Next cfg s a s') {id : Uuid} {r : EventRow}
    (hr : s'.db.row id = some r) (hdelivered : r.status = .delivered) :
    s.db.row id = some r ∨ ∃ k h x, s.handlers k = some h ∧ s.db.row id = some x ∧
      x.heldBy h.event.id (cfg h.relay).instanceID = true ∧ x.toEnvelope = r.toEnvelope ∧
      MarkOrdering cfg s h .delivered x s'.db := by
  -- a row that is rewritten to another status is not it
  have hother : ∀ {db : Db} {x : EventRow} {f : Progress → Progress}, s.db.Rewrites db x f →
      (f x.toProgress).status ≠ .delivered → db.row id = some r → s.db.row id = some r := by
    intro db x f hrow hne hr
    rw [hrow.row] at hr
    split_ifs at hr with hid
    · obtain rfl := Option.some.inj hr
      exact absurd hdelivered hne
    · exact hr
  cases hs with
  | insert hrows =>
    rcases (hrows.adds.row id r).mp hr with hold | ⟨hnew, -⟩
    · exact .inl hold
    · rw [(hrows.new r hnew).1.1] at hdelivered
      cases hdelivered
  | lease _ hlease =>
    rw [State.dispatch_db, hlease.row] at hr
    obtain ⟨r₀, hr₀, rfl⟩ := Option.map_eq_some_iff.mp hr
    split_ifs at hdelivered ⊢ with hin
    · cases hdelivered
    · exact .inl hr₀
  | began _ _ hheld _ _ htouch =>
    refine .inl (hother htouch.toRewrites ?_ hr)
    show _ ≠ Status.delivered
    rw [countAttempt, EventRow.status_of_heldBy hheld]
    decide
  | @marked _ k h m db x f hk _ hheld hf hrow hordering _ =>
    by_cases hm : m = .delivered
    · subst hm
      have hr : db.row id = some r := hr
      rw [hrow.row] at hr
      split_ifs at hr with hid
      · obtain rfl := Option.some.inj hr
        exact .inr ⟨k, h, x, hk, hid ▸ hrow.old, hheld, rfl, hordering⟩
      · exact .inl hr
    · refine .inl (hother hrow ?_ hr)
      rw [(hf _).1]
      cases m with
      | delivered => exact absurd rfl hm
      | retried => decide
      | killed => decide
  | revived _ hf htouch =>
    refine .inl (hother htouch.toRewrites ?_ hr)
    rw [(hf _).1]
    decide
  | deleted hrow _ =>
    rcases hrow id with hsame | ⟨hnone, -⟩
    · exact .inl (hsame ▸ hr)
    · have hr : Db.row _ id = some r := hr
      rw [hnone] at hr
      cases hr
  | owned hevents _ _ _ => exact .inl ((Db.row_congr hevents id).symm.trans hr)
  | tick d => exact .inl hr
  | failed _ _ => exact .inl hr
  | published _ _ _ _ => exact .inl hr
  | acked _ _ => exact .inl hr
  | dropped k => exact .inl hr
  | effect _ => exact .inl hr

/-- Where ids are fresh, delivered ordered events are below the cursor. -/
theorem Reachable.delivered_below (h : Reachable cfg s) (hf : FreshIDs s.hist) {id : Uuid} {r : EventRow}
    (hr : s.db.row id = some r) (hdelivered : r.status = .delivered) {k : String} (hk : r.orderingKey = some k) :
    ∃ st n, s.db.stream r.destination k = some st ∧ r.orderingSequence = some n ∧ n < st.nextSequence := by
  refine h.inv (I := fun s => FreshIDs s.hist → ∀ id r, s.db.row id = some r → r.status = .delivered →
    ∀ k, r.orderingKey = some k → ∃ st n, s.db.stream r.destination k = some st ∧
    r.orderingSequence = some n ∧
      n < st.nextSequence) ?_ ?_ hf id r hr hdelivered k hk
  · intro clock _ id r hr
    cases hr
  · intro s a s' hreach hi hs hf id r hr hdelivered k hk
    have hf := hf.of_next hs
    rcases hs.delivered_origin hr hdelivered with hold | ⟨_, hd, x, hhd, hx, hheld, henv, hordering⟩
    · obtain ⟨st, n, hst, hn, hlt⟩ := hi hf id r hold hdelivered k hk
      obtain ⟨st', hst', -, -, hle⟩ := hs.stream_mono hst
      exact ⟨st', n, hst', hn, by omega⟩
    · have hkey : x.orderingKey = some k := by rw [← hk, henv]
      have hevent : s.db.row hd.event.id = some x := by
        rw [← (EventRow.heldBy_iff.mp hheld).1]
        exact s.db.row_mem (s.db.row_eq_some.mp hx).1
      rcases hordering with ⟨hnot, -⟩ | ⟨-, -, hadv⟩
      · refine absurd ⟨rfl, ?_⟩ hnot
        rw [hreach.held_ordered hf hhd hevent, hkey]
        rfl
      · obtain ⟨st, hst, hn, hpart⟩ := (hreach.cursors _ x hx).at_cursor
          (.inl (EventRow.status_of_heldBy hheld)) hkey
        obtain ⟨-, hdest, hstkey⟩ := s.db.stream_eq_some.mp hst
        have hmove : x.advances st = true :=
          EventRow.advances_iff.mpr ⟨hdest, by rw [hstkey, hkey], hpart.symm, hn.symm⟩
        refine ⟨st.advance s.clock, st.nextSequence, ?_, ?_, Int.lt_succ _⟩
        · rw [← congrArg Envelope.destination henv, hadv.stream_eq, hst, Option.map_some, if_pos hmove]
        · rw [← hn, henv]

/-! ## The result -/

/-- BeginOrderedAttempt succeeds for an event at the cursor only. -/
theorem Reachable.begin_at_cursor (h : Reachable cfg s) {now epoch maxAttempts minimumPartitionLease n : Int}
    {id : Uuid} {owner : String} {db : Db}
    (hb : s.db.beginOrderedAttempt now id owner epoch maxAttempts minimumPartitionLease = .ok (db, n)) :
    ∃ r k st, s.db.row id = some r ∧ r.orderingKey = some k ∧ s.db.stream r.destination k = some st ∧
      r.orderingSequence = some st.nextSequence := by
  obtain ⟨r, p, hheld, -, -, hpart, -, -, htouch⟩ := Db.beginOrderedAttempt_ok hb
  obtain ⟨rfl, -, hst⟩ := EventRow.heldBy_iff.mp hheld
  obtain ⟨pid, hpid, -⟩ := Option.bind_eq_some_iff.mp hpart
  cases hk : r.orderingKey with
  | none =>
    have hcheck := s.db.event_ordering (s.db.row_eq_some.mp htouch.old).1
    unfold EventRow.orderingStateCheck at hcheck
    rw [hk, hpid] at hcheck
    cases hn : r.orderingSequence <;> rw [hn] at hcheck <;> cases hcheck
  | some k =>
    obtain ⟨st, hst, hn, -⟩ := (h.cursors r.id r htouch.old).at_cursor (.inl hst) hk
    exact ⟨r, k, st, htouch.old, hk, hst, hn⟩

/-- **The cursor of a stream.**  It never moves back; events below it are delivered, events above it are untouched, so
that an ordered attempt begins at the cursor only; at most one event stands at it; MarkOrderedDelivered has passed
every sequence below it exactly once, and with fresh ids no other call delivered one; and no sequence below it can be
enqueued again. -/
theorem cursor_invariant (h : Reachable cfg s) {d k : String} {st : StreamRow} (hst : s.db.stream d k = some st) :
    (st.startSequence ≤ st.nextSequence ∧ ∀ a s', step cfg s a = some s' →
      ∃ st', s'.db.stream d k = some st' ∧
      st'.startSequence = st.startSequence ∧ st.nextSequence ≤ st'.nextSequence) ∧
    (∀ r ∈ s.db.events.rows, ∀ n, r.isSequence d k n = true →
      (n < st.nextSequence → r.status = .delivered) ∧
      (st.nextSequence < n → r.status = .pending ∧ r.attempts = 0)) ∧
    (∀ now id owner epoch maxAttempts minimumPartitionLease db n,
      s.db.beginOrderedAttempt now id owner epoch maxAttempts minimumPartitionLease = .ok (db, n) →
      ∀ r, s.db.row id = some r → ∀ m, r.isSequence d k m = true → m = st.nextSequence) ∧
    (∀ r ∈ s.db.events.rows, ∀ r' ∈ s.db.events.rows, r.isSequence d k st.nextSequence = true →
      r'.isSequence d k st.nextSequence = true → r = r') ∧
    (∀ n, st.startSequence ≤ n → n < st.nextSequence → s.hist.countP (Obs.advances d k n) = 1 ∧
      (FreshIDs s.hist → s.hist.countP (Obs.delivers d k n) = 1)) ∧
    (∀ now (c : Call), c.event.destination = d → c.event.orderingKey = k → c.event.sequence < st.nextSequence →
      ∃ err, enqueue s.db now c = .rejected s.db err) := by
  obtain ⟨hmem, -, hkey⟩ := s.db.stream_eq_some.mp hst
  have haligned : ∀ {r n}, r ∈ s.db.events.rows → r.isSequence d k n = true →
      (n < st.nextSequence → r.status = .delivered) ∧ (st.nextSequence < n → r.New) := by
    intro r n hr hseq
    obtain ⟨rfl, hk, hn⟩ := EventRow.isSequence_iff.mp hseq
    obtain ⟨st', n', hst', hn', -, -, hbelow, habove⟩ := h.cursors r.id r (s.db.row_mem hr) k hk
    rw [hst] at hst'
    obtain rfl := Option.some.inj hst'
    rw [hn] at hn'
    obtain rfl := Option.some.inj hn'
    exact ⟨hbelow, habove⟩
  refine ⟨⟨(s.db.stream_cursor hmem).2, fun a s' hs => ?_⟩, fun r hr n hseq => haligned hr hseq, ?_, ?_, ?_, ?_⟩
  · obtain ⟨st', hst', hstart, -, hle⟩ := (next_of_step hs).stream_mono hst
    exact ⟨st', hst', hstart, hle⟩
  · intro now id owner epoch maxAttempts minimumPartitionLease db n hb r hr m hseq
    obtain ⟨r', k', st', hr', hk', hst', hn'⟩ := h.begin_at_cursor hb
    rw [hr] at hr'
    obtain rfl := Option.some.inj hr'
    obtain ⟨rfl, hk, hm⟩ := EventRow.isSequence_iff.mp hseq
    rw [hk] at hk'
    obtain rfl := Option.some.inj hk'
    rw [hst] at hst'
    obtain rfl := Option.some.inj hst'
    rw [hm] at hn'
    exact Option.some.inj hn'
  · intro r hr r' hr' hseq hseq'
    obtain ⟨hd, hk, hn⟩ := EventRow.isSequence_iff.mp hseq
    obtain ⟨hd', hk', hn'⟩ := EventRow.isSequence_iff.mp hseq'
    refine s.db.event_sequence_ext hr hr' ?_
    simp [EventRow.sameSequence, hd, hd', hk, hk', hn, hn']
  · intro n hle hlt
    have hone : advanceCount s.hist d k n = 1 := by
      rw [h.counted d k n, hst]
      exact if_pos ⟨hle, hlt⟩
    exact ⟨hone, fun hf => (h.count_delivers hf d k n).trans hone⟩
  · rintro now c rfl rfl hseq
    refine enqueue_below_cursor hst ?_ hseq
    rintro hblank
    have hcheck := s.db.streams.ok.2 st hmem
    simp only [StreamRow.check, Bool.and_eq_true, decide_eq_true_eq] at hcheck
    exact hcheck.1.1.1.1.1.2 (by rw [hkey, hblank, btrim_empty])

def examplePresence : RelayPresence :=
  { instanceID := "relay-a", hostname := "host", version := "v0.3", startedAt := 0, orderingCapable := true }

/-- Sequence `n` of the stream (orders, a). -/
def exampleOrderedCall (id : String) (n : Int) (generated : Uuid) : Call :=
  { exampleCall with
    event := { exampleCall.event with id := id, orderingKey := "a", sequence := n }, generated := some generated }

def exampleOtherID : Uuid := ⟨8, by decide⟩

/-- Two sequences are enqueued, in reverse; the first is delivered. -/
def exampleOrderedDelivery : List (Action Unit) :=
  [.register examplePresence, .reconcile (),
   .produce 0 [exampleOrderedCall "" 2 exampleOtherID, exampleOrderedCall "" 1 exampleID] true,
   .claimOrdered () 10 (fun _ => false), .begin 0, .publish 0 "" "", .ack 0, .settle 0 false 0]

/-- The delivered sequence was delivered once, and the next one is untouched. -/
theorem cursor_invariant_first_delivery : ∃ (s : State Unit) (st : StreamRow), Reachable exampleRelay s ∧
    s.db.stream "orders" "a" = some st ∧ st.nextSequence = 2 ∧ s.hist.countP (Obs.delivers "orders" "a" 1) = 1 := by
  obtain ⟨s, hreach, hp⟩ := exists_reachable exampleRelay exampleOrderedDelivery
    (fun s => FreshIDs s.hist &&
      (s.db.stream "orders" "a").any fun st => st.startSequence = 1 && st.nextSequence = 2) (by decide +kernel)
  obtain ⟨hfresh, hstream⟩ := Bool.and_eq_true_iff.mp hp
  obtain ⟨st, hst, hcur⟩ := (Option.any_eq_true ..).mp hstream
  obtain ⟨hstart, hnext⟩ := Bool.and_eq_true_iff.mp hcur
  have hstart : st.startSequence = 1 := of_decide_eq_true hstart
  have hnext : st.nextSequence = 2 := of_decide_eq_true hnext
  obtain ⟨-, -, -, -, hcount, -⟩ := cursor_invariant hreach hst
  exact ⟨s, st, hreach, hst, hnext, (hcount 1 (by omega) (by omega)).2 (of_decide_eq_true hfresh)⟩

/-- An id that comes back: a handler of relay `i` outlives its unordered event, whose id is then enqueued again with an
ordering key.  The old handler delivers the new event without moving the cursor. -/
def exampleStaleHandler {ι : Type} (i : ι) : List (Action ι) :=
  [.produce 0 [{ exampleCall with event := { exampleCall.event with id := exampleID.text } }] true,
   .claim i 10 (fun _ => false), .tick (30 * 1000000), .claim i 10 (fun _ => false), .begin 1, .publish 1 "" "",
   .ack 1, .settle 1 false 0, .tick (8 * 24 * 3600 * 1000000),
   .cleanup (7 * 24 * 3600 * second) 10 (fun _ => false),
   .register examplePresence, .reconcile i, .produce 0 [exampleOrderedCall exampleID.text 1 exampleID] true,
   .claimOrdered i 10 (fun _ => false), .begin 0, .publish 0 "" "", .ack 0, .settle 0 false 0]

/-- The sequence is enqueued and delivered a second time. -/
def exampleReusedID : List (Action Unit) :=
  exampleStaleHandler () ++
  [.tick (8 * 24 * 3600 * 1000000), .cleanup (7 * 24 * 3600 * second) 10 (fun _ => false),
   .produce 0 [exampleOrderedCall "" 1 exampleOtherID] true, .heartbeat (), .reconcile (), .tick (11 * 1000000),
   .heartbeat (), .reconcile (), .claimOrdered () 10 (fun _ => false), .begin 3, .publish 3 "" "", .ack 3,
   .settle 3 false 0]

/-- Without fresh ids a sequence below the cursor may have made two delivered transitions. -/
theorem sequence_delivered_twice : (∀ i, (exampleRelay i).Valid) ∧ ∃ (s : State Unit) (st : StreamRow),
    Reachable exampleRelay s ∧ s.db.stream "orders" "a" = some st ∧ st.startSequence ≤ 1 ∧
    1 < st.nextSequence ∧
      s.hist.countP (Obs.delivers "orders" "a" 1) = 2 := by
  refine ⟨by decide +kernel, ?_⟩
  obtain ⟨s, hreach, hp⟩ := exists_reachable exampleRelay exampleReusedID
    (fun s => (s.hist.countP (Obs.delivers "orders" "a" 1) = 2) &&
      (s.db.stream "orders" "a").any fun st => st.startSequence ≤ 1 && 1 < st.nextSequence) (by decide +kernel)
  obtain ⟨htwice, hstream⟩ := Bool.and_eq_true_iff.mp hp
  obtain ⟨st, hst, hcur⟩ := (Option.any_eq_true ..).mp hstream
  obtain ⟨hstart, hnext⟩ := Bool.and_eq_true_iff.mp hcur
  exact ⟨s, st, hreach, hst, of_decide_eq_true hstart, of_decide_eq_true hnext, of_decide_eq_true htwice⟩

end

end Emitlane
