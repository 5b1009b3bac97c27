import Mathlib.Data.List.ReduceOption
import Emitlane.Admin.Service

/-!
# Replay — what ReplayBatch does after a preview

PreviewReplay and ReplayBatch build their queries from one filter.  `BatchOutcome` says what a batch does in terms of
the count of the preview; `IsReplay` says what a clone takes over from its source.
-/

namespace Emitlane

open Rel

/-! ## The clone of one event -/

theorem textOk_iff {s : String} : textOk s = true ↔ '\x00' ∉ s.toList := by simp [textOk]

theorem textOk_toString (n : Int) : textOk (toString n) = true := by
  have hnat : ∀ k : Nat, '\x00' ∉ Nat.toDigits 10 k := by
    intro k hmem
    have hdigit := Nat.isDigit_of_mem_toDigits (by omega) (by omega) hmem
    revert hdigit
    decide
  rw [textOk_iff, Int.toString_eq_repr]
  cases n with
  | ofNat k => simpa [Int.repr] using hnat k
  | negSucc k => simpa [Int.repr] using hnat (k + 1)

theorem all_textOk_nullString {s : String} : (nullString s).all textOk = true ↔ textOk s = true := by
  unfold nullString
  by_cases h : s = ""
  · subst h
    decide
  · simp [h]

/-- The texts of a row, column by column. -/
theorem EventRow.texts_ok {r : EventRow} :
    r.texts.all textOk = true ↔
      (∀ t ∈ [r.destination, r.eventType, r.contentType], textOk t = true) ∧
      (∀ o ∈ [r.correlationID, r.causationID, r.traceparent, r.tracestate, r.orderingKey, r.leaseOwner],
        o.all textOk = true) ∧
      ∀ h ∈ r.headers, textOk h.1 = true ∧ textOk h.2 = true := by
  have hoption : ∀ l : List (Option String),
      (∀ t ∈ l.reduceOption, textOk t = true) ↔ ∀ o ∈ l, o.all textOk = true := by
    intro l
    constructor
    · intro h o ho
      cases o with
      | none => rfl
      | some t => exact h t (List.reduceOption_mem_iff.mpr ho)
    · intro h t ht
      exact h (some t) (List.reduceOption_mem_iff.mp ht)
  rw [List.all_eq_true, EventRow.texts]
  simp only [List.forall_mem_append, hoption, List.forall_mem_map]
  constructor
  · rintro ⟨⟨⟨h1, h2⟩, h3⟩, h4⟩
    exact ⟨h1, h2, fun h hh => ⟨h3 h hh, h4 h hh⟩⟩
  · rintro ⟨h1, h2, h3⟩
    exact ⟨⟨⟨h1, h2⟩, fun h hh => (h3 h hh).1⟩, fun h hh => (h3 h hh).2⟩

theorem mem_replayHeaders {source : EventRow} {h : String × String} (hmem : h ∈ replayHeaders source) :
    h ∈ source.headers ∨ (∃ k, source.orderingKey = some k ∧ h = ("emitlane-original-ordering-key", k)) ∨
      ∃ n : Int, h = ("emitlane-original-sequence", toString n) := by
  unfold replayHeaders at hmem
  split at hmem
  · exact .inl hmem
  · rename_i key hkey
    simp only at hmem
    split at hmem
    · rcases mem_setEntry.mp hmem with ⟨hold, -⟩ | rfl
      · exact .inl hold
      · exact .inr (.inl ⟨key, hkey, rfl⟩)
    · rename_i n _
      rcases mem_setEntry.mp hmem with ⟨hold, -⟩ | rfl
      · rcases mem_setEntry.mp hold with ⟨hold, -⟩ | rfl
        · exact .inl hold
        · exact .inr (.inl ⟨key, hkey, rfl⟩)
      · exact .inr (.inr ⟨n, rfl⟩)

section Clone

variable {source : EventRow} (hsource : source.check = true) (now : Int) (eventID batchID : Uuid) (m : Mutation)

include hsource

/-- The texts of a clone are those of its source, the trace of the mutation and the provenance. -/
theorem texts_replayRow :
    (replayRow now source eventID batchID m (replayHeaders source)).texts.all textOk = true ↔
      textOk m.traceparent = true ∧ textOk m.tracestate = true := by
  have htexts : source.texts.all textOk = true := by
    simp only [EventRow.check, Bool.and_eq_true] at hsource
    exact hsource.1.1.1.1.1.1.1.1.1.1
  obtain ⟨hcolumns, hoptions, hstored⟩ := EventRow.texts_ok.mp htexts
  have hheaders : ∀ h ∈ replayHeaders source, textOk h.1 = true ∧ textOk h.2 = true := by
    intro h hmem
    rcases mem_replayHeaders hmem with hold | ⟨k, hk, rfl⟩ | ⟨n, rfl⟩
    · exact hstored h hold
    · have hname : textOk "emitlane-original-ordering-key" = true := by decide
      have hkey : source.orderingKey.all textOk = true := hoptions _ (by simp)
      rw [hk] at hkey
      exact ⟨hname, hkey⟩
    · have hname : textOk "emitlane-original-sequence" = true := by decide
      exact ⟨hname, textOk_toString n⟩
  rw [EventRow.texts_ok]
  constructor
  · rintro ⟨-, h, -⟩
    exact ⟨all_textOk_nullString.mp (h _ (by simp [replayRow])),
    all_textOk_nullString.mp (h _ (by simp [replayRow]))⟩
  · rintro ⟨htp, hts⟩
    refine ⟨hcolumns, ?_, hheaders⟩
    intro o ho
    simp only [replayRow, List.mem_cons, List.not_mem_nil, or_false] at ho
    rcases ho with rfl | rfl | rfl | rfl | rfl | rfl
    · exact hoptions _ (by simp)
    · exact hoptions _ (by simp)
    · exact all_textOk_nullString.mpr htp
    · exact all_textOk_nullString.mpr hts
    · rfl
    · rfl

/-- A clone passes the CHECK constraints if and only if the trace of the mutation has no NUL. -/
theorem check_replayRow :
    (replayRow now source eventID batchID m (replayHeaders source)).check = true ↔
      textOk m.traceparent = true ∧ textOk m.tracestate = true := by
  rw [← texts_replayRow hsource now eventID batchID m]
  simp only [EventRow.check, Bool.and_eq_true] at hsource ⊢
  obtain ⟨⟨⟨⟨⟨⟨⟨⟨⟨⟨-, hdest⟩, htype⟩, hcontent⟩, hpos⟩, hmax⟩, -⟩, -⟩, -⟩, -⟩,
    -⟩ := hsource
  constructor
  · rintro ⟨⟨⟨⟨⟨⟨⟨⟨⟨⟨h, -⟩, -⟩, -⟩, -⟩, -⟩, -⟩, -⟩, -⟩, -⟩, -⟩
    exact h
  · intro h
    exact ⟨⟨⟨⟨⟨⟨⟨⟨⟨⟨h, hdest⟩, htype⟩, hcontent⟩, hpos⟩, hmax⟩, rfl⟩, rfl⟩, rfl⟩,
      rfl⟩, rfl⟩

end Clone

/-! ## The clones of a batch -/

section Batch

variable {db : Db} (now : Int) (batchID : Uuid) {m : Mutation}

/-- The clone of a source with its drawn id. -/
def cloneOf (m : Mutation) (x : EventRow × Uuid) : EventRow :=
  replayRow now x.1 x.2 batchID m (replayHeaders x.1)

/-- The sources are valid rows, and the ids drawn for them are new. -/
structure Sources (db : Db) (sources : List (EventRow × Uuid)) : Prop where
  checked : ∀ x ∈ sources, x.1.check = true
  fresh : ∀ x ∈ sources, db.row x.2 = none
  nodup : (sources.map (·.2)).Nodup

/-- An unordered row with a new id and its CHECKs in order can be inserted. -/
theorem Db.events_ok_append {r : EventRow} (hcheck : r.check = true) (hfresh : db.row r.id = none)
    (hkey : r.orderingKey = none) : eventsSchema.Ok (db.events.rows ++ [r]) := by
  refine ⟨?_, ?_, ?_⟩
  · rw [List.map_append]
    refine List.Nodup.append db.events.ok.1 (List.nodup_singleton _) ?_
    intro x hx hr
    obtain ⟨y, hy, rfl⟩ := List.mem_map.mp hx
    exact lookup_eq_none.mp hfresh y hy (List.mem_singleton.mp hr)
  · intro x hx
    rcases List.mem_append.mp hx with hx | hx
    · exact db.event_check hx
    · rw [List.mem_singleton.mp hx]
      exact hcheck
  · refine List.pairwise_append.mpr ⟨db.events.ok.2.2, List.pairwise_singleton _ _, fun a _ b hb => ?_⟩
    obtain rfl := List.mem_singleton.mp hb
    cases hk : a.orderingKey with
    | none => simp [EventRow.sameSequence, hk]
    | some k => simp [EventRow.sameSequence, hk, hkey]

theorem Db.cloneReplay_eq {source : EventRow} {eventID : Uuid} (hcheck : source.check = true)
    (hfresh : db.row eventID = none) (hmode : source.orderingKey = none ∨ m.orderingMode = "unordered")
    (htrace : textOk m.traceparent = true ∧ textOk m.tracestate = true) :
    ∃ t : Table eventsSchema, t.rows = db.events.rows ++ [cloneOf now batchID m (source, eventID)] ∧
      db.cloneReplay now source eventID batchID m = .ok { db with events := t } := by
  have hok : eventsSchema.Ok (db.events.rows ++ [cloneOf now batchID m (source, eventID)]) := db.events_ok_append
    ((check_replayRow hcheck now eventID batchID m).mpr htrace) hfresh rfl
  refine ⟨⟨_, hok⟩, rfl, ?_⟩
  unfold Db.cloneReplay
  rw [if_neg]
  · have hinsert := Table.insert_of_ok hok
    unfold cloneOf at hinsert
    rw [hinsert]
    rfl
  · rintro ⟨hsome, hne⟩
    rcases hmode with hnone | hmode
    · rw [hnone] at hsome
      cases hsome
    · exact hne hmode

variable {now batchID} in
theorem Sources.tail {x : EventRow × Uuid} {sources : List (EventRow × Uuid)} (h : Sources db (x :: sources))
    {t : Table eventsSchema} (ht : t.rows = db.events.rows ++ [cloneOf now batchID m x]) :
    Sources { db with events := t } sources where
  checked y hy := h.checked y (List.mem_cons_of_mem x hy)
  fresh y hy := by
    refine lookup_eq_none.mpr fun r hr => ?_
    rw [ht] at hr
    rcases List.mem_append.mp hr with hr | hr
    · exact lookup_eq_none.mp (h.fresh y (List.mem_cons_of_mem x hy)) r hr
    · rw [List.mem_singleton.mp hr]
      intro heq
      exact (List.nodup_cons.mp h.nodup).1 (List.mem_map.mpr ⟨y, hy, heq.symm⟩)
  nodup := (List.nodup_cons.mp h.nodup).2

/-- All sources can be cloned: their clones are appended, in order. -/
theorem Db.cloneAll_eq (htrace : textOk m.traceparent = true ∧ textOk m.tracestate = true) :
    ∀ {sources : List (EventRow × Uuid)} {db : Db}, Sources db sources →
      (∀ x ∈ sources, x.1.orderingKey = none ∨ m.orderingMode = "unordered") →
      ∃ t : Table eventsSchema, t.rows = db.events.rows ++ sources.map (cloneOf now batchID m) ∧
        db.cloneAll now batchID m sources = .ok { db with events := t }
  | [], db, _, _ => ⟨db.events, by simp, rfl⟩
  | (source, eventID) :: rest, db, h, hmode => by
    obtain ⟨t, ht, hclone⟩ := Db.cloneReplay_eq now batchID
      (h.checked _ List.mem_cons_self) (h.fresh _ List.mem_cons_self) (hmode _ List.mem_cons_self) htrace
    obtain ⟨t', ht', hrest⟩ := Db.cloneAll_eq htrace (h.tail ht) fun x hx => hmode x (List.mem_cons_of_mem _ hx)
    refine ⟨t', by rw [ht']; simp [ht], ?_⟩
    rw [Db.cloneAll, hclone]
    exact hrest

variable (db) in
/-- An ordered source that comes first ends the batch before anything is inserted. -/
theorem Db.cloneAll_head_conflict (hmode : m.orderingMode ≠ "unordered") {x : EventRow × Uuid}
    (hkey : x.1.orderingKey ≠ none) (rest : List (EventRow × Uuid)) :
    ∃ e : StoreError, e.sentinel = some .errConflict ∧ db.cloneAll now batchID m (x :: rest) = .error e := by
  refine ⟨.conflict s!"ordered event {x.1.id.text} requires ordering_mode=unordered", rfl, ?_⟩
  rw [Db.cloneAll, Db.cloneReplay, if_pos ⟨Option.isSome_iff_ne_none.mpr hkey, hmode⟩]
  rfl

/-- The first ordered source ends the batch with a conflict, and with it the transaction. -/
theorem Db.cloneAll_conflict (htrace : textOk m.traceparent = true ∧ textOk m.tracestate = true)
    (hmode : m.orderingMode ≠ "unordered") :
    ∀ {sources : List (EventRow × Uuid)} {db : Db}, Sources db sources →
      (∃ x ∈ sources, x.1.orderingKey ≠ none) →
      ∃ e : StoreError, e.sentinel = some .errConflict ∧ db.cloneAll now batchID m sources = .error e
  | [], _, _, h => by obtain ⟨x, hx, -⟩ := h; cases hx
  | (source, eventID) :: rest, db, h, hex => by
    by_cases hkey : source.orderingKey = none
    · obtain ⟨t, ht, hclone⟩ := Db.cloneReplay_eq now batchID
        (h.checked _ List.mem_cons_self) (h.fresh _ List.mem_cons_self) (.inl hkey) htrace
      have hrest : ∃ x ∈ rest, x.1.orderingKey ≠ none := by
        obtain ⟨x, hx, hne⟩ := hex
        rcases List.mem_cons.mp hx with rfl | hx
        · exact absurd hkey hne
        · exact ⟨x, hx, hne⟩
      obtain ⟨e, hsentinel, herr⟩ := Db.cloneAll_conflict htrace hmode (h.tail ht) hrest
      refine ⟨e, hsentinel, ?_⟩
      rw [Db.cloneAll, hclone]
      exact herr
    · exact db.cloneAll_head_conflict now batchID hmode hkey rest

/-- With a NUL in the trace the first clone is refused by its INSERT. -/
theorem Db.cloneAll_head_refused {x : EventRow × Uuid} (hcheck : x.1.check = true)
    (hmode : x.1.orderingKey = none ∨ m.orderingMode = "unordered")
    (htrace : ¬(textOk m.traceparent = true ∧ textOk m.tracestate = true)) (rest : List (EventRow × Uuid)) :
    db.cloneAll now batchID m (x :: rest) = .error (.sql s!"clone replay event {x.1.id.text}") := by
  have hbad : ¬eventsSchema.Ok (db.events.rows ++ [cloneOf now batchID m x]) := fun hok =>
    htrace ((check_replayRow hcheck now x.2 batchID m).mp (hok.2.1 _ (by simp [cloneOf])))
  have hinsert := Table.insert_of_not_ok hbad
  unfold cloneOf at hinsert
  rw [Db.cloneAll, Db.cloneReplay, if_neg]
  · rw [hinsert]
    rfl
  · rintro ⟨hsome, hne⟩
    rcases hmode with hnone | hmode
    · rw [hnone] at hsome
      cases hsome
    · exact hne hmode

end Batch

/-! ## The outcome of a batch -/

/-- The events a filter selects. -/
def Db.matching (db : Db) (filter : EventFilter) : List EventRow := db.events.rows.filter filter.selects

/-- The header a replay adds: the ordering of the source. -/
def EventRow.provenance (source : EventRow) (name : String) : Option String :=
  if name = "emitlane-original-ordering-key" then source.orderingKey
  else if name = "emitlane-original-sequence" then source.orderingSequence.map toString
  else none

/-- `clone` is a new event of the batch with the content of `source`. -/
structure EventRow.IsReplay (batchID : Uuid) (source clone : EventRow) : Prop where
  pending : clone.status = .pending ∧ clone.attempts = 0
  unordered : clone.orderingKey = none ∧ clone.orderingSequence = none ∧ clone.orderingPartition = none
  origin : clone.replayedFromEventID = some source.id ∧ clone.replayBatchID = some batchID
  routing : clone.destination = source.destination ∧ clone.eventType = source.eventType ∧
    clone.messageKey = source.messageKey
  content : clone.payload = source.payload ∧ clone.contentType = source.contentType ∧
    clone.schemaVersion = source.schemaVersion
  relations : clone.correlationID = source.correlationID ∧ clone.causationID = source.causationID
  headers : ∀ name, getEntry clone.headers name = (source.provenance name).or (getEntry source.headers name)

theorem getEntry_replayHeaders {source : EventRow} (h : source.orderingStateCheck = true) (name : String) :
    getEntry (replayHeaders source) name = (source.provenance name).or (getEntry source.headers name) := by
  unfold replayHeaders EventRow.provenance
  unfold EventRow.orderingStateCheck at h
  split at h
  · rename_i hk hs hp
    simp [hk, hs]
  · rename_i k n p hk hs hp
    simp only [hk, hs, getEntry_setEntry, Option.map_some]
    by_cases hkey : name = "emitlane-original-ordering-key"
    · subst hkey
      have hne : "emitlane-original-ordering-key" ≠ "emitlane-original-sequence" := by decide
      simp [hne]
    · by_cases hseq : name = "emitlane-original-sequence" <;> simp [hkey, hseq]
  · cases h

theorem isReplay_cloneOf {now : Int} {batchID : Uuid} {m : Mutation} {x : EventRow × Uuid} (h : x.1.check = true) :
    x.1.IsReplay batchID (cloneOf now batchID m x) where
  pending := ⟨rfl, rfl⟩
  unordered := ⟨rfl, rfl, rfl⟩
  origin := ⟨rfl, rfl⟩
  routing := ⟨rfl, rfl, rfl⟩
  content := ⟨rfl, rfl, rfl⟩
  relations := ⟨rfl, rfl⟩
  headers name := by
    simp only [EventRow.check, Bool.and_eq_true] at h
    exact getEntry_replayHeaders h.2 name

/-- The batch `r` created: one replay of each matching event, with new ids, and one audit record; nothing else of the
database changed. -/
structure BatchCreated (db : Db) (filter : EventFilter) (batchID : Uuid) (n : Nat) (db' : Db) (result : ReplayResult)
    (sources clones : List EventRow) (audit : AuditRow) : Prop where
  perm : sources.Perm (db.matching filter)
  replays : List.Forall₂ (EventRow.IsReplay batchID) sources clones
  count : clones.length = n
  fresh : ∀ c ∈ clones, db.row c.id = none
  nodup : (clones.map (·.id)).Nodup
  events : db'.events.rows = db.events.rows ++ clones
  audited : db'.audit.rows = db.audit.rows ++ [audit]
  record : audit.action = "replay.batch" ∧ audit.replayBatchID = some batchID
  frame : db'.streams = db.streams ∧ db'.partitions = db.partitions ∧ db'.relays = db.relays ∧
    db'.paused = db.paused
  returns : result = ⟨batchID, n, clones.map (·.id)⟩

/-- What ReplayBatch returns where the preview has counted `n`. -/
structure BatchOutcome (db : Db) (filter : EventFilter) (m : Mutation) (n : Nat) (batchID : Uuid)
    (r : Except StoreError (Db × ReplayResult)) : Prop where
  notFound : n = 0 → ∃ e, r = .error e ∧ e.sentinel = some .errNotFound
  conflict : n ≠ 0 →
    (filter.limit < n ∨ (∃ x ∈ db.matching filter, x.orderingKey ≠ none) ∧ m.orderingMode ≠ "unordered") →
    ∃ e, r = .error e ∧ e.sentinel = some .errConflict
  created : n ≠ 0 → (n : Int) ≤ filter.limit →
    ((∀ x ∈ db.matching filter, x.orderingKey = none) ∨ m.orderingMode = "unordered") →
    ∃ db' result sources clones audit, r = .ok (db', result) ∧
      BatchCreated db filter batchID n db' result sources clones audit

/-- The ids a batch of `n` draws are new. -/
structure NewIDs (db : Db) (newID : Nat → Uuid) (auditID : Uuid) (n : Nat) : Prop where
  fresh : ∀ i < n, db.row (newID i) = none
  inj : ∀ i < n, ∀ j < n, newID i = newID j → i = j
  audit : ∀ a ∈ db.audit.rows, a.id ≠ auditID

section Outcome

variable {db : Db} {now : Int} {filter : EventFilter} {m : Mutation} {batchID auditID : Uuid} {newID : Nat → Uuid}

variable (db filter) in
theorem Db.length_replaySources (limit : Int) :
    (db.replaySources filter limit).length = min (limit + 1).toNat (db.matching filter).length := by
  unfold Db.replaySources Db.matching
  rw [List.length_take, List.length_insertionSort]

theorem Db.replaySources_perm {limit : Int} (h : ((db.matching filter).length : Int) ≤ limit) :
    (db.replaySources filter limit).Perm (db.matching filter) := by
  unfold Db.replaySources
  rw [List.take_of_length_le]
  · exact List.perm_insertionSort _ _
  · rw [List.length_insertionSort]
    have : ((db.matching filter).length : Int) ≤ limit := h
    unfold Db.matching at this
    omega

variable (db now) in
theorem Db.insertAudit_eq (action : String) (target batch : Option Uuid)
    (hfresh : ∀ a ∈ db.audit.rows, a.id ≠ auditID)
    (hactor : btrim m.actor ≠ "") (haction : btrim action ≠ "")
    (htexts : textOk m.actor = true ∧ textOk m.reason = true ∧ textOk m.requestID = true) :
    ∃ (t : Table auditSchema) (a : AuditRow), t.rows = db.audit.rows ++ [a] ∧ a.action = action ∧
      a.replayBatchID = batch ∧ db.insertAudit now auditID action m target batch = .ok { db with audit := t } := by
  let a : AuditRow :=
    { id := auditID, action := action, actor := m.actor, reason := nullString m.reason,
      requestID := nullString m.requestID, targetEventID := target, replayBatchID := batch, createdAt := now }
  have hcheck : a.check = true := by
    simp only [AuditRow.check, a, Bool.and_eq_true, all_textOk_nullString, decide_eq_true_eq]
    exact ⟨⟨⟨⟨htexts.1, htexts.2.1⟩, htexts.2.2⟩, by simpa using haction⟩, by simpa using hactor⟩
  have hok : auditSchema.Ok (db.audit.rows ++ [a]) := by
    refine ⟨?_, ?_⟩
    · rw [List.map_append]
      refine List.Nodup.append db.audit.ok.1 (List.nodup_singleton _) ?_
      intro x hx hr
      obtain ⟨y, hy, rfl⟩ := List.mem_map.mp hx
      exact hfresh y hy (List.mem_singleton.mp hr)
    · intro x hx
      rcases List.mem_append.mp hx with hx | hx
      · exact db.audit.ok.2 x hx
      · rw [List.mem_singleton.mp hx]
        exact hcheck
  refine ⟨⟨_, hok⟩, a, rfl, rfl, rfl, ?_⟩
  unfold Db.insertAudit
  rw [Table.insert_of_ok hok]

/-- The ids a batch gives its sources, in the order of the sources. -/
def Db.drawn (db : Db) (filter : EventFilter) (newID : Nat → Uuid) : List (EventRow × Uuid) :=
  (db.replaySources filter filter.limit).zip
    ((List.range (db.replaySources filter filter.limit).length).map newID)

variable (db filter newID) in
theorem Db.drawn_sources : (db.drawn filter newID).map (·.1) = db.replaySources filter filter.limit :=
  List.map_fst_zip (by simp)

variable (db filter newID) in
theorem Db.drawn_ids :
    (db.drawn filter newID).map (·.2) = (List.range (db.replaySources filter filter.limit).length).map newID :=
  List.map_snd_zip (by simp)

theorem Sources.drawn (hids : NewIDs db newID auditID (db.matching filter).length)
    (hlimit : ((db.matching filter).length : Int) ≤ filter.limit) : Sources db (db.drawn filter newID) := by
  have hperm := Db.replaySources_perm hlimit
  have hlen := hperm.length_eq
  refine ⟨fun x hx => ?_, fun x hx => ?_, ?_⟩
  · have hmem := hperm.mem_iff.mp (List.of_mem_zip hx).1
    exact db.event_check (List.mem_filter.mp hmem).1
  · obtain ⟨i, hi, hx2⟩ := List.mem_map.mp (List.of_mem_zip hx).2
    rw [← hx2]
    exact hids.fresh i (by rw [← hlen]; exact List.mem_range.mp hi)
  · rw [Db.drawn_ids]
    refine List.Nodup.map_on ?_ List.nodup_range
    intro i hi j hj heq
    rw [hlen] at hi hj
    exact hids.inj i (List.mem_range.mp hi) j (List.mem_range.mp hj) heq

section Cases

variable (hargs : filter.argsOk = true)

include hargs

theorem Db.replayBatch_empty (hn : (db.matching filter).length = 0) :
    db.replayBatch now filter m filter.limit batchID auditID newID =
      .error (.notFound "replay selector matched no eligible events") := by
  have hlen := db.length_replaySources filter filter.limit
  have hnil : db.replaySources filter filter.limit = [] := List.eq_nil_of_length_eq_zero (by omega)
  unfold Db.replayBatch
  rw [if_neg (by simp [hargs])]
  exact if_pos hnil

theorem Db.replayBatch_exceeds (hlimit : 1 ≤ filter.limit) (hn : filter.limit < (db.matching filter).length) :
    db.replayBatch now filter m filter.limit batchID auditID newID =
      .error (.conflict s!"replay selector exceeds {filter.limit} events") := by
  have hlen := db.length_replaySources filter filter.limit
  have hne : db.replaySources filter filter.limit ≠ [] := List.ne_nil_of_length_pos (by omega)
  unfold Db.replayBatch
  rw [if_neg (by simp [hargs])]
  dsimp only
  rw [if_neg hne, if_pos (by omega)]

theorem Db.replayBatch_clones (hn : (db.matching filter).length ≠ 0)
    (hlimit : ((db.matching filter).length : Int) ≤ filter.limit) :
    db.replayBatch now filter m filter.limit batchID auditID newID =
      ((db.cloneAll now batchID m (db.drawn filter newID)).bind fun db' =>
        db'.insertAudit now auditID "replay.batch" m none (some batchID)).map fun db' =>
          (db', ⟨batchID, (db.matching filter).length, (db.drawn filter newID).map (·.2)⟩) := by
  have hlen := db.length_replaySources filter filter.limit
  have hcount : (db.replaySources filter filter.limit).length = (db.matching filter).length := by omega
  have hne : db.replaySources filter filter.limit ≠ [] := List.ne_nil_of_length_pos (by omega)
  unfold Db.replayBatch
  rw [if_neg (by simp [hargs])]
  dsimp only
  rw [if_neg hne, if_neg (by omega), Db.drawn_ids, ← hcount]
  rfl

end Cases

theorem Db.replayBatch_outcome (hargs : filter.argsOk = true) (hlimit : 1 ≤ filter.limit)
    (htrace : textOk m.traceparent = true ∧ textOk m.tracestate = true) (hactor : btrim m.actor ≠ "")
    (htexts : textOk m.actor = true ∧ textOk m.reason = true ∧ textOk m.requestID = true)
    (hids : NewIDs db newID auditID (db.matching filter).length) :
    BatchOutcome db filter m (db.matching filter).length batchID
      (db.replayBatch now filter m filter.limit batchID auditID newID) := by
  refine ⟨fun hn => ⟨_, Db.replayBatch_empty hargs hn, rfl⟩, fun hn hconflict => ?_, fun hn hle hmode => ?_⟩
  · by_cases hexceeds : filter.limit < (db.matching filter).length
    · exact ⟨_, Db.replayBatch_exceeds hargs hlimit hexceeds, rfl⟩
    · obtain ⟨⟨x, hx, hkey⟩, hmode⟩ := hconflict.resolve_left hexceeds
      have hle : ((db.matching filter).length : Int) ≤ filter.limit := by omega
      have hmem : x ∈ (db.drawn filter newID).map (·.1) := by
        rw [Db.drawn_sources]
        exact (Db.replaySources_perm hle).mem_iff.mpr hx
      obtain ⟨y, hy, rfl⟩ := List.mem_map.mp hmem
      obtain ⟨e, he, hclone⟩ := Db.cloneAll_conflict now batchID htrace hmode (Sources.drawn hids hle)
        ⟨y, hy, hkey⟩
      refine ⟨e, ?_, he⟩
      rw [Db.replayBatch_clones hargs hn hle]
      rw [hclone]
      rfl
  · have hsources := Sources.drawn hids hle
    have hperm := Db.replaySources_perm hle
    have hmode' : ∀ x ∈ db.drawn filter newID, x.1.orderingKey = none ∨ m.orderingMode = "unordered" := by
      intro x hx
      refine hmode.imp_left fun h => h x.1 (hperm.mem_iff.mp ?_)
      rw [← Db.drawn_sources db filter newID]
      exact List.mem_map_of_mem hx
    obtain ⟨t, ht, hclone⟩ := Db.cloneAll_eq now batchID htrace hsources hmode'
    obtain ⟨u, a, hu, haction, hbatch, haudit⟩ := Db.insertAudit_eq { db with events := t } now "replay.batch" none
      (some batchID) hids.audit hactor (by decide) htexts
    refine ⟨{ db with events := t, audit := u },
      ⟨batchID, (db.matching filter).length, (db.drawn filter newID).map (·.2)⟩,
      (db.drawn filter newID).map (·.1),
      (db.drawn filter newID).map (cloneOf now batchID m), a, ?_, ?_⟩
    · rw [Db.replayBatch_clones hargs hn hle, hclone]
      dsimp only [Except.bind]
      rw [haudit]
      rfl
    · have hids' : ((db.drawn filter newID).map (cloneOf now batchID m)).map (·.id) =
          (db.drawn filter newID).map (·.2) := by
        rw [List.map_map]
        rfl
      refine ⟨?_, ?_, ?_, ?_, ?_, ht, hu, ⟨haction, hbatch⟩, ⟨rfl, rfl, rfl, rfl⟩, ?_⟩
      · rw [Db.drawn_sources]
        exact hperm
      · rw [List.forall₂_map_left_iff, List.forall₂_map_right_iff, List.forall₂_same]
        exact fun x hx => isReplay_cloneOf (hsources.checked x hx)
      · rw [List.length_map, ← List.length_map (·.1), Db.drawn_sources, hperm.length_eq]
      · intro c hc
        obtain ⟨x, hx, rfl⟩ := List.mem_map.mp hc
        exact hsources.fresh x hx
      · rw [hids']
        exact hsources.nodup
      · rw [hids']

/-- The batch gets to insert a clone: the matching events are within the limit, and the first one may be cloned. -/
def Db.Inserts (db : Db) (filter : EventFilter) (m : Mutation) : Prop :=
  ((db.matching filter).length : Int) ≤ filter.limit ∧
    ∃ source ∈ (db.replaySources filter filter.limit).head?, source.orderingKey = none ∨
    m.orderingMode = "unordered"

variable (newID) in
/-- The first source of a batch that is within the limit. -/
theorem Db.drawn_eq_cons (hn : (db.matching filter).length ≠ 0)
    (hle : ((db.matching filter).length : Int) ≤ filter.limit) :
    ∃ x rest, db.drawn filter newID = x :: rest ∧ (db.replaySources filter filter.limit).head? = some x.1 ∧
      x.1 ∈ db.matching filter := by
  have hperm := Db.replaySources_perm hle
  have hsources := db.drawn_sources filter newID
  cases hdrawn : db.drawn filter newID with
  | nil =>
    rw [hdrawn, List.map_nil] at hsources
    rw [← hsources] at hperm
    exact absurd hperm.length_eq.symm hn
  | cons x rest =>
    rw [hdrawn, List.map_cons] at hsources
    refine ⟨x, rest, rfl, by rw [← hsources, List.head?_cons], hperm.mem_iff.mp ?_⟩
    rw [← hsources]
    exact List.mem_cons_self

/-- A batch that inserts nothing does what was announced, whatever the trace. -/
theorem Db.replayBatch_outcome_of_not_inserts (hargs : filter.argsOk = true) (hlimit : 1 ≤ filter.limit)
    (h : ¬db.Inserts filter m) :
    BatchOutcome db filter m (db.matching filter).length batchID
      (db.replayBatch now filter m filter.limit batchID auditID newID) := by
  refine ⟨fun hn => ⟨_, Db.replayBatch_empty hargs hn, rfl⟩, fun hn _ => ?_, fun hn hle hmode => ?_⟩
  · by_cases hexceeds : filter.limit < (db.matching filter).length
    · exact ⟨_, Db.replayBatch_exceeds hargs hlimit hexceeds, rfl⟩
    · rw [not_lt] at hexceeds
      obtain ⟨x, rest, hdrawn, hhead, -⟩ := Db.drawn_eq_cons newID hn hexceeds
      have hblocked : ¬(x.1.orderingKey = none ∨ m.orderingMode = "unordered") := fun hmode =>
        h ⟨hexceeds, x.1, hhead, hmode⟩
      rw [not_or] at hblocked
      obtain ⟨e, he, hclone⟩ := db.cloneAll_head_conflict now batchID hblocked.2 hblocked.1 rest
      refine ⟨e, ?_, he⟩
      rw [Db.replayBatch_clones hargs hn hexceeds, hdrawn, hclone]
      rfl
  · obtain ⟨x, -, -, hhead, hmem⟩ := Db.drawn_eq_cons newID hn hle
    exact absurd ⟨hle, x.1, hhead, hmode.imp_left fun hall => hall x.1 hmem⟩ h

variable (now batchID auditID newID) in
/-- With a NUL in the trace a batch that inserts fails with an error of the driver. -/
theorem Db.replayBatch_refused (hargs : filter.argsOk = true) (h : db.Inserts filter m)
    (htrace : ¬(textOk m.traceparent = true ∧ textOk m.tracestate = true)) :
    (db.matching filter).length ≠ 0 ∧ ∃ what,
      db.replayBatch now filter m filter.limit batchID auditID newID = .error (.sql what) := by
  obtain ⟨hle, source, hhead, hmode⟩ := h
  have hn : (db.matching filter).length ≠ 0 := by
    intro hzero
    have hlen := db.length_replaySources filter filter.limit
    rw [hzero, Nat.min_zero] at hlen
    rw [List.eq_nil_of_length_eq_zero hlen] at hhead
    cases hhead
  obtain ⟨x, rest, hdrawn, hfirst, hmem⟩ := Db.drawn_eq_cons newID hn hle
  obtain rfl : x.1 = source := Option.some.inj (hfirst.symm.trans hhead)
  refine ⟨hn, s!"clone replay event {x.1.id.text}", ?_⟩
  have hcheck : x.1.check = true := db.event_check (List.mem_filter.mp hmem).1
  rw [Db.replayBatch_clones hargs hn hle, hdrawn, Db.cloneAll_head_refused now batchID hcheck hmode htrace]
  rfl

end Outcome

/-! ## The service -/

theorem previewReplay_ok {db : Db} {filter f : EventFilter} {preview : ReplayPreview}
    (hf : Service.normalizeEventFilter filter true = .ok f)
    (h : Service.previewReplay db.previewReplay filter = .ok preview) :
    f.argsOk = true ∧ preview.count = (db.matching f).length := by
  unfold Service.previewReplay at h
  rw [hf] at h
  unfold Except.bind Db.previewReplay at h
  simp only at h
  split_ifs at h with hargs
  obtain rfl := Except.ok.inj h
  exact ⟨Bool.eq_true_of_not_eq_false hargs, rfl⟩

theorem previewReplay_eq {db : Db} {filter f : EventFilter} (hf : Service.normalizeEventFilter filter true = .ok f)
    (hargs : f.argsOk = true) :
    Service.previewReplay db.previewReplay filter =
      .ok ⟨(db.matching f).length, (((db.matching f).insertionSort EventRow.newerThan).take 10).map
        (scanAdminEvent · false), f.limit⟩ := by
  unfold Service.previewReplay
  rw [hf]
  exact if_neg (by simp [hargs])

theorem status_of_matching {db : Db} {filter f : EventFilter} (hf : Service.normalizeEventFilter filter true = .ok f)
    {r : EventRow} (hr : r ∈ db.matching f) : r.status = .delivered ∨ r.status = .dead := by
  obtain ⟨hne, hmem, -⟩ := Service.normalizeEventFilter_replay hf
  have hsel := (List.mem_filter.mp hr).2
  simp only [EventFilter.selects, Bool.and_eq_true, Bool.or_eq_true] at hsel
  have hstatus : f.statuses.contains r.status.text = true := by
    refine hsel.1.1.1.1.1.1.resolve_left fun hempty => hne (List.isEmpty_iff.mp hempty)
  have htext := hmem _ (List.contains_iff_mem.mp hstatus)
  cases hs : r.status with
  | delivered => exact .inl rfl
  | dead => exact .inr rfl
  | pending =>
    rw [hs] at htext
    exact absurd htext (by decide)
  | inflight =>
    rw [hs] at htext
    exact absurd htext (by decide)

/-- The preview of the accepted request succeeds, announces delivered and dead events only, and the batch does what it
announced. -/
def AsPreviewed (db : Db) (now : Int) (batchID auditID : Uuid) (newID : Nat → Uuid) (trace : String × String)
    (filter f : EventFilter) (mutation m : Mutation) : Prop :=
  ∃ preview, Service.previewReplay db.previewReplay filter = .ok preview ∧
    (∀ r ∈ db.matching f, r.status = .delivered ∨ r.status = .dead) ∧
    BatchOutcome db f m preview.count batchID
      (Service.replayBatch (fun f m limit => db.replayBatch now f m limit batchID auditID newID) trace filter mutation)

section Request

variable {db : Db} {now : Int} {batchID auditID : Uuid} {newID : Nat → Uuid} {trace : String × String}
  {filter f : EventFilter} {mutation m : Mutation}

theorem Service.replayBatch_eq (hf : Service.normalizeEventFilter filter true = .ok f)
    (hm : Service.normalizeMutation trace mutation true = .ok m) :
    Service.replayBatch (fun f m limit => db.replayBatch now f m limit batchID auditID newID) trace filter mutation =
      db.replayBatch now f m f.limit batchID auditID newID := by
  unfold Service.replayBatch
  rw [hf, hm]
  rfl

/-- The actor of an accepted mutation is not blank for the table either. -/
theorem actor_not_blank (hm : Service.normalizeMutation trace mutation true = .ok m) : btrim m.actor ≠ "" := by
  obtain ⟨hactor, hne, -⟩ := Service.normalizeMutation_ok hm
  rw [hactor] at hne ⊢
  exact btrim_ne_empty (trimBy_trimBy_ne_empty hne)

/-- **Replay does what its preview announced, if and only if** PostgreSQL takes the texts of the filter and, where the
batch gets to insert a clone, the trace of the mutation has no NUL. -/
theorem replay_as_previewed_iff (hf : Service.normalizeEventFilter filter true = .ok f)
    (hm : Service.normalizeMutation trace mutation true = .ok m)
    (hids : NewIDs db newID auditID (db.matching f).length) :
    AsPreviewed db now batchID auditID newID trace filter f mutation m ↔
      (argOk f.destination = true ∧ argOk f.eventType = true) ∧
        (db.Inserts f m → textOk m.traceparent = true ∧ textOk m.tracestate = true) := by
  rw [← Service.argsOk_normalized hf, AsPreviewed, Service.replayBatch_eq hf hm]
  constructor
  · rintro ⟨preview, hpreview, -, houtcome⟩
    obtain ⟨hargs, hcount⟩ := previewReplay_ok hf hpreview
    refine ⟨hargs, fun hinserts => ?_⟩
    by_contra htrace
    rw [hcount] at houtcome
    obtain ⟨hn, what, hrefused⟩ := Db.replayBatch_refused now batchID auditID newID hargs hinserts htrace
    rw [hrefused] at houtcome
    by_cases hconflict : (∃ x ∈ db.matching f, x.orderingKey ≠ none) ∧ m.orderingMode ≠ "unordered"
    · obtain ⟨e, herror, hsentinel⟩ := houtcome.conflict hn (.inr hconflict)
      rw [← Except.error.inj herror] at hsentinel
      cases hsentinel
    · have hmode : (∀ x ∈ db.matching f, x.orderingKey = none) ∨ m.orderingMode = "unordered" := by
        by_contra hno
        push Not at hno
        exact hconflict hno
      obtain ⟨_, _, _, _, _, hok, -⟩ := houtcome.created hn hinserts.1 hmode
      cases hok
  · rintro ⟨hargs, htrace⟩
    refine ⟨⟨_, _, _⟩, previewReplay_eq hf hargs, fun r hr => status_of_matching hf hr, ?_⟩
    have hlimit := (Service.normalizeEventFilter_replay hf).2.2.1
    by_cases hinserts : db.Inserts f m
    · exact Db.replayBatch_outcome hargs hlimit (htrace hinserts) (actor_not_blank hm)
        (Service.normalizeMutation_ok hm).2.2 hids
    · exact Db.replayBatch_outcome_of_not_inserts hargs hlimit hinserts

end Request

/-- A delivered event. -/
def exampleReplayRow : EventRow :=
  { exampleEventRow 1 with status := .delivered, attempts := 1, deliveredAt := some 0 }

theorem exampleReplayRow_ok : eventsSchema.Ok [exampleReplayRow] := by decide +kernel

def exampleReplayDb : Db := { Db.empty with events := ⟨[exampleReplayRow], exampleReplayRow_ok⟩ }

/-- All delivered events of a destination. -/
def exampleReplayFilter (destination : Bytes) : EventFilter where
  statuses := []
  destination := destination
  eventType := []
  createdFrom := none
  createdTo := none
  replayBatchID := none
  cursor := none
  limit := 0

/-- The filter after its normalization. -/
def exampleReplayFilter' (destination : Bytes) : EventFilter :=
  { exampleReplayFilter destination with statuses := ["delivered"], limit := Service.maxReplayBatch }

theorem exampleReplayFilter_ok {destination : Bytes} (h : trimSpaceBytes destination = destination)
    (hne : destination ≠ []) :
    Service.normalizeEventFilter (exampleReplayFilter destination) true = .ok (exampleReplayFilter' destination) := by
  have hselector : (exampleReplayFilter destination).hasSelector = true := by
    simp [EventFilter.hasSelector, exampleReplayFilter, h, hne]
  have hnil : trimSpaceBytes [] = [] := rfl
  unfold Service.normalizeEventFilter
  simp only [exampleReplayFilter, h, hnil] at hselector ⊢
  simp [Service.normalizeStatuses, hselector, exampleReplayFilter', exampleReplayFilter, Service.maxReplayBatch]

def exampleNewID (i : Nat) : Uuid := Fin.ofNat _ (i + 2)

theorem exampleNewIDs {n : Nat} (hn : n ≤ 1) : NewIDs exampleReplayDb exampleNewID 1 n where
  fresh := by
    have hfirst : exampleReplayDb.row (exampleNewID 0) = none := by decide +kernel
    intro i hi
    obtain rfl : i = 0 := by omega
    exact hfirst
  inj i hi j hj _ := by omega
  audit := by decide

/-- A mutation without a trace of its own. -/
def exampleReplayMutation : Mutation where
  actor := "operator"
  reason := "recovery"
  requestID := ""
  traceparent := ""
  tracestate := ""
  orderingMode := ""

theorem exampleReplayMutation_ok (traceparent : String) :
    Service.normalizeMutation (traceparent, "") exampleReplayMutation true =
      .ok { exampleReplayMutation with traceparent := traceparent } := by
  have hlower : toLower "" = "" := by
    rw [toLower_eq]
    decide
  have htrim : trimSpace "operator" = "operator" ∧ trimSpace "recovery" = "recovery" ∧ trimSpace "" = "" := by
    decide
  have hlen : (bytes "operator").length = 8 ∧ (bytes "recovery").length = 8 ∧ (bytes "").length = 0 := by decide
  have htext : textOk "operator" = true ∧ textOk "recovery" = true ∧ textOk "" = true := by decide
  unfold Service.normalizeMutation
  simp [exampleReplayMutation, hlower, htrim, hlen, Service.safeText, htext]

theorem replay_as_previewed_trace :
    AsPreviewed exampleReplayDb 0 1 1 exampleNewID ("t", "") (exampleReplayFilter (bytes "orders"))
      (exampleReplayFilter' (bytes "orders")) exampleReplayMutation
      { exampleReplayMutation with traceparent := "t" } := by
  have hargs : argOk (bytes "orders") = true ∧ argOk [] = true := by decide +kernel
  have htrim : trimSpaceBytes (bytes "orders") = bytes "orders" := by decide +kernel
  exact (replay_as_previewed_iff (exampleReplayFilter_ok htrim (by decide)) (exampleReplayMutation_ok "t")
    (exampleNewIDs (by decide +kernel))).mpr ⟨hargs, fun _ => ⟨by decide, by decide⟩⟩

/-- The service accepts a destination with a NUL; the preview and the batch both fail with an error of the driver. -/
theorem replay_fails_on_nul_destination :
    Service.normalizeEventFilter (exampleReplayFilter (bytes "a\x00")) true =
        .ok (exampleReplayFilter' (bytes "a\x00")) ∧
      Service.normalizeMutation ("t", "") exampleReplayMutation true =
        .ok { exampleReplayMutation with traceparent := "t" } ∧
      Service.previewReplay exampleReplayDb.previewReplay (exampleReplayFilter (bytes "a\x00")) =
        .error (.sql "preview replay count") ∧
      Service.replayBatch (fun f m limit => exampleReplayDb.replayBatch 0 f m limit 1 1 exampleNewID) ("t", "")
        (exampleReplayFilter (bytes "a\x00")) exampleReplayMutation = .error (.sql "") := by
  have htrim : trimSpaceBytes (bytes "a\x00") = bytes "a\x00" := by decide +kernel
  have hf := exampleReplayFilter_ok htrim (by decide)
  have hm := exampleReplayMutation_ok "t"
  have hargs : (exampleReplayFilter' (bytes "a\x00")).argsOk = false := by decide +kernel
  refine ⟨hf, hm, ?_, ?_⟩
  · rw [Service.previewReplay, hf]
    show Db.previewReplay _ _ _ _ = _
    rw [Db.previewReplay]
    exact if_pos hargs
  · rw [Service.replayBatch_eq hf hm, Db.replayBatch]
    exact if_pos hargs

end Emitlane
