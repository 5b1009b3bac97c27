import Emitlane.Admin.Listings
import Emitlane.Outbox.Writer
import Emitlane.Store.OrderingAdmin

/-!
# Admin.StreamListing — the paged listing of ordered streams

The listing is by destination and ordering key.  The writer bounds the length of a destination but not of a key, the
encoder bounds nothing, and the decoder refuses a cursor of more than 4096 bytes: the pages are complete if the cursor
of every page end is short (`OrderingStreamCursor.Short`), and stop at one that is not.  A Go string that is not UTF-8
comes back changed.
-/

namespace Emitlane

open Listing

/-! ## The listing -/

/-- `adminapi.OrderingStreamFilter`. -/
structure OrderingStreamFilter where
  state : String
  destination : Bytes
  partition : Option Int
  blockedOnly : Bool
  limit : Int
  cursor : Option OrderingStreamCursor

def OrderingStream.cursor (s : OrderingStream) : OrderingStreamCursor := ⟨bytes s.destination, bytes s.orderingKey⟩

def StreamRow.cursor (st : StreamRow) : OrderingStreamCursor := ⟨bytes st.destination, bytes st.orderingKey⟩

section Streams

-- PostgreSQL compares texts by their sort keys in the collation of the database.
variable {κ : Type} [LinearOrder κ] (collate : Bytes → κ)

def OrderingStreamCursor.sortKey (c : OrderingStreamCursor) :
    κ ×ₗ κ := toLex (collate c.destination, collate c.orderingKey)

/-- `(destination, ordering_key) > ($1, $2)`. -/
def OrderingStreamCursor.before (c : OrderingStreamCursor) (s : OrderingStream) : Bool :=
  c.sortKey collate < s.cursor.sortKey collate

/-- `ORDER BY destination, ordering_key`. -/
def OrderingStream.upTo (a b : OrderingStream) : Prop := a.cursor.sortKey collate ≤ b.cursor.sortKey collate

instance OrderingStream.decidableUpTo : DecidableRel (OrderingStream.upTo collate) := fun a b =>
  inferInstanceAs (Decidable (a.cursor.sortKey collate ≤ b.cursor.sortKey collate))

/-- The text arguments of the query. -/
def OrderingStreamFilter.argsOk (f : OrderingStreamFilter) : Bool :=
  textOk f.state && argOk f.destination && f.cursor.all fun c => argOk c.destination && argOk c.orderingKey

/-- The WHERE clause, but for the cursor. -/
def OrderingStreamFilter.matches (f : OrderingStreamFilter) (s : OrderingStream) : Bool :=
  (f.state = "" || s.state.text = f.state) && (f.destination = [] || bytes s.destination = f.destination) &&
    f.partition.all (s.partition = ·) &&
    (!f.blockedOnly || s.state = .retryWait || s.state = .gap || s.state = .deadBlocked)

def Db.listOrderingStreams (db : Db) (now : Int) (filter : OrderingStreamFilter) :
    Except StoreError (Page OrderingStream) :=
  if filter.argsOk = false then .error (.sql "") else
  cutPage (fun s => encodeOrderingStreamCursor s.cursor)
    ((((db.streams.rows.map (db.orderingStream now)).filter fun s =>
      filter.matches s && filter.cursor.all (·.before collate s)).insertionSort (OrderingStream.upTo collate)).take
        (filter.limit + 1).toNat) filter.limit

end Streams

def Service.normalizeOrderingStreamFilter (f : OrderingStreamFilter) : Except StoreError OrderingStreamFilter :=
  let f := { f with state := toLower (trimSpace f.state), destination := trimSpaceBytes f.destination }
  if f.state ≠ "" ∧ f.state ∉ ["ready", "inflight", "retry_wait", "gap", "dead_blocked"] then
    .error (.invalid s!"unsupported ordering state {quote (bytes f.state)}")
  else if f.partition.any (fun p => p < 0 ∨ 64 ≤ p) then .error (.invalid "partition must be between 0 and 63")
  else
    let f := if f.limit = 0 then { f with limit := Service.defaultPageSize } else f
    if f.limit < 1 ∨ Service.maxPageSize < f.limit then
      .error (.invalid s!"limit must be between 1 and {Service.maxPageSize}")
    else .ok f

def Service.listOrderingStreams (store : OrderingStreamFilter → Except StoreError (Page OrderingStream))
    (f : OrderingStreamFilter) : Except StoreError (Page OrderingStream) :=
  (Service.normalizeOrderingStreamFilter f).bind store

/-- Normalization does not look at the cursor. -/
theorem Service.normalizeOrderingStreamFilter_cursor {f g : OrderingStreamFilter}
    (h : Service.normalizeOrderingStreamFilter f = .ok g) (c : Option OrderingStreamCursor) :
    Service.normalizeOrderingStreamFilter { f with cursor := c } = .ok { g with cursor := c } ∧ 1 ≤ g.limit := by
  unfold Service.normalizeOrderingStreamFilter at h ⊢
  dsimp only at h ⊢
  split_ifs at h ⊢ with hstate hpartition hzero hlimit hlimit
  · obtain rfl := Except.ok.inj h
    exact ⟨rfl, show 1 ≤ Service.defaultPageSize by decide⟩
  · obtain rfl := Except.ok.inj h
    exact ⟨rfl, not_lt.mp (not_or.mp hlimit).1⟩

/-- The service accepts the filter, as `g`, for a first page. -/
structure OrderingStreamFilter.Accepted (f g : OrderingStreamFilter) : Prop where
  first : f.cursor = none
  normalized : Service.normalizeOrderingStreamFilter f = .ok g

theorem Service.normalizeOrderingStreamFilter_state {f g : OrderingStreamFilter}
    (h : Service.normalizeOrderingStreamFilter f = .ok g) : textOk g.state = true := by
  have hknown : ∀ s ∈ ["", "ready", "inflight", "retry_wait", "gap", "dead_blocked"], textOk s = true := by decide
  unfold Service.normalizeOrderingStreamFilter at h
  dsimp only at h
  split_ifs at h with hstate hpartition hzero hlimit hlimit
  all_goals
    obtain rfl := Except.ok.inj h
    refine hknown _ (List.mem_cons.mpr ?_)
    push Not at hstate
    exact or_iff_not_imp_left.mpr hstate

/-! ## The pairs a writer may use -/

/-- What `Event.validate` asks of the destination and the ordering key of an ordered event, as Go strings. -/
structure OrderingStreamCursor.Writable (c : OrderingStreamCursor) : Prop where
  destination : trimSpaceBytes c.destination ≠ [] ∧ trimSpaceBytes c.destination = c.destination
  length : c.destination.length ≤ Outbox.kafkaTopicMaxLen
  orderingKey : trimSpaceBytes c.orderingKey ≠ [] ∧ trimSpaceBytes c.orderingKey = c.orderingKey

/-- An ordered event of the stream. -/
def eventOf (destination orderingKey : String) : Outbox.Event where
  id := ""
  destination := destination
  type := "created"
  key := none
  payload := []
  contentType := ""
  headers := []
  schemaVersion := 0
  correlationID := ""
  causationID := ""
  availableAt := none
  orderingKey := orderingKey
  sequence := 1
  orderingStartSequence := 0

theorem trimSpaceBytes_bytes_iff (s : String) :
    trimSpaceBytes (bytes s) ≠ [] ∧ trimSpaceBytes (bytes s) = bytes s ↔
    trimSpace s ≠ "" ∧ trimSpace s = s := by
  have hempty : bytes "" = [] := rfl
  rw [trimSpaceBytes_bytes, ← hempty]
  exact and_congr (not_congr ⟨bytes_injective, congrArg bytes⟩) ⟨bytes_injective, congrArg bytes⟩

/-- What an accepted event has passed. -/
theorem names_of_validate {e : Outbox.Event} (h : e.validate = .ok ()) (hkey : e.orderingKey ≠ "") :
    (trimSpace e.destination ≠ "" ∧ trimSpace e.destination = e.destination) ∧
      (bytes e.destination).length ≤ Outbox.kafkaTopicMaxLen ∧
      trimSpace e.orderingKey ≠ "" ∧ trimSpace e.orderingKey = e.orderingKey := by
  have hblank := Outbox.orderingKey_of_validate h hkey
  have hdest : trimSpace e.destination ≠ "" := fun hd => by
    rw [Outbox.Event.validate, if_pos hd] at h
    cases h
  have hdest' : e.destination = trimSpace e.destination := not_not.mp fun hd => by
    rw [Outbox.Event.validate, if_neg hdest, if_pos hd] at h
    cases h
  have hlen : ¬Outbox.kafkaTopicMaxLen < (bytes e.destination).length := fun hl => by
    rw [Outbox.Event.validate, if_neg hdest, if_neg (not_not.mpr hdest'), if_pos hl] at h
    cases h
  have hkey' : e.orderingKey = trimSpace e.orderingKey := not_not.mp fun hk => by
    unfold Outbox.Event.validate Outbox.invalid at h
    rw [if_neg hkey, if_neg hblank, if_pos hk] at h
    split_ifs at h
    all_goals split at h <;> cases h
  exact ⟨⟨hdest, hdest'.symm⟩, not_lt.mp hlen, hblank, hkey'.symm⟩

/-- For valid texts these are the pairs of the events that `Event.validate` accepts. -/
theorem writable_iff_validate {destination orderingKey : String} :
    (⟨bytes destination, bytes orderingKey⟩ : OrderingStreamCursor).Writable ↔
      ∃ e : Outbox.Event, e.validate = .ok () ∧ e.orderingKey ≠ "" ∧ e.destination = destination ∧
        e.orderingKey = orderingKey := by
  constructor
  · rintro ⟨hdest, hlen, hkey⟩
    obtain ⟨hdest, hdest'⟩ := (trimSpaceBytes_bytes_iff _).mp hdest
    obtain ⟨hkey, hkey'⟩ := (trimSpaceBytes_bytes_iff _).mp hkey
    have htype : trimSpace "created" = "created" := by decide
    have hne : orderingKey ≠ "" := by
      rw [← hkey']
      exact hkey
    refine ⟨eventOf destination orderingKey, ?_, hne, rfl, rfl⟩
    simp only at hlen
    simp [Outbox.Event.validate, eventOf, htype, hdest', hkey', hne, hdest' ▸ hdest, hlen]
  · rintro ⟨e, hvalid, hkey, rfl, rfl⟩
    obtain ⟨hdest, hlen, hord⟩ := names_of_validate hvalid hkey
    exact ⟨(trimSpaceBytes_bytes_iff _).mpr hdest, hlen, (trimSpaceBytes_bytes_iff _).mpr hord⟩

/-- A pair a writer may use is encoded, and it is read back if and only if it is UTF-8 and short. -/
theorem OrderingStreamCursor.Writable.decode_iff {unmarshal : Bytes → Option OrderingStreamCursor}
    (hjson : StreamCursorJson unmarshal) {c : OrderingStreamCursor} (h : c.Writable) :
    ∃ text, encodeOrderingStreamCursor c = .ok text ∧
      (decodeOrderingStreamCursor unmarshal text = .ok (some c) ↔ c.Valid ∧ c.Short) :=
  ⟨_, encodeOrderingStreamCursor_eq h.destination.1 h.orderingKey.1,
    decode_encodeOrderingStreamCursor_iff h.destination.1 h.orderingKey.1 hjson⟩

/-- A valid pair is read back if it is short, and refused otherwise. -/
theorem OrderingStreamCursor.Writable.read {unmarshal : Bytes → Option OrderingStreamCursor}
    (hjson : StreamCursorJson unmarshal) {c : OrderingStreamCursor} (h : c.Writable) (hvalid : c.Valid) :
    ((encodeOrderingStreamCursor c).bind (decodeOrderingStreamCursor unmarshal) = .ok (some c) ↔ c.Short) ∧
      (¬c.Short → ∃ err, (encodeOrderingStreamCursor c).bind (decodeOrderingStreamCursor unmarshal) =
        .error err) := by
  have hbind : (encodeOrderingStreamCursor c).bind (decodeOrderingStreamCursor unmarshal) =
      decodeOrderingStreamCursor unmarshal (Base64.encode (streamCursorText c)) := by
    simp only [encodeOrderingStreamCursor_eq h.destination.1 h.orderingKey.1, Except.bind]
  rw [hbind, decode_encodeOrderingStreamCursor_iff h.destination.1 h.orderingKey.1 hjson]
  obtain ⟨-, hrefused, -⟩ := decode_encodeOrderingStreamCursor h.destination.1 h.orderingKey.1 hjson
  exact ⟨⟨And.right, fun hshort => ⟨hvalid, hshort⟩⟩, fun hlong => ⟨_, hrefused hlong⟩⟩

/-! ## The pages of a listing -/

section Streams

variable {κ : Type} [LinearOrder κ] {collate : Bytes → κ} {db : Db} {now : Int}

omit [LinearOrder κ] in
theorem sortKey_injective (h : Function.Injective collate) {c c' : OrderingStreamCursor}
    (heq : c.sortKey collate = c'.sortKey collate) : c = c' := by
  have hpair := Prod.mk.inj (congrArg ofLex heq)
  cases c
  cases c'
  simp only [OrderingStreamCursor.mk.injEq]
  exact ⟨h hpair.1, h hpair.2⟩

/-- The matching streams. -/
def Db.matchingStreams (db : Db) (now : Int) (g : OrderingStreamFilter) : List OrderingStream :=
  (db.streams.rows.map (db.orderingStream now)).filter g.matches

theorem Db.matchingStreams_cursors (db : Db) (now : Int) (g : OrderingStreamFilter) :
    ((db.matchingStreams now g).map (·.cursor)).Nodup := by
  have hkeys : (db.streams.rows.map StreamRow.cursor).Nodup := by
    have hpairs : (db.streams.rows.map fun st => (st.destination, st.orderingKey)).Nodup := db.streams.ok.1
    refine List.Nodup.map_on (fun a ha b hb heq => List.inj_on_of_nodup_map hpairs ha hb ?_) hpairs.of_map
    obtain ⟨hdest, hkey⟩ := OrderingStreamCursor.mk.inj heq
    exact Prod.ext (bytes_injective hdest) (bytes_injective hkey)
  refine List.Nodup.sublist (List.filter_sublist.map _) ?_
  rw [List.map_map]
  exact hkeys

theorem Db.matchingStreams_source {g : OrderingStreamFilter} {s : OrderingStream} (h : s ∈ db.matchingStreams now g) :
    ∃ st ∈ db.streams.rows, s.cursor = st.cursor := by
  obtain ⟨st, hst, rfl⟩ := List.mem_map.mp (List.mem_of_mem_filter h)
  exact ⟨st, hst, rfl⟩

/-- A request that begins behind a stream of the listing. -/
theorem Db.listOrderingStreams_eq {f g : OrderingStreamFilter} (h : f.Accepted g) (hg : argOk g.destination = true)
    {last : Option OrderingStream} (hlast : ∀ s ∈ last, s ∈ db.matchingStreams now g) :
    Service.listOrderingStreams (db.listOrderingStreams collate now) { f with cursor := last.map (·.cursor) } =
      cutPage (fun s => encodeOrderingStreamCursor s.cursor)
        (probe (OrderingStream.upTo collate) (OrderingStreamCursor.before collate) g.limit.toNat
          (db.matchingStreams now g) (last.map (·.cursor))) g.limit.toNat := by
  obtain ⟨hnormal, hlimit⟩ := Service.normalizeOrderingStreamFilter_cursor h.normalized (last.map (·.cursor))
  have hstate := Service.normalizeOrderingStreamFilter_state h.normalized
  have hnat : (g.limit.toNat : Int) = g.limit := by omega
  have hprobe : (g.limit + 1).toNat = g.limit.toNat + 1 := by omega
  have hargs : ¬({ g with cursor := last.map (·.cursor) } : OrderingStreamFilter).argsOk = false := by
    unfold OrderingStreamFilter.argsOk
    cases last with
    | none => simp [hstate, hg]
    | some s =>
      obtain ⟨st, hst, heq⟩ := Db.matchingStreams_source (hlast s rfl)
      have hcheck := db.streams.ok.2 st hst
      unfold StreamRow.check at hcheck
      simp only [Bool.and_eq_true] at hcheck
      simp [hstate, hg, heq, StreamRow.cursor, argOk_bytes, hcheck]
  unfold Service.listOrderingStreams
  rw [hnormal]
  show db.listOrderingStreams collate now { g with cursor := last.map (·.cursor) } = _
  rw [Db.listOrderingStreams, if_neg hargs, hnat]
  dsimp only
  rw [hprobe, probe, top, Db.matchingStreams, List.filter_filter]
  simp only [Bool.and_comm]
  rfl

/-- The texts of the table are UTF-8. -/
theorem StreamRow.cursor_valid (st : StreamRow) : st.cursor.Valid := ⟨Utf8.valid_encode _, Utf8.valid_encode _⟩

theorem followStreams_eq_iff {unmarshal : Bytes → Option OrderingStreamCursor} (hjson : StreamCursorJson unmarshal)
    (hcollate : Function.Injective collate) (hstreams : ∀ st ∈ db.streams.rows, st.cursor.Writable)
    {f g : OrderingStreamFilter} (h : f.Accepted g) (hg : argOk g.destination = true) {fuel : Nat}
    (hfuel : (db.matchingStreams now g).length < fuel) :
    followPages (fun c => Service.listOrderingStreams (db.listOrderingStreams collate now) { f with cursor := c })
        (decodeOrderingStreamCursor unmarshal) fuel =
      .ok ((db.matchingStreams now g).insertionSort (OrderingStream.upTo collate)) ↔
    ∀ s, PageEnd g.limit.toNat ((db.matchingStreams now g).insertionSort (OrderingStream.upTo collate)) s →
      s.cursor.Short := by
  have hkey : ByKey (OrderingStream.upTo collate) fun s => s.cursor.sortKey collate := fun _ _ => Iff.rfl
  have := hkey.total
  have := hkey.trans
  have hnodup := db.matchingStreams_cursors now g
  have hinj := List.inj_on_of_nodup_map hnodup
  obtain ⟨-, hlimit⟩ := Service.normalizeOrderingStreamFilter_cursor h.normalized none
  have hpos : 0 < g.limit.toNat := by omega
  have hread : ∀ s ∈ db.matchingStreams now g,
      ((encodeOrderingStreamCursor s.cursor).bind (decodeOrderingStreamCursor unmarshal) = .ok (some s.cursor) ↔
        s.cursor.Short) ∧
      (¬s.cursor.Short → ∃ err,
        (encodeOrderingStreamCursor s.cursor).bind (decodeOrderingStreamCursor unmarshal) = .error err) := by
    intro s hs
    obtain ⟨st, hst, heq⟩ := Db.matchingStreams_source hs
    rw [heq]
    exact (hstreams st hst).read hjson st.cursor_valid
  rw [← List.map_id ((db.matchingStreams now g).insertionSort _)]
  refine (followPages_eq_iff (fun s => encodeOrderingStreamCursor s.cursor) OrderingStream.cursor
    (OrderingStreamCursor.before collate) hpos rfl (fun last hlast => ?_)
    (hkey.tells fun a ha b hb heq => hinj ha hb (sortKey_injective hcollate heq)) hnodup.of_map (fun a ha b hb => ?_)
    (fun a ha => ?_) hfuel).trans ?_
  · rw [List.map_id]
    exact Db.listOrderingStreams_eq h hg hlast
  · show decide (a.cursor.sortKey collate < b.cursor.sortKey collate) = true ↔
      a.cursor.sortKey collate ≤ b.cursor.sortKey collate ∧ a ≠ b
    rw [decide_eq_true_eq, lt_iff_le_and_ne]
    refine and_congr_right fun _ => not_congr ⟨fun heq => hinj ha hb (sortKey_injective hcollate heq), ?_⟩
    rintro rfl
    rfl
  · by_cases hshort : a.cursor.Short
    · exact .inl ((hread a ha).1.mpr hshort)
    · exact .inr ((hread a ha).2 hshort)
  · refine forall_congr' fun s => imp_congr_right fun hs => (hread s ?_).1
    have hmem := hs.mem
    rw [List.map_id] at hmem
    exact (List.perm_insertionSort _ _).mem_iff.mp hmem

/-- A request with a destination that PostgreSQL refuses fails on its first page. -/
theorem followStreams_refused {unmarshal : Bytes → Option OrderingStreamCursor} {f g : OrderingStreamFilter}
    (h : f.Accepted g) (hg : argOk g.destination = false) {fuel : Nat} (hfuel : 0 < fuel) :
    followPages (fun c => Service.listOrderingStreams (db.listOrderingStreams collate now) { f with cursor := c })
        (decodeOrderingStreamCursor unmarshal) fuel = .error (.sql "") := by
  refine followPages_error hfuel ?_
  have hfirst : { f with cursor := none } = f := by rw [← h.first]
  have hargs : g.argsOk = false := by simp [OrderingStreamFilter.argsOk, hg]
  rw [hfirst, Service.listOrderingStreams, h.normalized]
  exact if_pos hargs

end Streams

/-- **A stream cursor is read back if and only if it is UTF-8 and short; and the pages of a listing together are the
matching streams if and only if PostgreSQL takes the destination of the filter and the cursor of every page end is
short.** -/
theorem stream_listing_iff_short (unmarshal : Bytes → Option OrderingStreamCursor)
    (hjson : StreamCursorJson unmarshal)
    {κ : Type} [LinearOrder κ] (collate : Bytes → κ) (hcollate : Function.Injective collate) :
    (∀ c : OrderingStreamCursor, c.Writable → ∃ text, encodeOrderingStreamCursor c = .ok text ∧
      (decodeOrderingStreamCursor unmarshal text = .ok (some c) ↔ c.Valid ∧ c.Short)) ∧
    ∀ (db : Db) (now : Int) (f g : OrderingStreamFilter), f.Accepted g →
      (∀ st ∈ db.streams.rows, st.cursor.Writable) → ∀ fuel, (db.matchingStreams now g).length < fuel →
        (followPages (fun c => Service.listOrderingStreams (db.listOrderingStreams collate now) { f with cursor := c })
            (decodeOrderingStreamCursor unmarshal) fuel =
          .ok ((db.matchingStreams now g).insertionSort (OrderingStream.upTo collate)) ↔
        argOk g.destination = true ∧
          ∀ s, PageEnd g.limit.toNat ((db.matchingStreams now g).insertionSort (OrderingStream.upTo collate)) s →
            s.cursor.Short) := by
  refine ⟨fun c h => h.decode_iff hjson, fun db now f g h hstreams fuel hfuel => ?_⟩
  by_cases hg : argOk g.destination = true
  · rw [followStreams_eq_iff hjson hcollate hstreams h hg hfuel]
    exact ⟨fun hshort => ⟨hg, hshort⟩, And.right⟩
  · refine ⟨fun hok => ?_, fun hargs => absurd hargs.1 hg⟩
    rw [followStreams_refused h (Bool.eq_false_iff.mpr hg) (by omega)] at hok
    cases hok

def exampleCursor (key : String) : OrderingStreamCursor := ⟨bytes "orders", bytes key⟩

def exampleStream (key : String) : StreamRow where
  destination := "orders"
  orderingKey := key
  partitionID := 0
  startSequence := 1
  nextSequence := 1
  createdAt := 0
  updatedAt := 0

theorem exampleStreams_ok : streamsSchema.Ok [exampleStream "order:2", exampleStream "order:1"] := by decide +kernel

def exampleStreamsDb : Db :=
  { Db.empty with streams := ⟨[exampleStream "order:2", exampleStream "order:1"], exampleStreams_ok⟩ }

/-- All streams, one on a page. -/
def exampleStreamFilter : OrderingStreamFilter where
  state := ""
  destination := []
  partition := none
  blockedOnly := false
  limit := 1
  cursor := none

theorem exampleStreamFilter_accepted : exampleStreamFilter.Accepted exampleStreamFilter := by
  have hlower : toLower (trimSpace "") = "" := by
    rw [toLower_eq]
    decide
  refine ⟨rfl, ?_⟩
  unfold Service.normalizeOrderingStreamFilter
  simp only [exampleStreamFilter, hlower]
  rfl

theorem stream_listing_iff_short_order :
    (∃ text, encodeOrderingStreamCursor (exampleCursor "order:1") = .ok text ∧
      decodeOrderingStreamCursor unmarshalStreamCursor text = .ok (some (exampleCursor "order:1"))) ∧
    followPages (fun c => Service.listOrderingStreams (exampleStreamsDb.listOrderingStreams (·.map UInt8.toNat) 0)
        { exampleStreamFilter with cursor := c }) (decodeOrderingStreamCursor unmarshalStreamCursor) 3 =
      .ok ((exampleStreamsDb.matchingStreams 0 exampleStreamFilter).insertionSort
        (OrderingStream.upTo (·.map UInt8.toNat))) := by
  have hnames : ∀ key ∈ ["order:2", "order:1"], (exampleCursor key).Writable ∧ (exampleCursor key).Short := by
    intro key hkey
    unfold OrderingStreamCursor.Short
    simp only [List.mem_cons, List.not_mem_nil, or_false] at hkey
    rcases hkey with rfl | rfl
    · exact ⟨⟨by decide +kernel, by decide +kernel, by decide +kernel⟩, by decide +kernel⟩
    · exact ⟨⟨by decide +kernel, by decide +kernel, by decide +kernel⟩, by decide +kernel⟩
  have hrows : ∀ st ∈ exampleStreamsDb.streams.rows, st.cursor.Writable ∧ st.cursor.Short := by
    intro st hst
    rcases List.mem_cons.mp hst with rfl | hst
    · exact hnames "order:2" (by simp)
    · obtain rfl := List.mem_singleton.mp hst
      exact hnames "order:1" (by simp)
  obtain ⟨hcursor, hlisting⟩ := stream_listing_iff_short unmarshalStreamCursor unmarshalStreamCursor_reads
    (·.map UInt8.toNat) (List.map_injective_iff.mpr fun _ _ => UInt8.toNat_inj.mp)
  constructor
  · obtain ⟨hwritable, hshort⟩ := hnames "order:1" (by simp)
    obtain ⟨text, hencode, hdecode⟩ := hcursor _ hwritable
    exact ⟨text, hencode, hdecode.mpr ⟨⟨Utf8.valid_encode _, Utf8.valid_encode _⟩, hshort⟩⟩
  · refine (hlisting exampleStreamsDb 0 _ _ exampleStreamFilter_accepted (fun st hst => (hrows st hst).1) 3
      (lt_of_le_of_lt (List.length_filter_le _ _) (by decide))).mpr ⟨rfl, fun s hs => ?_⟩
    obtain ⟨st, hst, heq⟩ := Db.matchingStreams_source ((List.perm_insertionSort _ _).mem_iff.mp hs.mem)
    rw [heq]
    exact (hrows st hst).2

theorem trimBy_eq_self {p : Char → Bool} {s : String} (h : ∀ c ∈ s.toList, p c = false) : trimBy p s = s := by
  have hdrop : ∀ l : List Char, (∀ c ∈ l, p c = false) → l.dropWhile p = l := by
    intro l hl
    cases l with
    | nil => rfl
    | cons c l => rw [List.dropWhile_cons_of_neg (by simp [hl c])]
  unfold trimBy
  rw [hdrop _ h, hdrop _ fun c hc => h c (List.mem_reverse.mp hc), List.reverse_reverse, String.ofList_toList]

/-- A key of `n` bytes, each of which JSON writes with six. -/
def angleKey (n : Nat) : String := String.ofList (List.replicate n '<')

theorem angleKey_writable {n : Nat} (hn : 0 < n) : (exampleCursor (angleKey n)).Writable := by
  have htrim : trimSpace (angleKey n) = angleKey n := by
    refine trimBy_eq_self fun c hc => ?_
    rw [angleKey, String.toList_ofList] at hc
    rw [List.eq_of_mem_replicate hc]
    decide
  have hkey : angleKey n ≠ "" := fun h => by
    have hlen := congrArg (fun s => s.toList.length) h
    simp only [angleKey, String.toList_ofList, List.length_replicate] at hlen
    exact absurd hlen hn.ne'
  have hdest : trimSpace "orders" ≠ "" ∧ trimSpace "orders" = "orders" ∧ (bytes "orders").length ≤ 249 := by
    decide
  exact ⟨(trimSpaceBytes_bytes_iff _).mpr ⟨hdest.1, hdest.2.1⟩, hdest.2.2,
    (trimSpaceBytes_bytes_iff _).mpr ⟨by rwa [htrim], htrim⟩⟩

theorem length_angleKey (n : Nat) : 6 * n ≤ (streamCursorText (exampleCursor (angleKey n))).length := by
  have hescape : ((Utf8.runes (bytes (angleKey n))).flatMap jsonRune).length = n * 6 := by
    have hsix : (jsonRune (some '<')).length = 6 := by decide
    have hrunes : Utf8.runes (bytes (angleKey n)) = (angleKey n).toList.map some := Utf8.runes_encode _
    rw [hrunes, angleKey, String.toList_ofList, List.map_replicate, List.length_flatMap, List.map_replicate,
      List.sum_replicate_nat, hsix]
  refine le_trans ?_ (Utf8.length_le_length_encode _)
  rw [String.toList_ofList]
  simp only [List.length_append, jsonString, List.length_cons, exampleCursor, hescape]
  omega

/-- The writer accepts a key of 600 bytes, the encoder writes its cursor, and the decoder refuses it. -/
theorem long_key_cursor_refused :
    (∃ e : Outbox.Event, e.validate = .ok () ∧ e.orderingKey ≠ "" ∧ e.destination = "orders" ∧
      e.orderingKey = angleKey 600) ∧
    ∃ text, encodeOrderingStreamCursor (exampleCursor (angleKey 600)) = .ok text ∧
      decodeOrderingStreamCursor unmarshalStreamCursor text =
        .error (.invalid "ordering stream cursor is too long") := by
  have hwritable : (exampleCursor (angleKey 600)).Writable := angleKey_writable (by omega)
  have hlong : ¬(exampleCursor (angleKey 600)).Short := by
    have := length_angleKey 600
    unfold OrderingStreamCursor.Short
    omega
  obtain ⟨-, hrefused, -⟩ := decode_encodeOrderingStreamCursor hwritable.destination.1 hwritable.orderingKey.1
    unmarshalStreamCursor_reads
  exact ⟨writable_iff_validate.mp hwritable, _,
    encodeOrderingStreamCursor_eq hwritable.destination.1 hwritable.orderingKey.1, hrefused hlong⟩

end Emitlane
