import Emitlane.Lib.Listing
import Emitlane.Admin.Cursors

/-!
# Admin.Listings — the paged listings of events and audit records

Every listing asks for one row more than the page holds, cuts the page and returns the key of its last row as the
cursor of the next page, which begins behind it.  `followPages` is a client that passes every cursor back.

* `followPages_eq_iff`: the pages together are the whole listing, if and only if the cursor of the last row of every
  page but the last is read back.
* `decode_encodeCursor`: the cursors of events and audit records are.
-/

namespace Emitlane

open Listing

/-! ## A page -/

structure Page (α : Type) where
  items : List α
  nextCursor : Bytes

/-- The end of every listing: `items` are the rows the query returned, at most one more than the limit. -/
def cutPage {α : Type} (encode : α → Except StoreError Bytes) (items : List α) (limit : Int) :
    Except StoreError (Page α) :=
  if items.length ≤ limit then .ok ⟨items, []⟩
  else
    match items[(limit - 1).toNat]? with
    | none => .error ⟨none, "index out of range"⟩
    | some last => (encode last).map fun cursor => ⟨items.take limit.toNat, cursor⟩

/-- A client that follows the cursors.  Out of fuel is an error. -/
def followPages {α κ : Type} (list : Option κ → Except StoreError (Page α))
    (decode : Bytes → Except StoreError (Option κ)) (fuel : Nat) : Except StoreError (List α) :=
  follow (fun c => (list c).bind fun page => (decode page.nextCursor).map fun next => (page.items, next))
    ⟨none, "out of fuel"⟩ fuel none

section Pages

variable {α ρ κ : Type} {encode : α → Except StoreError Bytes} {decode : Bytes → Except StoreError (Option κ)}

theorem followPages_error {list : Option κ → Except StoreError (Page α)} {fuel : Nat} (hfuel : 0 < fuel)
    {err : StoreError} (h : list none = .error err) : followPages list decode fuel = .error err := by
  obtain ⟨fuel, rfl⟩ : ∃ n, fuel = n + 1 := ⟨fuel - 1, by omega⟩
  rw [followPages, follow, h]
  rfl

/-- The last page, cut from what is left of the listing. -/
theorem cutPage_last {limit : Nat} (hend : decode [] = .ok none) {rest : List α} (h : rest.length ≤ limit) :
    ((cutPage encode (rest.take (limit + 1)) limit).bind fun page =>
        (decode page.nextCursor).map fun next => (page.items, next)) = .ok (rest, none) := by
  rw [cutPage, List.take_of_length_le (by omega), if_pos (by exact_mod_cast h)]
  simp [Except.bind, Except.map, hend]

/-- A page that is not the last one. -/
theorem cutPage_more {limit : Nat} (hlimit : 0 < limit) {rest : List α} (h : limit < rest.length) :
    ((cutPage encode (rest.take (limit + 1)) limit).bind fun page =>
        (decode page.nextCursor).map fun next => (page.items, next)) =
      ((encode rest[limit - 1]).bind decode).map fun next => (rest.take limit, next) := by
  have hget : (rest.take (limit + 1))[((limit : Int) - 1).toNat]? = some rest[limit - 1] := by
    have hnat : ((limit : Int) - 1).toNat = limit - 1 := by omega
    rw [hnat, List.getElem?_take_of_lt (by omega), List.getElem?_eq_getElem]
  rw [cutPage, if_neg (by rw [List.length_take]; omega), hget]
  simp only [Int.toNat_natCast]
  rw [List.take_take, Nat.min_eq_left (by omega)]
  cases encode rest[limit - 1] with
  | error err => rfl
  | ok text => rfl

variable {r : ρ → ρ → Prop} [DecidableRel r] [Std.Total r] [IsTrans ρ r] {rows : List ρ} {scan : ρ → α}
  {list : Option κ → Except StoreError (Page α)}

/-- **The pages of a listing together are the listing, if and only if the cursor of every page end is read back.** -/
theorem followPages_eq_iff (encode : α → Except StoreError Bytes) (key : α → κ) (behind : κ → ρ → Bool)
    {limit : Nat} (hlimit : 0 < limit) (hend : decode [] = .ok none)
    (hlist : ∀ last : Option ρ, (∀ a ∈ last, a ∈ rows) → list (last.map (key ∘ scan)) =
      cutPage encode ((probe r behind limit rows (last.map (key ∘ scan))).map scan) limit)
    (htells : Tells r rows) (hnodup : rows.Nodup)
    (hbehind : ∀ a ∈ rows, ∀ b ∈ rows, behind (key (scan a)) b = true ↔ r a b ∧ a ≠ b)
    (hcursor : ∀ a ∈ rows, (encode (scan a)).bind decode = .ok (some (key (scan a))) ∨
      ∃ err, (encode (scan a)).bind decode = .error err)
    {fuel : Nat} (hfuel : rows.length < fuel) :
    followPages list decode fuel = .ok ((rows.insertionSort r).map scan) ↔
      ∀ a, PageEnd limit ((rows.insertionSort r).map scan) a → (encode a).bind decode = .ok (some (key a)) := by
  have hsort := List.perm_insertionSort r rows
  -- the query behind the last row read, in terms of the rows not read yet
  have hpage : ∀ done rest, (rows.insertionSort r).map scan = done ++ rest →
      list (done.getLast?.map key) = cutPage encode (rest.take (limit + 1)) limit := by
    intro done rest hsplit
    obtain ⟨D, R, hDR, rfl, rfl⟩ := List.map_eq_append_iff.mp hsplit
    have hmem : ∀ a ∈ D.getLast?, a ∈ rows := fun a ha =>
      hsort.mem_iff.mp (hDR ▸ List.mem_append_left R (List.mem_of_getLast? ha))
    rw [List.getLast?_map, Option.map_map, hlist _ hmem, probe_eq (key ∘ scan) limit htells hnodup hbehind hDR,
      List.map_take]
  refine follow_eq_iff key (fun a => (encode a).bind decode) _ hlimit (fun done rest hsplit hle => ?_)
    (fun done rest hsplit hlt => ?_) (fun a ha => ?_) (by simpa using hfuel)
  · rw [hpage done rest hsplit]
    exact cutPage_last hend hle
  · rw [hpage done rest hsplit]
    exact cutPage_more hlimit hlt
  · obtain ⟨x, hx, rfl⟩ := List.mem_map.mp ha
    exact hcursor x (hsort.mem_iff.mp hx)

end Pages

/-! ## Events -/

def normalizePageResult (json : CursorJson) (events : List AdminEvent) (limit : Int) :
    Except StoreError (Page AdminEvent) :=
  cutPage (fun e => encodeCursor json (e.createdAt, e.id)) events limit

def Db.listEvents (db : Db) (json : CursorJson) (filter : EventFilter) : Except StoreError (Page AdminEvent) :=
  if filter.argsOk = false then .error (.sql "list events rows") else
  normalizePageResult json
    ((((db.events.rows.filter filter.selects).insertionSort EventRow.newerThan).take (filter.limit + 1).toNat).map
      (scanAdminEvent · false)) filter.limit

/-! ## Audit records -/

/-- `adminapi.AuditFilter`. -/
structure AuditFilter where
  action : Bytes
  cursor : Option (Int × Uuid)
  limit : Int

/-- `adminapi.AuditRecord`, without the details. -/
structure AuditRecord where
  id : Uuid
  action : String
  actor : String
  reason : String
  requestID : String
  targetEventID : Option Uuid
  replayBatchID : Option Uuid
  createdAt : Int
  deriving DecidableEq

def scanAudit (r : AuditRow) : AuditRecord :=
  ⟨r.id, r.action, r.actor, deref r.reason, deref r.requestID, r.targetEventID, r.replayBatchID, r.createdAt⟩

def AuditFilter.selects (f : AuditFilter) (r : AuditRow) : Bool :=
  (f.action = [] || bytes r.action = f.action) &&
    f.cursor.all (fun c => r.createdAt < c.1 || (r.createdAt = c.1 && r.id < c.2))

/-- `ORDER BY created_at DESC, id DESC`. -/
def AuditRow.newerThan (a b : AuditRow) : Prop :=
  b.createdAt < a.createdAt ∨ (a.createdAt = b.createdAt ∧ b.id ≤ a.id)

instance AuditRow.decidableNewerThan : DecidableRel AuditRow.newerThan := fun _ _ =>
  inferInstanceAs (Decidable (_ ∨ (_ ∧ _)))

def Db.listAudit (db : Db) (json : CursorJson) (filter : AuditFilter) : Except StoreError (Page AuditRecord) :=
  if argOk filter.action = false then .error (.sql "") else
  cutPage (fun e => encodeCursor json (e.createdAt, e.id))
    ((((db.audit.rows.filter filter.selects).insertionSort AuditRow.newerThan).take (filter.limit + 1).toNat).map
      scanAudit) filter.limit

namespace Service

def listEvents (store : EventFilter → Except StoreError (Page AdminEvent)) (f : EventFilter) :
    Except StoreError (Page AdminEvent) := (normalizeEventFilter f false).bind store

def normalizeAuditFilter (f : AuditFilter) : Except StoreError AuditFilter :=
  let f := { f with action := trimSpaceBytes f.action }
  let f := if f.limit = 0 then { f with limit := defaultPageSize } else f
  if f.limit < 1 ∨ maxPageSize < f.limit then .error (.invalid s!"limit must be between 1 and {maxPageSize}")
  else .ok f

def listAudit (store : AuditFilter → Except StoreError (Page AuditRecord)) (f : AuditFilter) :
    Except StoreError (Page AuditRecord) := (normalizeAuditFilter f).bind store

/-- Normalization does not look at the cursor. -/
theorem normalizeEventFilter_cursor {f g : EventFilter} (h : normalizeEventFilter f false = .ok g)
    (c : Option (Int × Uuid)) :
    normalizeEventFilter { f with cursor := c } false = .ok { g with cursor := c } ∧ g.cursor = f.cursor ∧
      1 ≤ g.limit := by
  unfold normalizeEventFilter at h ⊢
  have hrange : ¬f.createdFrom.any (fun a => f.createdTo.any (· < a)) = true := fun hc => by
    simp only [hc, reduceIte] at h
    cases h
  cases hs : normalizeStatuses false [] f.statuses with
  | error err =>
    simp only [hrange, hs, Bool.false_eq_true, reduceIte] at h
    cases h
  | ok statuses =>
    simp only [hrange, hs, Bool.false_eq_true, reduceIte] at h ⊢
    by_cases hzero : f.limit = 0
    · simp only [hzero, reduceIte] at h ⊢
      rw [if_neg (by decide)] at h ⊢
      obtain rfl := Except.ok.inj h
      exact ⟨rfl, rfl, show 1 ≤ defaultPageSize by decide⟩
    · simp only [hzero, if_false] at h ⊢
      split_ifs at h ⊢ with hlimit
      obtain rfl := Except.ok.inj h
      exact ⟨rfl, rfl, show 1 ≤ f.limit by omega⟩

theorem normalizeAuditFilter_cursor {f g : AuditFilter} (h : normalizeAuditFilter f = .ok g)
    (c : Option (Int × Uuid)) : normalizeAuditFilter { f with cursor := c } = .ok { g with cursor := c } ∧
      g.cursor = f.cursor ∧ 1 ≤ g.limit := by
  unfold normalizeAuditFilter at h ⊢
  dsimp only at h ⊢
  by_cases hzero : f.limit = 0
  · simp only [hzero, if_true] at h ⊢
    rw [if_neg (by decide)] at h ⊢
    obtain rfl := Except.ok.inj h
    exact ⟨rfl, rfl, show 1 ≤ defaultPageSize by decide⟩
  · simp only [hzero, if_false] at h ⊢
    split_ifs at h ⊢ with hlimit
    obtain rfl := Except.ok.inj h
    exact ⟨rfl, rfl, show 1 ≤ f.limit by omega⟩

end Service

/-! ## Listings by creation -/

section Stamped

variable {α ρ : Type} {json : CursorJson} {time : ρ → Int} {id : ρ → Uuid} {scan : ρ → α}
  {r : ρ → ρ → Prop} {rows : List ρ} {list : Option (Int × Uuid) → Except StoreError (Page α)}

/-- `(created_at, id) < ($1, $2)`. -/
def behindStamp (c : Int × Uuid) (createdAt : Int) (id : Uuid) : Bool :=
  createdAt < c.1 || (createdAt = c.1 && id < c.2)

theorem behindStamp_iff (a b : Int × Uuid) :
    behindStamp a b.1 b.2 = true ↔ (b.1 < a.1 ∨ (a.1 = b.1 ∧ b.2 ≤ a.2)) ∧ a ≠ b := by
  unfold behindStamp
  rw [Bool.or_eq_true, Bool.and_eq_true, decide_eq_true_eq, decide_eq_true_eq, decide_eq_true_eq]
  constructor
  · rintro (hlt | ⟨heq, hlt⟩)
    · exact ⟨.inl hlt, fun h => absurd hlt (by rw [h]; exact lt_irrefl _)⟩
    · exact ⟨.inr ⟨heq.symm, hlt.le⟩, fun h => absurd hlt (by rw [h]; exact lt_irrefl _)⟩
  · rintro ⟨hlt | ⟨heq, hle⟩, hne⟩
    · exact .inl hlt
    · exact .inr ⟨heq.symm, lt_of_le_of_ne hle fun hid => hne (Prod.ext heq hid.symm)⟩

/-- `r` is `ORDER BY created_at DESC, id DESC`. -/
def NewestFirst (r : ρ → ρ → Prop) (time : ρ → Int) (id : ρ → Uuid) : Prop :=
  ∀ a b, r a b ↔ time b < time a ∨ (time a = time b ∧ id b ≤ id a)

theorem NewestFirst.byKey (h : NewestFirst r time id) :
    ByKey r fun a => OrderDual.toDual (toLex (time a, id a)) := by
  intro a b
  rw [h a b, OrderDual.toDual_le_toDual, Prod.Lex.toLex_le_toLex]
  simp only [eq_comm]

/-- The pages of a log: the query selects rows by a filter and, if there is a cursor, only those behind it. -/
theorem followPages_newestFirst [DecidableRel r] (stamp : α → Int × Uuid)
    {selects : Option (Int × Uuid) → ρ → Bool}
    {limit : Int} (hlimit : 1 ≤ limit) (hr : NewestFirst r time id) (hjson : json.Faithful)
    (hids : (rows.map id).Nodup) (hrows : ∀ a ∈ rows, id a ≠ 0 ∧ Shown (time a))
    (hselects : ∀ c a, selects c a = (c.all (fun c => behindStamp c (time a) (id a)) && selects none a))
    (hscan : ∀ a, stamp (scan a) = (time a, id a))
    (hlist : ∀ c, list c = cutPage (fun x => encodeCursor json (stamp x))
      ((((rows.filter (selects c)).insertionSort r).take (limit + 1).toNat).map scan) limit)
    {fuel : Nat} (hfuel : (rows.filter (selects none)).length < fuel) :
    followPages list (decodeCursor json) fuel = .ok (((rows.filter (selects none)).insertionSort r).map scan) := by
  have := hr.byKey.total
  have := hr.byKey.trans
  have hsub : (rows.filter (selects none)).Sublist rows := List.filter_sublist
  have hids : ((rows.filter (selects none)).map id).Nodup := hids.sublist (hsub.map id)
  have hinj := List.inj_on_of_nodup_map hids
  have hpos : 0 < limit.toNat := by omega
  have hread : ∀ a ∈ rows.filter (selects none),
      (encodeCursor json (stamp (scan a))).bind (decodeCursor json) = .ok (some (stamp (scan a))) := by
    intro a ha
    obtain ⟨hid, hshown⟩ := hrows a (hsub.subset ha)
    have hread : ∃ text, encodeCursor json (time a, id a) = .ok text ∧
        decodeCursor json text = .ok (some (time a, id a)) := decode_encodeCursor hjson hshown hid
    obtain ⟨text, hencode, hdecode⟩ := hread
    rw [hscan, hencode]
    exact hdecode
  refine (followPages_eq_iff (fun x => encodeCursor json (stamp x)) stamp
    (fun c a => behindStamp c (time a) (id a)) hpos
    rfl (fun last _ => ?_) (hr.byKey.tells fun a ha b hb hkey => ?_) hids.of_map (fun a ha b hb => ?_)
    (fun a ha => .inl (hread a ha)) hfuel).mpr fun x hx => ?_
  · have hbehind : ∀ c, rows.filter (selects c) =
        (rows.filter (selects none)).filter fun a => c.all fun c => behindStamp c (time a) (id a) := by
      intro c
      rw [List.filter_filter]
      exact List.filter_congr fun a _ => hselects c a
    have hprobe : (limit + 1).toNat = limit.toNat + 1 := by omega
    have hnat : (limit.toNat : Int) = limit := by omega
    rw [hlist, hbehind, hprobe, hnat]
    rfl
  · exact hinj ha hb (congrArg (fun k => (ofLex (OrderDual.ofDual k)).2) hkey)
  · rw [hscan, behindStamp_iff (time a, id a) (time b, id b), hr a b]
    refine and_congr_right fun _ => not_congr ⟨fun h => hinj ha hb (Prod.mk.inj h).2, ?_⟩
    rintro rfl
    rfl
  · obtain ⟨a, ha, rfl⟩ := List.mem_map.mp hx.mem
    exact hread a ((List.perm_insertionSort r _).mem_iff.mp ha)

end Stamped

theorem EventRow.newestFirst : NewestFirst EventRow.newerThan (·.createdAt) (·.id) := fun _ _ => Iff.rfl

theorem AuditRow.newestFirst : NewestFirst AuditRow.newerThan (·.createdAt) (·.id) := fun _ _ => Iff.rfl

/-- The service accepts the filter, as `g`, for a first page. -/
structure EventFilter.Accepted (f g : EventFilter) : Prop where
  first : f.cursor = none
  normalized : Service.normalizeEventFilter f false = .ok g

structure AuditFilter.Accepted (f g : AuditFilter) : Prop where
  first : f.cursor = none
  normalized : Service.normalizeAuditFilter f = .ok g

/-- The rows of a log that the admin API can page through. -/
def Dated {ρ : Type} (rows : List ρ) (time : ρ → Int) (id : ρ → Uuid) : Prop :=
  ∀ r ∈ rows, id r ≠ 0 ∧ Shown (time r)

theorem EventFilter.selects_cursor (g : EventFilter) (c : Option (Int × Uuid)) (r : EventRow) :
    ({ g with cursor := c } : EventFilter).selects r =
      (c.all (fun c => behindStamp c r.createdAt r.id) && ({ g with cursor := none } : EventFilter).selects r) := by
  unfold EventFilter.selects behindStamp
  rw [Option.all_none, Bool.and_true, Bool.and_comm]

theorem AuditFilter.selects_cursor (g : AuditFilter) (c : Option (Int × Uuid)) (r : AuditRow) :
    ({ g with cursor := c } : AuditFilter).selects r =
      (c.all (fun c => behindStamp c r.createdAt r.id) && ({ g with cursor := none } : AuditFilter).selects r) := by
  unfold AuditFilter.selects behindStamp
  rw [Option.all_none, Bool.and_true, Bool.and_comm]

variable {json : CursorJson} {db : Db}

theorem followEvents_eq (hjson : json.Faithful) (hrows : Dated db.events.rows (·.createdAt) (·.id))
    {f g : EventFilter}
    (h : f.Accepted g) (hg : g.argsOk = true) {fuel : Nat} (hfuel : (db.events.rows.filter g.selects).length < fuel) :
    followPages (fun c => Service.listEvents (db.listEvents json) { f with cursor := c }) (decodeCursor json) fuel =
      .ok (((db.events.rows.filter g.selects).insertionSort EventRow.newerThan).map (scanAdminEvent · false)) := by
  obtain ⟨-, hcursor, hlimit⟩ := Service.normalizeEventFilter_cursor h.normalized none
  have hfirst : ({ g with cursor := none } : EventFilter).selects = g.selects := by rw [← hcursor.trans h.first]
  rw [← hfirst] at hfuel ⊢
  refine followPages_newestFirst (fun e : AdminEvent => (e.createdAt, e.id)) hlimit EventRow.newestFirst hjson
    db.events.ok.1 hrows g.selects_cursor (fun _ => rfl) (fun c => ?_) hfuel
  have hargs : ¬({ g with cursor := c } : EventFilter).argsOk = false := by
    show ¬g.argsOk = false
    simp [hg]
  unfold Service.listEvents
  rw [(Service.normalizeEventFilter_cursor h.normalized c).1]
  exact if_neg hargs

/-- A request with a text that PostgreSQL refuses fails on its first page. -/
theorem followEvents_refused {f g : EventFilter} (h : f.Accepted g) (hg : g.argsOk = false) {fuel : Nat}
    (hfuel : 0 < fuel) :
    followPages (fun c => Service.listEvents (db.listEvents json) { f with cursor := c }) (decodeCursor json) fuel =
      .error (.sql "list events rows") := by
  refine followPages_error hfuel ?_
  have hfirst : { f with cursor := none } = f := by rw [← h.first]
  rw [hfirst, Service.listEvents, h.normalized]
  exact if_pos hg

theorem followAudit_eq (hjson : json.Faithful) (hrows : Dated db.audit.rows (·.createdAt) (·.id)) {f g : AuditFilter}
    (h : f.Accepted g) (hg : argOk g.action = true) {fuel : Nat}
    (hfuel : (db.audit.rows.filter g.selects).length < fuel) :
    followPages (fun c => Service.listAudit (db.listAudit json) { f with cursor := c }) (decodeCursor json) fuel =
      .ok (((db.audit.rows.filter g.selects).insertionSort AuditRow.newerThan).map scanAudit) := by
  obtain ⟨-, hcursor, hlimit⟩ := Service.normalizeAuditFilter_cursor h.normalized none
  have hfirst : ({ g with cursor := none } : AuditFilter).selects = g.selects := by rw [← hcursor.trans h.first]
  rw [← hfirst] at hfuel ⊢
  refine followPages_newestFirst (fun e : AuditRecord => (e.createdAt, e.id)) hlimit AuditRow.newestFirst hjson
    db.audit.ok.1 hrows g.selects_cursor (fun _ => rfl) (fun c => ?_) hfuel
  have hargs : ¬argOk ({ g with cursor := c } : AuditFilter).action = false := by
    show ¬argOk g.action = false
    simp [hg]
  unfold Service.listAudit
  rw [(Service.normalizeAuditFilter_cursor h.normalized c).1]
  exact if_neg hargs

theorem followAudit_refused {f g : AuditFilter} (h : f.Accepted g) (hg : argOk g.action = false) {fuel : Nat}
    (hfuel : 0 < fuel) :
    followPages (fun c => Service.listAudit (db.listAudit json) { f with cursor := c }) (decodeCursor json) fuel =
      .error (.sql "") := by
  refine followPages_error hfuel ?_
  have hfirst : { f with cursor := none } = f := by rw [← h.first]
  rw [hfirst, Service.listAudit, h.normalized]
  exact if_pos hg

/-- **The pages of events, and of audit records, together are the matching rows, newest first, if and only if the texts
of the filter are ones PostgreSQL takes.** -/
theorem listings_complete (json : CursorJson) (hjson : json.Faithful) (db : Db)
    (hevents : Dated db.events.rows (·.createdAt) (·.id)) (haudit : Dated db.audit.rows (·.createdAt) (·.id)) :
    (∀ f g : EventFilter, f.Accepted g → ∀ fuel, (db.events.rows.filter g.selects).length < fuel →
      (followPages (fun c => Service.listEvents (db.listEvents json) { f with cursor := c }) (decodeCursor json) fuel =
        .ok (((db.events.rows.filter g.selects).insertionSort EventRow.newerThan).map (scanAdminEvent · false)) ↔
          argOk g.destination = true ∧ argOk g.eventType = true)) ∧
    ∀ f g : AuditFilter, f.Accepted g → ∀ fuel, (db.audit.rows.filter g.selects).length < fuel →
      (followPages (fun c => Service.listAudit (db.listAudit json) { f with cursor := c }) (decodeCursor json) fuel =
        .ok (((db.audit.rows.filter g.selects).insertionSort AuditRow.newerThan).map scanAudit) ↔
          argOk g.action = true) := by
  refine ⟨fun f g h fuel hfuel => ?_, fun f g h fuel hfuel => ?_⟩
  · rw [← Service.argsOk_normalized h.normalized]
    refine ⟨fun hok => ?_, fun hg => followEvents_eq hjson hevents h hg hfuel⟩
    by_contra hg
    rw [followEvents_refused h (Bool.eq_false_iff.mpr hg) (by omega)] at hok
    cases hok
  · refine ⟨fun hok => ?_, fun hg => followAudit_eq hjson haudit h hg hfuel⟩
    by_contra hg
    rw [followAudit_refused h (Bool.eq_false_iff.mpr hg) (by omega)] at hok
    cases hok

theorem examplePaged_ok : eventsSchema.Ok [exampleEventRow 1, exampleEventRow 3, exampleEventRow 2] := by decide +kernel

def examplePagedDb : Db :=
  { Db.empty with events := ⟨[exampleEventRow 1, exampleEventRow 3, exampleEventRow 2], examplePaged_ok⟩ }

/-- The events of a destination, one on a page. -/
def exampleFilter (destination : Bytes) : EventFilter where
  statuses := []
  destination := destination
  eventType := []
  createdFrom := none
  createdTo := none
  replayBatchID := none
  cursor := none
  limit := 1

theorem exampleFilter_accepted {destination : Bytes} (h : trimSpaceBytes destination = destination) :
    (exampleFilter destination).Accepted (exampleFilter destination) := by
  refine ⟨rfl, ?_⟩
  unfold Service.normalizeEventFilter exampleFilter
  simp only [h]
  rfl

theorem listings_complete_three :
    followPages (fun c => Service.listEvents (examplePagedDb.listEvents hexCursorJson)
        { exampleFilter (bytes "orders") with cursor := c }) (decodeCursor hexCursorJson) 4 =
      .ok ([exampleEventRow 3, exampleEventRow 2, exampleEventRow 1].map (scanAdminEvent · false)) := by
  have hargs : argOk (bytes "orders") = true ∧ argOk [] = true := by decide +kernel
  exact ((listings_complete hexCursorJson hexCursorJson_faithful examplePagedDb (by unfold Dated; decide +kernel)
    (by unfold Dated; decide +kernel)).1 _ _ (exampleFilter_accepted (by decide +kernel)) 4
      (by decide +kernel)).mpr hargs

/-- The service accepts a destination with a NUL, and its first page fails. -/
theorem nul_destination_refused :
    (exampleFilter (bytes "a\x00")).Accepted (exampleFilter (bytes "a\x00")) ∧ ∀ fuel rows,
      followPages (fun c => Service.listEvents (examplePagedDb.listEvents hexCursorJson)
        { exampleFilter (bytes "a\x00") with cursor := c }) (decodeCursor hexCursorJson) fuel ≠ .ok rows := by
  have htrim : trimSpaceBytes (bytes "a\x00") = bytes "a\x00" := by decide +kernel
  have haccepted := exampleFilter_accepted htrim
  refine ⟨haccepted, fun fuel rows h => ?_⟩
  cases fuel with
  | zero => cases h
  | succ fuel =>
    rw [followEvents_refused haccepted (by decide +kernel) (by omega)] at h
    cases h

end Emitlane
