import Emitlane.Inbox.Store
import Emitlane.Lib.Txn

/-!
# Inbox.Process — transactions, and `process` of `inbox/processor.go`

A transaction keeps its writes of `inbox_events` to itself until it commits.  It is the transaction of a managed
handler, which carries the effects of its (consumer, event_id) from the start, or one of a caller of Process and
ProcessStrict, which takes up the effects of a pair when it inserts the marker row and runs the callback.

Each running call of `process` has a savepoint, and a callback may call `process` again on the nested transaction.
-/

namespace Emitlane.Inbox

/-- What a rollback to a savepoint undoes: the rows written, and the pairs whose callback has run. -/
structure Work where
  writes : List (Txn.Write Row)
  carries : List Key

/-- A running call of `process`. -/
structure Call where
  key : Key
  strictDuplicate : Bool
  /-- The INSERT affected no row, so the marker is inspected and no callback runs. -/
  duplicate : Bool
  savepoint : Work

structure Tx where
  /-- `NOW()` of all its statements. -/
  startedAt : Int
  /-- The pair and the lease token of a managed handler. -/
  managed : Option (Key × Uuid)
  /-- MarkProcessed has succeeded in it. -/
  marked : Bool
  work : Work
  /-- The innermost call first. -/
  calls : List Call

def Tx.begin (now : Int) (managed : Option (Key × Uuid)) : Tx :=
  { startedAt := now, managed := managed, marked := false, work := ⟨[], []⟩, calls := [] }

/-- The pairs whose business effects the transaction commits. -/
def Tx.effects (tx : Tx) : List Key := (tx.managed.map (·.1)).toList ++ tx.work.carries

/-- The row a statement of the transaction sees. -/
def Tx.view (tx : Tx) (db : Db) (k : Key) : Option Row := Txn.install (·.key) db.row tx.work.writes k

/-- MarkProcessed in the handler's transaction has written `r`. -/
def Tx.mark (tx : Tx) (db : Db) (r : Row) : Tx :=
  { tx with marked := true, work := { tx.work with writes := ⟨db.row r.key, r⟩ :: tx.work.writes } }

/-! ## process -/

/-- The pair a call names. -/
def processKey (consumer eventID : String) : Except Error Key :=
  if trimSpace consumer = "" then .error (.wrap .errInvalidRequest "consumer is required") else
  match uuidParse (trimSpace eventID) with
  | .error e => .error (.wrap .errInvalidRequest s!"event id must be a UUID: {e}")
  | .ok id => .ok (trimSpace consumer, id)

/-- The row of `insertSQL`: every other column has its default. -/
def markerRow (now : Int) (k : Key) : Row where
  consumer := k.1
  eventID := k.2
  firstSeenAt := now
  sourceTopic := none
  sourcePartition := none
  sourceOffset := none
  sourceTimestamp := none
  status := .processed
  attempts := 0
  availableAt := now
  leaseOwner := none
  leaseToken := none
  leaseUntil := none
  lastError := none
  updatedAt := now
  processedAt := some now

/-- The trigger function `guard_inbox_legacy_insert` on the row it finds; `true` is RAISE EXCEPTION. -/
def guardInboxLegacyInsert (new : Row) (existing : Option Row) : Bool :=
  new.status = .processed && existing.any fun r => r.status ≠ .processed

/-- The marker is inserted and the callback begins. -/
def Tx.insertMarker (tx : Tx) (db : Db) (c : Call) : Tx :=
  { tx with
    work := ⟨⟨db.row c.key, markerRow tx.startedAt c.key⟩ :: tx.work.writes, c.key :: tx.work.carries⟩
    calls := c :: tx.calls }

/-- The savepoint and the INSERT.  `busy` says that another transaction has written the row: the INSERT waits.
`stale` says that the trigger looked before the row appeared. -/
def Tx.process (tx : Tx) (db : Db) (busy : Key → Bool) (consumer eventID : String) (strictDuplicate stale : Bool) :
    Option (Except Error Tx) :=
  match processKey consumer eventID with
  | .error e => some (.error e)
  | .ok k =>
  let marker := markerRow tx.startedAt k
  let existing := tx.view db k
  if guardInboxLegacyInsert marker existing && !stale then
    some (.error (.wrap .errLifecycleConflict s!"managed event {k.1}/{k.2.text} is not processed"))
  else if marker.check = false then some (.error (.sql "inbox: insert marker"))
  else if existing.isSome then
    some (.ok { tx with calls := ⟨k, strictDuplicate, true, tx.work⟩ :: tx.calls })
  else if busy k then none
  else some (.ok (tx.insertMarker db ⟨k, strictDuplicate, false, tx.work⟩))

/-- The branch `tag.RowsAffected() == 0`; the flag is `already`. -/
def inspectDuplicate (strictDuplicate : Bool) (k : Key) (row : Option Row) : Except Error Bool :=
  match row with
  | none => .error (.sql "inbox: inspect duplicate marker")
  | some r =>
    if r.status ≠ .processed then
      .error (.wrap .errLifecycleConflict s!"managed event {k.1}/{k.2.text} has status {r.status.text}")
    else if strictDuplicate then .error (.of .errAlreadyProcessed)
    else .ok true

/-- The result of a call: the duplicate is inspected, or the callback has returned nil (`ok`) or an error. -/
def Call.result (c : Call) (row : Option Row) (ok : Bool) : Except Error Bool :=
  if c.duplicate then inspectDuplicate c.strictDuplicate c.key row
  else if ok then .ok false
  else .error (.sql "inbox: callback")

/-- The variable `finished` of `process`: every error but ErrAlreadyProcessed goes back to the savepoint. -/
def finished : Except Error Bool → Bool
  | .ok _ => true
  | .error e => e.sentinel = some .errAlreadyProcessed

/-- The innermost call returns. -/
def Tx.return (tx : Tx) (db : Db) (ok : Bool) : Option (Tx × Except Error Bool) :=
  match tx.calls with
  | [] => none
  | c :: calls =>
    let result := c.result (tx.view db c.key) ok
    some ({ tx with work := if finished result then tx.work else c.savepoint, calls := calls }, result)

/-! ## What a transaction may have written -/

/-- A write is a marker in a free place, or marks the row of the handler's pair while it holds the token. -/
def Allowed (managed : Option (Key × Uuid)) (w : Txn.Write Row) : Prop :=
  (∃ now k, w = ⟨none, markerRow now k⟩) ∨
    ∃ now k token r, managed = some (k, token) ∧ r.key = k ∧ r.holds token = true ∧
    w = ⟨some r, r.processed now⟩

theorem Allowed.status {managed : Option (Key × Uuid)} {w : Txn.Write Row} (h : Allowed managed w) :
    w.new.status = .processed ∧ ∀ r, w.old = some r → r.status ≠ .processed := by
  rcases h with ⟨now, k, rfl⟩ | ⟨now, k, token, r, -, -, hholds, rfl⟩
  · exact ⟨rfl, fun r hr => nomatch hr⟩
  · refine ⟨rfl, fun x hx => ?_⟩
    obtain rfl : r = x := Option.some.inj hx
    rw [(Row.holds_iff.mp hholds).1]
    decide

theorem Allowed.token {managed : Option (Key × Uuid)} {w : Txn.Write Row} (h : Allowed managed w) :
    w.new.leaseToken = none := by
  rcases h with ⟨now, k, rfl⟩ | ⟨now, k, token, r, -, -, -, rfl⟩ <;> rfl

/-- The writes are allowed, the pairs that are carried are written, and a marked transaction has the mark. -/
structure Work.Ok (managed : Option (Key × Uuid)) (marked : Bool) (w : Work) : Prop where
  allowed : ∀ x ∈ w.writes, Allowed managed x
  carries : ∀ k ∈ w.carries, Txn.Writes (·.key) w.writes k
  mark : marked = true → ∃ k token r now, managed = some (k, token) ∧ r.key = k ∧ r.holds token = true ∧
    ⟨some r, r.processed now⟩ ∈ w.writes

/-- The work is in order, also after a rollback to any of the savepoints, which undo more the further out they are. -/
structure Tx.Ok (tx : Tx) : Prop where
  ok : ∀ w ∈ tx.work :: tx.calls.map (·.savepoint), w.Ok tx.managed tx.marked
  nested : (tx.work :: tx.calls.map (·.savepoint)).Pairwise fun a b => b.writes ⊆ a.writes

namespace Tx

variable {tx tx' : Tx} {db : Db}

theorem begin_ok (now : Int) (managed : Option (Key × Uuid)) : (Tx.begin now managed).Ok where
  ok w hw := by
    simp only [Tx.begin, List.map_nil, List.mem_singleton] at hw
    subst hw
    exact { allowed := List.forall_mem_nil _, carries := List.forall_mem_nil _, mark := fun h => nomatch h }
  nested := List.pairwise_singleton _ _

theorem Ok.work_ok (h : tx.Ok) : tx.work.Ok tx.managed tx.marked := h.ok _ List.mem_cons_self

/-- A handler's transaction that is marked outside of any call. -/
theorem Ok.mark (h : tx.Ok) (hcalls : tx.calls = []) {k : Key} {token : Uuid} {r : Row}
    (hmanaged : tx.managed = some (k, token)) (hrow : db.row k = some r) (hkey : r.key = k)
    (hholds : r.holds token = true) : (tx.mark db (r.processed tx.startedAt)).Ok := by
  have hwrite : (⟨db.row r.key, r.processed tx.startedAt⟩ : Txn.Write Row) =
    ⟨some r, r.processed tx.startedAt⟩ := by
    rw [hkey, hrow]
  constructor
  · intro w hw
    simp only [Tx.mark, hcalls, List.map_nil, List.mem_singleton] at hw
    obtain rfl := hw
    refine ⟨?_, ?_, fun _ => ⟨k, token, r, tx.startedAt, hmanaged, hkey, hholds, ?_⟩⟩
    · intro x hx
      rcases List.mem_cons.mp hx with rfl | hx
      · exact .inr ⟨tx.startedAt, k, token, r, hmanaged, hkey, hholds, hwrite⟩
      · exact h.work_ok.allowed x hx
    · intro k' hk'
      obtain ⟨x, hx, hxk⟩ := h.work_ok.carries k' hk'
      exact ⟨x, List.mem_cons_of_mem _ hx, hxk⟩
    · rw [← hwrite]
      exact List.mem_cons_self
  · simp only [Tx.mark, hcalls, List.map_nil]
    exact List.pairwise_singleton _ _

/-- What the first part of `process` does when it does not fail. -/
theorem process_ok {busy : Key → Bool} {consumer eventID : String} {strictDuplicate stale : Bool}
    (h : tx.process db busy consumer eventID strictDuplicate stale = some (.ok tx')) :
    ∃ c : Call, c.savepoint = tx.work ∧
      (tx' = { tx with calls := c :: tx.calls } ∨
        (tx.view db c.key = none ∧ busy c.key = false ∧ tx' = tx.insertMarker db c)) := by
  unfold Tx.process at h
  split at h
  · cases h
  rename_i k hk
  dsimp only at h
  split_ifs at h with hguard hcheck hexists hbusy
  · cases h
  · cases h
  · cases h
    exact ⟨_, rfl, .inl rfl⟩
  · cases h
    refine ⟨⟨k, strictDuplicate, false, tx.work⟩, rfl, .inr ⟨?_, by simpa using hbusy, rfl⟩⟩
    simpa using hexists

/-- A row the transaction does not see is not there. -/
theorem row_of_view_none {k : Key} (h : tx.view db k = none) : db.row k = none := by
  unfold Tx.view Txn.install at h
  exact (Option.or_eq_none_iff.mp h).2

theorem Ok.process {busy : Key → Bool} {consumer eventID : String} {strictDuplicate stale : Bool} (h : tx.Ok)
    (hp : tx.process db busy consumer eventID strictDuplicate stale = some (.ok tx')) : tx'.Ok := by
  obtain ⟨c, hsave, rfl | ⟨hnone, -, rfl⟩⟩ := process_ok hp
  · refine ⟨?_, ?_⟩
    · intro w hw
      simp only [List.map_cons, hsave, List.mem_cons, or_self_left] at hw
      exact h.ok w (List.mem_cons.mpr hw)
    · simp only [List.map_cons, hsave]
      exact List.pairwise_cons.mpr ⟨fun w hw => (List.mem_cons.mp hw).elim (fun e => e ▸ List.Subset.refl _)
        ((List.pairwise_cons.mp h.nested).1 w), h.nested⟩
  · have hrow := row_of_view_none hnone
    refine ⟨?_, ?_⟩
    · intro w hw
      simp only [Tx.insertMarker, List.map_cons, hsave, List.mem_cons] at hw
      rcases hw with rfl | hw
      · refine ⟨?_, ?_, fun hm => ?_⟩
        · intro x hx
          rcases List.mem_cons.mp hx with rfl | hx
          · exact .inl ⟨tx.startedAt, c.key, by rw [hrow]⟩
          · exact h.work_ok.allowed x hx
        · intro k' hk'
          rcases List.mem_cons.mp hk' with rfl | hk'
          · exact ⟨_, List.mem_cons_self, rfl⟩
          · obtain ⟨x, hx, hxk⟩ := h.work_ok.carries k' hk'
            exact ⟨x, List.mem_cons_of_mem _ hx, hxk⟩
        · obtain ⟨k, token, r, now, hmanaged, hkey, hholds, hmem⟩ := h.work_ok.mark hm
          exact ⟨k, token, r, now, hmanaged, hkey, hholds, List.mem_cons_of_mem _ hmem⟩
      · exact h.ok w (List.mem_cons.mpr hw)
    · simp only [Tx.insertMarker, List.map_cons, hsave]
      refine List.pairwise_cons.mpr ⟨fun w hw => ?_, h.nested⟩
      have hsub : w.writes ⊆ tx.work.writes := (List.mem_cons.mp hw).elim (fun e => e ▸ List.Subset.refl _)
        ((List.pairwise_cons.mp h.nested).1 w)
      exact List.subset_cons_of_subset _ hsub

/-- The call that returns keeps the work or goes back to its savepoint. -/
theorem return_ok {ok : Bool} {result : Except Error Bool} (h : tx.return db ok = some (tx', result)) :
    ∃ c calls w, tx.calls = c :: calls ∧ (w = tx.work ∨ w = c.savepoint) ∧
    tx' = { tx with work := w, calls := calls } := by
  unfold Tx.return at h
  split at h
  · cases h
  rename_i c calls hcalls
  cases h
  refine ⟨c, calls, _, hcalls, ?_, rfl⟩
  split_ifs
  · exact .inl rfl
  · exact .inr rfl

theorem Ok.return {ok : Bool} {result : Except Error Bool} (h : tx.Ok) (hr : tx.return db ok = some (tx', result)) :
    tx'.Ok := by
  obtain ⟨c, calls, w, hcalls, hw, rfl⟩ := return_ok hr
  have hok := h.ok
  have hnested := h.nested
  rw [hcalls, List.map_cons] at hok hnested
  have hsub : (w :: calls.map (·.savepoint)).Sublist (tx.work :: c.savepoint :: calls.map (·.savepoint)) := by
    rcases hw with rfl | rfl
    · exact (List.sublist_cons_self _ _).cons_cons _
    · exact List.sublist_cons_self _ _
  exact ⟨fun x hx => hok x (hsub.subset hx), hnested.sublist hsub⟩

/-- No write is added by a call that returns. -/
theorem return_subset {ok : Bool} {result : Except Error Bool} (h : tx.Ok) (hr : tx.return db ok = some (tx', result)) :
    tx'.work.writes ⊆ tx.work.writes := by
  obtain ⟨c, calls, w, hcalls, hw, rfl⟩ := return_ok hr
  rcases hw with rfl | rfl
  · exact List.Subset.refl _
  · refine (List.pairwise_cons.mp h.nested).1 _ ?_
    rw [hcalls]
    exact List.mem_cons_self

end Tx

end Emitlane.Inbox
